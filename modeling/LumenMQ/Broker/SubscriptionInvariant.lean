import LumenMQ.Broker.SubscriptionRefinement

set_option autoImplicit false

/-! # Trees that come about

A tree that was built by its own operations represents a map, and every group in it was entered
under the filter of a subscription. Both are kept by every operation, the turns of the shared groups
included; the filters of a client then say everything about where it occurs in the tree. -/

namespace LumenMQ

open Option List FinMap

namespace SubscriptionTree

variable {c : String} {t : SubscriptionTree} {shared : FinMap (String × String) SharedEntry}
  {key key' : String × String}

/-! ## The filters of a client -/

section subscriptionsOf

variable (t : SubscriptionTree) (c c' filter : String)

/-- A subscribe that is accepted enters its filter for its client, and nothing else. -/
theorem subscriptionsOf_subscribe {qos : QoS} {t' : SubscriptionTree}
    (h : t.subscribe c filter qos = (.ok (), t')) :
    t'.subscriptionsOf c' =
      if c' = c then upsertFilter filter qos (t.subscriptionsOf c) else t.subscriptionsOf c' := by
  have hafter := t.subscribe_eq c filter qos
  rw [if_pos ((t.subscribe_ok_iff c filter qos).1 (by rw [h])), h] at hafter
  dsimp only at hafter
  rw [hafter, subscriptionsOf_indexFilter,
    subscriptionsOf_of_reverse (reverse_storeFilter t c filter qos)]

/-- An unsubscribe takes its filter out of the list, if the client was there. -/
theorem subscriptionsOf_unsubscribe : (t.unsubscribe c filter).2.subscriptionsOf c' =
    if (t.removeFilter c filter).1 = true ∧ c' = c then
      (t.subscriptionsOf c).filter (fun e => e.1 ≠ filter)
    else t.subscriptionsOf c' := by
  have hsame := subscriptionsOf_of_reverse (reverse_removeFilter t c filter)
  rw [unsubscribe_eq]
  by_cases hremoved : (t.removeFilter c filter).1 = true
  · simp [hremoved, subscriptionsOf_unindexFilter, hsame]
  · simp [hremoved, hsame]

theorem subscriptionsOf_unsubscribe_ne (h : c' ≠ c) :
    (t.unsubscribe c filter).2.subscriptionsOf c' = t.subscriptionsOf c' := by
  rw [subscriptionsOf_unsubscribe, if_neg (fun h' => h h'.2)]

/-- An unsubscribe enters nothing. -/
theorem subscriptionsOf_unsubscribe_subset :
    (t.unsubscribe c filter).2.subscriptionsOf c' ⊆ t.subscriptionsOf c' := by
  rw [subscriptionsOf_unsubscribe]
  split_ifs with h
  · rw [h.2]
    exact filter_subset_self _
  · exact List.Subset.refl _

theorem subscriptionsOf_unsubscribeAll :
    (t.unsubscribeAll c).subscriptionsOf c' = if c' = c then [] else t.subscriptionsOf c' := by
  simp only [subscriptionsOf, unsubscribeAll, get_erase]
  by_cases h : c' = c <;> simp [h]

end subscriptionsOf

theorem upsertFilter_ne_nil (filter : String) (qos : QoS) (l : List (String × QoS)) :
    upsertFilter filter qos l ≠ [] := by
  cases l with
  | nil => simp [upsertFilter]
  | cons e rest =>
    unfold upsertFilter
    split_ifs <;> simp

/-- An unsubscribe takes out no other filter. -/
theorem mem_subscriptionsOf_unsubscribe (t : SubscriptionTree) {filter : String} {e : String × QoS}
    (he : e ∈ t.subscriptionsOf c) (hne : e.1 ≠ filter) :
    e ∈ (t.unsubscribe c filter).2.subscriptionsOf c := by
  rw [subscriptionsOf_unsubscribe]
  split_ifs
  · exact mem_filter.2 ⟨he, by simpa using hne⟩
  · exact he

/-! ## The filters that are accepted -/

/-- Only filters that are accepted are listed. -/
def Listed (t : SubscriptionTree) : Prop :=
  ∀ c, ∀ f ∈ (t.subscriptionsOf c).map Prod.fst, acceptsFilter f = true

theorem Listed.subscribe (h : t.Listed) (c filter : String) (qos : QoS) :
    (t.subscribe c filter qos).2.Listed := by
  rcases hsub : t.subscribe c filter qos with ⟨e | ⟨⟩, t'⟩
  · have herr := subscribe_error (congrArg Prod.fst hsub)
    rw [hsub] at herr
    exact herr ▸ h
  · intro c' f hf
    rw [t.subscriptionsOf_subscribe c c' filter hsub] at hf
    split_ifs at hf
    · rcases mem_upsertFilter_fst.1 hf with rfl | hold
      · exact (t.subscribe_ok_iff c f qos).1 (by rw [hsub])
      · exact h c f hold
    · exact h c' f hf

/-- A filter that is new to a list is entered at its end. -/
theorem upsertFilter_of_notMem {filter : String} (qos : QoS) {l : List (String × QoS)}
    (h : filter ∉ l.map Prod.fst) : upsertFilter filter qos l = l ++ [(filter, qos)] := by
  induction l with
  | nil => rfl
  | cons e rest ih =>
    rw [map_cons, mem_cons, not_or] at h
    rw [upsertFilter, if_neg (fun he => h.1 he.symm), ih h.2, cons_append]

/-! ## The turns of the groups -/

/-- The groups whose turn a publication takes. -/
def TakesTurn (topic : String) (key : String × String) (entry : SharedEntry) : Prop :=
  topic ≠ "" ∧ topicMatchesFilter topic key.2 = true ∧ entry.members.entries ≠ []

instance (topic : String) (key : String × String) (entry : SharedEntry) :
    Decidable (TakesTurn topic key entry) :=
  inferInstanceAs (Decidable (_ ∧ _ ∧ _))

/-- A group after its turn. -/
def SharedEntry.advance (entry : SharedEntry) : SharedEntry :=
  { entry with rrCounter := entry.rrCounter + 1 }

/-- The groups whose turn it was have advanced; the others are as they were. -/
theorem matchesShared_get (t : SubscriptionTree) (topic : String) (key : String × String) :
    (t.matchesShared topic).2.shared.get key =
      (t.shared.get key).map (fun entry =>
        if TakesTurn topic key entry then SharedEntry.advance entry else entry) := by
  unfold matchesShared
  by_cases htop : topic = ""
  · simp [htop, TakesTurn]
  · rw [if_neg htop]
    dsimp only
    set hit : (String × String) × SharedEntry → Bool := fun e =>
      topicMatchesFilter topic e.1.2 && !e.2.members.entries.isEmpty with hhit
    -- the loop enters the advanced groups, which have different keys
    have hfold : ∀ (l : List ((String × String) × SharedEntry)) (m : FinMap _ SharedEntry),
        l.foldl (fun m e => m.insert e.1 { e.2 with rrCounter := e.2.rrCounter + 1 }) m =
          (l.map (fun e => (e.1, SharedEntry.advance e.2))).foldl
            (fun m p => m.insert p.1 p.2) m := by
      intro l m
      rw [foldl_map]
      rfl
    rw [hfold]
    have hks : ((t.shared.toPairs.filter hit).map
        (fun e => (e.1, SharedEntry.advance e.2))).map Prod.fst =
          (t.shared.toPairs.filter hit).map Prod.fst := by
      rw [List.map_map]
      rfl
    cases hget : t.shared.get key with
    | none =>
      rw [get_foldl_insert_of_notMem, hget]
      · rfl
      · rw [hks, List.mem_map]
        rintro ⟨⟨key', entry⟩, hmem, rfl⟩
        rw [mem_toPairs.1 (mem_filter.1 hmem).1] at hget
        simp at hget
    | some entry =>
      by_cases hturn : hit (key, entry) = true
      · have hmem : (key, SharedEntry.advance entry) ∈
            (t.shared.toPairs.filter hit).map (fun e => (e.1, SharedEntry.advance e.2)) :=
          mem_map.2 ⟨(key, entry), mem_filter.2 ⟨mem_toPairs.2 hget, hturn⟩, rfl⟩
        rw [get_foldl_insert_of_mem (hks ▸ ?_) hmem]
        · simp only [hhit, Bool.and_eq_true, Bool.not_eq_true', isEmpty_eq_false_iff] at hturn
          rw [map_some, if_pos ⟨htop, hturn⟩]
        · exact t.shared.toPairs_nodup.sublist (List.Sublist.map _ filter_sublist)
      · rw [get_foldl_insert_of_notMem, hget]
        · simp only [hhit, Bool.and_eq_true, Bool.not_eq_true', isEmpty_eq_false_iff] at hturn
          rw [map_some, if_neg (fun h => hturn h.2)]
        · rw [hks, List.mem_map]
          rintro ⟨⟨key', entry'⟩, hmem, rfl⟩
          obtain ⟨hmem, hhit'⟩ := mem_filter.1 hmem
          rw [mem_toPairs.1 hmem] at hget
          exact hturn (some.inj hget ▸ hhit')

@[simp] theorem matchesShared_root (t : SubscriptionTree) (topic : String) :
    (t.matchesShared topic).2.root = t.root := by
  unfold matchesShared
  split_ifs <;> rfl

@[simp] theorem matchesShared_reverse (t : SubscriptionTree) (topic : String) :
    (t.matchesShared topic).2.reverse = t.reverse := by
  unfold matchesShared
  split_ifs <;> rfl

theorem matchesShared_subscriptionsOf (t : SubscriptionTree) (topic c : String) :
    (t.matchesShared topic).2.subscriptionsOf c = t.subscriptionsOf c := by
  unfold subscriptionsOf
  rw [matchesShared_reverse]

/-- A turn changes no membership. -/
theorem matchesShared_memberQos (t : SubscriptionTree) (topic : String) (key : String × String)
    (c : String) :
    memberQos (t.matchesShared topic).2.shared key c = memberQos t.shared key c := by
  unfold memberQos
  rw [matchesShared_get]
  cases t.shared.get key with
  | none => rfl
  | some entry =>
    simp only [map_some, bind_some]
    split_ifs <;> rfl

theorem Represents.matchesShared {M : SubMap} (h : t.Represents M) (topic : String) :
    (t.matchesShared topic).2.Represents M where
  plain := by
    rw [matchesShared_root]
    exact h.plain
  valid := h.valid
  stored := by
    rw [matchesShared_root]
    exact h.stored
  member := by
    intro c f key hkey
    rw [matchesShared_memberQos]
    exact h.member c f key hkey
  indexed := by
    intro c
    rw [matchesShared_subscriptionsOf]
    exact h.indexed c

/-! ## Sound trees -/

/-- What holds of every tree that is built by the operations. -/
structure Sound (t : SubscriptionTree) : Prop where
  represents : ∃ M, t.Represents M
  /-- Every group was entered under the filter of a subscription. -/
  keyed : ∀ key, (t.shared.get key).isSome = true → ∃ f, parseSharedFilter f = some key

theorem Reads.sound {M : SubMap} (h : t.Reads M) : t.Sound := ⟨⟨M, h.represents⟩, h.keyed⟩

theorem sound_empty : Sound {} := reads_empty.sound

namespace Sound

variable {t : SubscriptionTree}

theorem onTree (h : t.Sound) (op : SubOp) : (op.onTree t).Sound := by
  obtain ⟨⟨M, hM⟩, hkeyed⟩ := h
  exact ((hM.reads hkeyed).onTree op).sound

theorem matchesShared (h : t.Sound) (topic : String) : (t.matchesShared topic).2.Sound := by
  obtain ⟨⟨M, hM⟩, hkeyed⟩ := h
  refine ⟨⟨M, hM.matchesShared topic⟩, ?_⟩
  intro key hkey
  rw [matchesShared_get, isSome_map] at hkey
  exact hkeyed key hkey

end Sound

/-- A filter is listed for a client exactly if the map has it. -/
theorem Represents.mem_listed_iff {M : SubMap} (h : t.Represents M) {f : String} :
    f ∈ (t.subscriptionsOf c).map Prod.fst ↔ (M c f).isSome = true := by
  simp [← (h.indexed c).2, isSome_iff_exists]

/-! ## Where a client occurs -/

/-- A client occurs in the trie, in a group or in the reverse index. -/
inductive Occurs (t : SubscriptionTree) (c : String) : Prop
  | trie (path : List String) (q : QoS) (h : t.root.qosAt c path = some q)
  | group (key : String × String) (q : QoS) (h : memberQos t.shared key c = some q)
  | index (e : String × QoS) (h : e ∈ t.subscriptionsOf c)

/-- A client occurs in a sound tree exactly if it has a filter. -/
theorem Sound.occurs_iff (h : t.Sound) (c : String) : t.Occurs c ↔ t.subscriptionsOf c ≠ [] := by
  obtain ⟨⟨M, hM⟩, hkey⟩ := h
  have hlisted : ∀ {f : String} {q : QoS}, M c f = some q → t.subscriptionsOf c ≠ [] :=
    fun h => ne_nil_of_mem (((hM.indexed c).2 _ _).2 h)
  constructor
  · rintro (⟨path, q, hq⟩ | ⟨key, q, hq⟩ | ⟨e, he⟩)
    · obtain ⟨f, -, -, hf⟩ := (hM.stored c path q).1 hq
      exact hlisted hf
    · obtain ⟨f, hf⟩ := hkey key (get_isSome_of_memberQos (isSome_iff_exists.2 ⟨q, hq⟩))
      exact hlisted ((hM.member c f key hf).symm.trans hq)
    · exact ne_nil_of_mem he
  · intro hne
    obtain ⟨e, he⟩ := exists_mem_of_ne_nil _ hne
    exact .index e he

/-- Whether a filter of a client is in the tree itself: in its group, or in the trie. -/
def has (t : SubscriptionTree) (c f : String) : Bool :=
  match parseSharedFilter f with
  | some key => (memberQos t.shared key c).isSome
  | none => (t.root.qosAt c (split f)).isSome

/-- A sound tree has the filters that are listed for the client. -/
theorem Sound.has_iff (h : t.Sound) {f : String} :
    t.has c f = true ↔ f ∈ (t.subscriptionsOf c).map Prod.fst := by
  obtain ⟨M, hM⟩ := h.represents
  rw [hM.mem_listed_iff, ← hM.storedQos_eq, has, storedQos]
  cases parseSharedFilter f <;> rfl

/-- The member whose turn it is belongs to the group. -/
theorem members_of_pick {entry : SharedEntry} {q : QoS} (h : entry.pick = some (c, q)) :
    entry.members.get c = some q := by
  have hmem := mem_of_getElem? h
  rw [mem_mergeSort] at hmem
  exact mem_toPairs.1 hmem

/-- The pairs `matchesShared` returns. -/
theorem mem_matchesShared {topic : String} {q : QoS} : (c, q) ∈ (t.matchesShared topic).1 ↔
      ∃ key entry, t.shared.get key = some entry ∧ TakesTurn topic key entry ∧
        entry.pick = some (c, q) := by
  unfold matchesShared TakesTurn
  by_cases htop : topic = ""
  · simp [htop]
  · rw [if_neg htop]
    simp only [mem_filterMap, mem_filter, Prod.exists, mem_toPairs,
      Bool.and_eq_true, Bool.not_eq_true', isEmpty_eq_false_iff]
    constructor
    · rintro ⟨group, f, entry, ⟨hget, hhit⟩, hpick⟩
      exact ⟨group, f, entry, hget, ⟨htop, hhit⟩, hpick⟩
    · rintro ⟨group, f, entry, hget, ⟨-, hhit⟩, hpick⟩
      exact ⟨group, f, entry, ⟨hget, hhit⟩, hpick⟩

/-- Some topic is routed to the client. -/
def Matched (t : SubscriptionTree) (c : String) : Prop :=
  ∃ topic q, (c, q) ∈ t.matchesPlain topic ∨ (c, q) ∈ (t.matchesShared topic).1

/-- A client that is matched by a topic has a filter. -/
theorem Sound.subscriptionsOf_of_matched (h : t.Sound) (hmatch : t.Matched c) :
    t.subscriptionsOf c ≠ [] := by
  rw [← h.occurs_iff]
  obtain ⟨topic, q, hq | hq⟩ := hmatch
  · by_cases htop : topic = ""
    · simp [matchesPlain, htop] at hq
    · obtain ⟨M, hM⟩ := h.represents
      obtain ⟨⟨f, -, hf, -⟩, -⟩ := (hM.mem_matchesPlain htop c q).1 hq
      exact .index _ (((hM.indexed c).2 f q).2 hf)
  · obtain ⟨key, entry, hget, -, hpick⟩ := mem_matchesShared.1 hq
    refine .group key q ?_
    rw [memberQos, hget, bind_some]
    exact members_of_pick hpick

end SubscriptionTree

end LumenMQ
