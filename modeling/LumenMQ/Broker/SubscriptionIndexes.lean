import Mathlib.Data.Set.Card
import LumenMQ.Broker.SubscriptionInvariant

set_option autoImplicit false

/-! # The indexes of the subscription tree

A subscription is in the trie or in a group, and in the list of its client. Along any history of
calls the three agree, no list and no group is left empty, and the numbers that are counted in the
trie and in the groups are those of the subscriptions. -/

namespace LumenMQ

open Option List FinMap

/-- A set is as large as a list without repetitions that its elements are sent to one by one. -/
theorem ncard_eq_length {α β : Type} {s : Set α} {l : List β} (hl : l.Nodup) (f : α → β)
    (hf : Set.InjOn f s) (himage : ∀ b, b ∈ l ↔ ∃ a ∈ s, f a = b) :
    s.Finite ∧ s.ncard = l.length := by
  classical
  have himage : f '' s = (l.toFinset : Set β) := by
    ext b
    simp [himage]
  refine ⟨Set.Finite.of_finite_image ?_ hf, ?_⟩
  · rw [himage]
    exact l.toFinset.finite_toSet
  · rw [← hf.ncard_image, himage, Set.ncard_coe_finset, toFinset_card_of_nodup hl]

/-! ## The trie -/

namespace Node

/-- No literal level occurs twice among the children of a node. -/
inductive Distinct : Node → Prop
  | intro {n : Node} (nodup : (n.children.map Prod.fst).Nodup)
      (child : ∀ seg m, n.childForSegment seg = some m → Distinct m) : Distinct n

theorem distinct_empty : empty.Distinct := by
  refine .intro nodup_nil ?_
  intro seg m h
  rw [childForSegment_empty] at h
  simp at h

theorem hereditary_distinct : Hereditary Distinct where
  empty := distinct_empty
  child := by
    rintro n m seg ⟨-, hch⟩ hm
    exact hch seg m hm
  setSubscribers := by
    rintro n subs ⟨hnd, hch⟩
    exact .intro hnd hch
  setChild := by
    rintro n seg child ⟨hnd, hch⟩ hc
    refine .intro ?_ ?_
    · unfold Node.setChild
      split_ifs
      · exact hnd
      · exact hnd
      · cases child with
        | none => exact nodup_keys_removeEntry hnd seg
        | some m => exact nodup_keys_setEntry hnd seg m
    · intro s m hm
      rw [childForSegment_setChild] at hm
      split_ifs at hm
      · exact hc m hm
      · exact hch s m hm

theorem keys_removeAllChildren (c : String) (entries : List (String × Node)) :
    (removeAllChildren c entries).map Prod.fst = entries.map Prod.fst := by
  induction entries with
  | nil => rfl
  | cons e rest ih =>
    obtain ⟨seg, child⟩ := e
    rw [removeAllChildren, map_cons, map_cons, ih]

theorem Distinct.removeAll {n : Node} (h : n.Distinct) (c : String) : (n.removeAll c).Distinct := by
  induction h with
  | @intro n hnd hch ih =>
    refine .intro ?_ ?_
    · obtain ⟨children, plusChild, hashChild, subs⟩ := n
      exact (keys_removeAllChildren c children).symm ▸ hnd
    · intro seg m hm
      rw [childForSegment_removeAll, map_eq_some_iff] at hm
      obtain ⟨m', hm', rfl⟩ := hm
      exact ih seg m' hm'

/-! ### What is counted -/

/-- The entries below a child, with its level in front. -/
def prepend (seg : String) (l : List (List String × String)) : List (List String × String) :=
  l.map (fun e => (seg :: e.1, e.2))

mutual

/-- The subscribers below a node, with the path to each. -/
def paths : Node → List (List String × String)
  | mk children plusChild hashChild subscribers =>
    subscribers.keys.map (fun c => ([], c)) ++ pathsChildren children ++
      pathsChild "+" plusChild ++ pathsChild "#" hashChild

def pathsChildren : List (String × Node) → List (List String × String)
  | [] => []
  | (seg, child) :: rest => prepend seg (paths child) ++ pathsChildren rest

def pathsChild (seg : String) : Option Node → List (List String × String)
  | none => []
  | some child => prepend seg (paths child)

end

mutual

theorem length_paths : (n : Node) → n.paths.length = n.countSubscribers
  | mk children plusChild hashChild subscribers => by
    rw [paths, countSubscribers, length_append, length_append, length_append,
      length_pathsChildren children, length_pathsChild "+" plusChild,
      length_pathsChild "#" hashChild, length_map]
    simp [AList.keys, keys]

theorem length_pathsChildren : (l : List (String × Node)) →
    (pathsChildren l).length = countChildren l
  | [] => rfl
  | (seg, child) :: rest => by
    rw [pathsChildren, countChildren, length_append, length_pathsChildren rest, prepend,
      length_map, length_paths child]

theorem length_pathsChild (seg : String) : (child : Option Node) →
    (pathsChild seg child).length = countChild child
  | none => rfl
  | some child => by rw [pathsChild, countChild, prepend, length_map, length_paths child]

end

theorem mem_prepend {seg : String} {l : List (List String × String)} {p : List String}
    {c : String} :
    (p, c) ∈ prepend seg l ↔ ∃ p', p = seg :: p' ∧ (p', c) ∈ l := by
  simp only [prepend, List.mem_map, Prod.mk.injEq, Prod.exists]
  constructor
  · rintro ⟨p', c', hmem, rfl, rfl⟩
    exact ⟨p', rfl, hmem⟩
  · rintro ⟨p', rfl, hmem⟩
    exact ⟨p', c, hmem, rfl, rfl⟩

theorem nodup_prepend {l : List (List String × String)} (h : l.Nodup) (seg : String) :
    (prepend seg l).Nodup := by
  refine h.map ?_
  rintro ⟨p, c⟩ ⟨p', c'⟩ heq
  simpa using heq

theorem mem_pathsChildren {l : List (String × Node)} {p : List String} {c : String} :
    (p, c) ∈ pathsChildren l ↔ ∃ seg m p', (seg, m) ∈ l ∧ p = seg :: p' ∧ (p', c) ∈ m.paths := by
  induction l with
  | nil => simp [pathsChildren]
  | cons e rest ih =>
    obtain ⟨seg, m⟩ := e
    rw [pathsChildren, mem_append, mem_prepend, ih]
    constructor
    · rintro (⟨p', rfl, hmem⟩ | ⟨seg', m', p', hmem, rfl, hp'⟩)
      · exact ⟨seg, m, p', mem_cons_self, rfl, hmem⟩
      · exact ⟨seg', m', p', mem_cons_of_mem _ hmem, rfl, hp'⟩
    · rintro ⟨seg', m', p', hmem, rfl, hp'⟩
      rcases mem_cons.1 hmem with heq | hmem
      · obtain ⟨rfl, rfl⟩ := Prod.mk.inj heq
        exact .inl ⟨p', rfl, hp'⟩
      · exact .inr ⟨seg', m', p', hmem, rfl, hp'⟩

theorem mem_pathsChild {seg : String} {child : Option Node} {p : List String} {c : String} :
    (p, c) ∈ pathsChild seg child ↔ ∃ m p', child = some m ∧ p = seg :: p' ∧ (p', c) ∈ m.paths := by
  cases child with
  | none => simp [pathsChild]
  | some m =>
    rw [pathsChild, mem_prepend]
    constructor
    · rintro ⟨p', rfl, hmem⟩
      exact ⟨m, p', rfl, rfl, hmem⟩
    · rintro ⟨m', p', hm, rfl, hmem⟩
      exact ⟨p', rfl, some.inj hm ▸ hmem⟩

theorem nodup_pathsChildren {l : List (String × Node)} (hks : (l.map Prod.fst).Nodup)
    (hpaths : ∀ seg m, (seg, m) ∈ l → m.paths.Nodup) : (pathsChildren l).Nodup := by
  induction l with
  | nil => exact nodup_nil
  | cons e rest ih =>
    obtain ⟨seg, m⟩ := e
    rw [map_cons, nodup_cons] at hks
    rw [pathsChildren]
    refine Nodup.append (nodup_prepend (hpaths seg m mem_cons_self) seg)
      (ih hks.2 (fun seg' m' h => hpaths seg' m' (mem_cons_of_mem _ h))) ?_
    -- what lies below different children differs in its first level
    rintro ⟨p, c⟩ h h'
    obtain ⟨p', rfl, -⟩ := mem_prepend.1 h
    obtain ⟨seg', m', p'', hmem, heq, -⟩ := mem_pathsChildren.1 h'
    obtain ⟨rfl, -⟩ := cons.inj heq
    exact hks.1 (mem_map.2 ⟨_, hmem, rfl⟩)

/-- The literal children of a node without wildcard levels among them. -/
theorem mem_children_iff {n : Node} (hplain : n.Plain) (hdist : n.Distinct) {seg : String}
    {m : Node} :
    (seg, m) ∈ n.children ↔ seg ≠ "+" ∧ seg ≠ "#" ∧ n.childForSegment seg = some m := by
  obtain ⟨hnd, -⟩ := hdist
  rw [← lookup_eq_some_iff_mem hnd]
  constructor
  · exact hplain.childForSegment_of_lookup
  · rintro ⟨h1, h2, h⟩
    simpa [childForSegment, h1, h2] using h

/-- The paths of a node are those of its children, with their level in front. -/
theorem mem_paths_cons {n : Node} (hplain : n.Plain) (hdist : n.Distinct) {seg : String}
    {p : List String} {c : String} :
    (seg :: p, c) ∈ n.paths ↔ ∃ m, n.childForSegment seg = some m ∧ (p, c) ∈ m.paths := by
  have hmem : ∀ m, (seg, m) ∈ n.children ↔ _ := fun m => mem_children_iff hplain hdist
  obtain ⟨children, plusChild, hashChild, subs⟩ := n
  have hplus : (mk children plusChild hashChild subs).childForSegment "+" = plusChild := rfl
  have hhash : (mk children plusChild hashChild subs).childForSegment "#" = hashChild := rfl
  rw [paths, mem_append, mem_append, mem_append, mem_pathsChildren, mem_pathsChild,
    mem_pathsChild]
  constructor
  · rintro (((h | ⟨seg', m, p', hm, heq, hp'⟩) | ⟨m, p', hm, heq, hp'⟩) | ⟨m, p', hm, heq, hp'⟩)
    · simp at h
    · obtain ⟨rfl, rfl⟩ := cons.inj heq
      exact ⟨m, ((hmem m).1 hm).2.2, hp'⟩
    · obtain ⟨rfl, rfl⟩ := cons.inj heq
      exact ⟨m, hplus.trans hm, hp'⟩
    · obtain ⟨rfl, rfl⟩ := cons.inj heq
      exact ⟨m, hhash.trans hm, hp'⟩
  · rintro ⟨m, hm, hp⟩
    by_cases h1 : seg = "+"
    · subst h1
      exact .inl (.inr ⟨m, p, hplus.symm.trans hm, rfl, hp⟩)
    · by_cases h2 : seg = "#"
      · subst h2
        exact .inr ⟨m, p, hhash.symm.trans hm, rfl, hp⟩
      · exact .inl (.inl (.inr ⟨seg, m, p, (hmem m).2 ⟨h1, h2, hm⟩, rfl, hp⟩))

theorem mem_paths_nil {n : Node} {c : String} :
    (([] : List String), c) ∈ n.paths ↔ (n.subscribers.get c).isSome = true := by
  obtain ⟨children, plusChild, hashChild, subs⟩ := n
  rw [paths, mem_append, mem_append, mem_append, mem_pathsChildren, mem_pathsChild,
    mem_pathsChild]
  simp [FinMap.mem_keys, subscribers]

/-- **What is counted is what is stored.** -/
theorem mem_paths {n : Node} (hplain : n.Plain) (hdist : n.Distinct) {p : List String}
    {c : String} : (p, c) ∈ n.paths ↔ (n.qosAt c p).isSome = true := by
  induction p generalizing n with
  | nil => exact mem_paths_nil
  | cons seg p ih =>
    rw [mem_paths_cons hplain hdist, qosAt]
    constructor
    · rintro ⟨m, hm, hp⟩
      rw [hm]
      exact (ih (hplain.child hm) (hereditary_distinct.child hdist hm)).1 hp
    · intro h
      obtain ⟨q, hq⟩ := isSome_iff_exists.1 h
      obtain ⟨m, hm, hq⟩ := bind_eq_some_iff.1 hq
      refine ⟨m, hm, (ih (hplain.child hm)
        (hereditary_distinct.child hdist hm)).2 ?_⟩
      rw [hq]
      rfl

theorem nodup_paths {n : Node} (hplain : n.Plain) (hdist : n.Distinct) : n.paths.Nodup := by
  induction hplain with
  | @intro n hplus hhash hch ih =>
    have hplain : n.Plain := .intro hplus hhash hch
    have hmem : ∀ seg m, (seg, m) ∈ n.children ↔ _ :=
      fun seg m => mem_children_iff hplain hdist
    have hbelow : ∀ seg m, n.childForSegment seg = some m → m.paths.Nodup :=
      fun seg m hm => ih seg m hm (hereditary_distinct.child hdist hm)
    obtain ⟨hks, -⟩ := hdist
    obtain ⟨children, plusChild, hashChild, subs⟩ := n
    have hopt : ∀ seg (child : Option Node), (∀ m, child = some m → m.paths.Nodup) →
        (pathsChild seg child).Nodup := by
      intro seg child h
      cases child with
      | none => exact nodup_nil
      | some m => exact nodup_prepend (h m rfl) seg
    rw [paths]
    refine Nodup.append (Nodup.append (Nodup.append ?_ ?_ ?_) ?_ ?_) ?_ ?_
    · refine subs.keys_nodup.map ?_
      intro c c' heq
      exact (Prod.mk.inj heq).2
    · exact nodup_pathsChildren hks (fun seg m h => hbelow seg m ((hmem seg m).1 h).2.2)
    · rintro ⟨p, c⟩ h h'
      obtain ⟨c', -, heq⟩ := mem_map.1 h
      obtain ⟨seg, m, p', -, rfl, -⟩ := mem_pathsChildren.1 h'
      simp at heq
    · exact hopt "+" plusChild (fun m hm => hbelow "+" m hm)
    · rintro ⟨p, c⟩ h h'
      obtain ⟨m, p', -, rfl, -⟩ := mem_pathsChild.1 h'
      rcases mem_append.1 h with h | h
      · simp at h
      · obtain ⟨seg, m', p'', hm', heq, -⟩ := mem_pathsChildren.1 h
        exact ((hmem seg m').1 hm').1 (cons.inj heq).1.symm
    · exact hopt "#" hashChild (fun m hm => hbelow "#" m hm)
    · rintro ⟨p, c⟩ h h'
      obtain ⟨m, p', -, rfl, -⟩ := mem_pathsChild.1 h'
      rcases mem_append.1 h with h | h
      · rcases mem_append.1 h with h | h
        · simp at h
        · obtain ⟨seg, m', p'', hm', heq, -⟩ := mem_pathsChildren.1 h
          exact ((hmem seg m').1 hm').2.1 (cons.inj heq).1.symm
      · obtain ⟨m', p'', -, heq, -⟩ := mem_pathsChild.1 h
        exact absurd (cons.inj heq).1 (by decide)

end Node

/-! ## The tree -/

namespace SubscriptionTree

variable {t : SubscriptionTree}

theorem entries_insert_ne_nil {α β : Type} [DecidableEq α] (m : FinMap α β) (a : α) (b : β) :
    (m.insert a b).entries ≠ [] := by
  intro h
  have hnone : get (m.insert a b) a = none := get_eq_none_of_entries_nil h a
  rw [get_insert_self] at hnone
  exact absurd hnone (by simp)

section lists

variable {t : SubscriptionTree} (h : ∀ c, t.reverse.get c ≠ some [])

include h

theorem lists_indexFilter (c f : String) (q : QoS) (c' : String) :
    (t.indexFilter c f q).reverse.get c' ≠ some [] := by
  show get (t.reverse.insert c _) c' ≠ some []
  rw [get_insert]
  split_ifs
  · exact fun heq => upsertFilter_ne_nil f q _ (some.inj heq)
  · exact h c'

theorem lists_unindexFilter (c f : String) (c' : String) :
    (t.unindexFilter c f).reverse.get c' ≠ some [] := by
  unfold unindexFilter
  split
  · dsimp only
    split_ifs with hempty
    · rw [get_erase]
      split_ifs
      · simp
      · exact h c'
    · rw [get_insert]
      split_ifs
      · exact fun heq => hempty (some.inj heq)
      · exact h c'
  · exact h c'

end lists

/-- No group is empty. -/
def GroupsFilled (shared : FinMap (String × String) SharedEntry) : Prop :=
  ∀ key entry, shared.get key = some entry → entry.members.entries ≠ []

theorem GroupsFilled.removeMember {shared : FinMap (String × String) SharedEntry}
    (h : GroupsFilled shared) (key : String × String) (c : String) :
    GroupsFilled (removeMember shared key c) := by
  intro key' entry hent
  unfold SubscriptionTree.removeMember at hent
  split at hent
  · dsimp only at hent
    split_ifs at hent with hempty
    · exact h key' entry (get_of_erase hent)
    · rcases get_insert_cases hent with ⟨-, rfl⟩ | ⟨-, hent⟩
      · exact hempty
      · exact h key' entry hent
  · exact h key' entry hent

theorem GroupsFilled.foldl_removeMember (keys : List (String × String)) (c : String)
    {shared : FinMap (String × String) SharedEntry} (h : GroupsFilled shared) :
    GroupsFilled (keys.foldl (fun shared key => SubscriptionTree.removeMember shared key c)
      shared) := by
  induction keys generalizing shared with
  | nil => exact h
  | cons key keys ih => exact ih (h.removeMember key c)

/-- Nothing is left behind empty, and no level occurs twice among the children of a node. -/
structure Trim (t : SubscriptionTree) : Prop where
  distinct : t.root.Distinct
  lists : ∀ c, t.reverse.get c ≠ some []
  groups : GroupsFilled t.shared

theorem trim_empty : Trim {} where
  distinct := Node.distinct_empty
  lists := by simp
  groups := by
    intro key entry h
    simp at h

theorem kept_trim : Kept Trim where
  storeFilter := by
    intro t c f q _ h
    unfold SubscriptionTree.storeFilter
    cases parseSharedFilter f with
    | some key =>
      refine ⟨h.distinct, h.lists, fun key' entry hentry => ?_⟩
      rcases get_insert_cases hentry with ⟨-, rfl⟩ | ⟨-, hentry⟩
      · exact entries_insert_ne_nil _ c q
      · exact h.groups key' entry hentry
    | none =>
      exact ⟨Node.hereditary_distinct.insertAt h.distinct c q (split f), h.lists, h.groups⟩
  indexFilter c f q h := ⟨h.distinct, lists_indexFilter h.lists c f q, h.groups⟩
  removeFilter := by
    intro t c f h
    unfold SubscriptionTree.removeFilter
    cases parseSharedFilter f with
    | some key =>
      dsimp only
      split_ifs
      · exact ⟨h.distinct, h.lists, h.groups.removeMember key c⟩
      · exact h
    | none =>
      exact ⟨Node.hereditary_distinct.removeRecursive h.distinct c (split f), h.lists, h.groups⟩
  unindexFilter := by
    intro t c f h
    refine ⟨?_, lists_unindexFilter h.lists c f, ?_⟩
    · rw [root_unindexFilter]
      exact h.distinct
    · rw [shared_unindexFilter]
      exact h.groups
  removeAll c h := ⟨h.distinct.removeAll c, h.lists, h.groups⟩
  clearMembers c keys h := ⟨h.distinct, h.lists, h.groups.foldl_removeMember keys c⟩
  erase := by
    intro t c h
    refine ⟨h.distinct, fun c' => ?_, h.groups⟩
    rw [get_erase]
    split_ifs
    · simp
    · exact h.lists c'

/-! ## The subscriptions of a tree -/

/-- The clients and filters of the plain subscriptions. -/
def plainPairs (t : SubscriptionTree) : Set (String × String) :=
  {p | parseSharedFilter p.2 = none ∧ p.2 ∈ (t.subscriptionsOf p.1).map Prod.fst}

/-- The clients and filters of the shared subscriptions. -/
def sharedPairs (t : SubscriptionTree) : Set (String × String) :=
  {p | parseSharedFilter p.2 ≠ none ∧ p.2 ∈ (t.subscriptionsOf p.1).map Prod.fst}

/-- The members of the groups, each with the key of its group. -/
def memberships (t : SubscriptionTree) : List ((String × String) × String) :=
  t.shared.toPairs.flatMap (fun e => e.2.members.keys.map (fun c => (e.1, c)))

theorem mem_memberships {key : String × String} {c : String} :
    (key, c) ∈ t.memberships ↔ (memberQos t.shared key c).isSome = true := by
  unfold memberships memberQos
  rw [mem_flatMap]
  constructor
  · rintro ⟨⟨key', entry⟩, hent, hmem⟩
    obtain ⟨c', hc', heq⟩ := mem_map.1 hmem
    obtain ⟨rfl, rfl⟩ := Prod.mk.inj heq
    rw [mem_toPairs.1 hent, bind_some]
    exact mem_keys.1 hc'
  · intro h
    obtain ⟨q, hq⟩ := isSome_iff_exists.1 h
    obtain ⟨entry, hent, hq⟩ := bind_eq_some_iff.1 hq
    refine ⟨(key, entry), mem_toPairs.2 hent, mem_map.2 ⟨c, ?_, rfl⟩⟩
    rw [FinMap.mem_keys, hq]
    rfl

theorem nodup_memberships (t : SubscriptionTree) : t.memberships.Nodup := by
  refine nodup_flatMap.2 ⟨fun e _ => ?_, ?_⟩
  · refine e.2.members.keys_nodup.map ?_
    intro c c' heq
    exact (Prod.mk.inj heq).2
  -- different groups have different keys
  · refine (pairwise_map.1 t.shared.toPairs_nodup).imp ?_
    rintro e e' hne ⟨key, c⟩ h h'
    obtain ⟨c1, -, heq1⟩ := mem_map.1 h
    obtain ⟨c2, -, heq2⟩ := mem_map.1 h'
    exact hne ((Prod.mk.inj heq1).1.trans (Prod.mk.inj heq2).1.symm)

theorem length_memberships (t : SubscriptionTree) :
    t.memberships.length = (t.shared.toPairs.map (fun e => e.2.members.entries.length)).sum := by
  unfold memberships
  rw [length_flatMap]
  simp [AList.keys, keys]

section counts

variable {t : SubscriptionTree} {M : SubMap}

/-- The trie counts the plain subscriptions. -/
theorem Represents.ncard_plainPairs (h : t.Represents M) (hdist : t.root.Distinct) :
    t.plainPairs.Finite ∧ t.plainPairs.ncard = t.root.countSubscribers := by
  rw [← Node.length_paths]
  refine ncard_eq_length (Node.nodup_paths h.plain hdist) (fun p => (split p.2, p.1)) ?_ ?_
  · rintro ⟨c, f⟩ - ⟨c', f'⟩ - heq
    obtain ⟨hsplit, rfl⟩ := Prod.mk.inj heq
    exact congrArg (Prod.mk c) (split_injective hsplit)
  · rintro ⟨p, c⟩
    rw [Node.mem_paths h.plain hdist, isSome_iff_exists]
    constructor
    · rintro ⟨q, hq⟩
      obtain ⟨f, hf, rfl, hM⟩ := (h.stored c p q).1 hq
      exact ⟨(c, f), ⟨hf, h.mem_listed_iff.2 (by rw [hM]; rfl)⟩, rfl⟩
    · rintro ⟨⟨c', f⟩, ⟨hf, hlisted⟩, heq⟩
      obtain ⟨rfl, rfl⟩ := Prod.mk.inj heq
      obtain ⟨q, hM⟩ := isSome_iff_exists.1 (h.mem_listed_iff.1 hlisted)
      exact ⟨q, (h.qosAt_split c' hf).trans hM⟩

/-- The groups count the shared subscriptions. -/
theorem Sound.ncard_sharedPairs (h : t.Sound) :
    t.sharedPairs.Finite ∧ t.sharedPairs.ncard = t.memberships.length := by
  obtain ⟨⟨M, hM⟩, hkeyed⟩ := h
  refine ncard_eq_length t.nodup_memberships
    (fun p => ((parseSharedFilter p.2).getD ("", ""), p.1)) ?_ ?_
  · rintro ⟨c, f⟩ ⟨hf, -⟩ ⟨c', f'⟩ ⟨hf', -⟩ heq
    obtain ⟨hkey, rfl⟩ := Prod.mk.inj heq
    obtain ⟨key, hkey1⟩ := ne_none_iff_exists'.1 hf
    obtain ⟨key', hkey2⟩ := ne_none_iff_exists'.1 hf'
    simp only [hkey1, hkey2, getD_some] at hkey
    exact congrArg (Prod.mk c) (parseSharedFilter_injective hkey1 (hkey ▸ hkey2))
  · rintro ⟨key, c⟩
    rw [mem_memberships]
    constructor
    · intro hmem
      obtain ⟨f, hf⟩ := hkeyed key (get_isSome_of_memberQos hmem)
      refine ⟨(c, f), ⟨by simp [hf], hM.mem_listed_iff.2 ?_⟩, by simp [hf]⟩
      rw [← hM.member c f key hf]
      exact hmem
    · rintro ⟨⟨c', f⟩, ⟨hf, hlisted⟩, heq⟩
      obtain ⟨hkey, rfl⟩ := Prod.mk.inj heq
      obtain ⟨key', hkey'⟩ := ne_none_iff_exists'.1 hf
      obtain rfl : key' = key := by simpa [hkey'] using hkey
      rw [hM.member c' f key' hkey']
      exact hM.mem_listed_iff.1 hlisted

end counts

/-! ## Histories -/

/-- **The three indexes agree.** -/
structure IndexesAgree (t : SubscriptionTree) : Prop where
  listed_iff : ∀ c f q, (f, q) ∈ t.subscriptionsOf c ↔ t.storedQos c f = some q
  once : ∀ c, ((t.subscriptionsOf c).map Prod.fst).Nodup
  lists : ∀ c, t.reverse.get c ≠ some []
  groups : ∀ key entry, t.shared.get key = some entry → entry.members.entries ≠ []
  finite : t.plainPairs.Finite ∧ t.sharedPairs.Finite
  counts : t.subscriptionCounts = (t.plainPairs.ncard, t.sharedPairs.ncard)

theorem indexesAgree_of_trim (hsound : t.Sound) (htrim : t.Trim) : t.IndexesAgree := by
  obtain ⟨M, hM⟩ := hsound.represents
  obtain ⟨hplainFinite, hplain⟩ := hM.ncard_plainPairs htrim.distinct
  obtain ⟨hsharedFinite, hshared⟩ := hsound.ncard_sharedPairs
  refine ⟨fun c f q => ?_, fun c => (hM.indexed c).1, htrim.lists, htrim.groups,
    ⟨hplainFinite, hsharedFinite⟩, ?_⟩
  · rw [hM.storedQos_eq]
    exact (hM.indexed c).2 f q
  · rw [hplain, hshared, length_memberships]
    rfl

/-- The tree after a sequence of calls. -/
def after (t : SubscriptionTree) (ops : List SubOp) : SubscriptionTree :=
  ops.foldl (fun t op => op.onTree t) t

/-- **After any sequence of calls the three indexes agree**, whatever the clients and the
    filters. -/
theorem indexesAgree_after (ops : List SubOp) : (after {} ops).IndexesAgree := by
  have hinv : ∀ t : SubscriptionTree, t.Sound → t.Trim →
      (t.after ops).Sound ∧ (t.after ops).Trim := by
    induction ops with
    | nil => exact fun t hsound htrim => ⟨hsound, htrim⟩
    | cons op ops ih =>
      exact fun t hsound htrim => ih _ (hsound.onTree op) (kept_trim.onTree htrim op)
  obtain ⟨hsound, htrim⟩ := hinv {} sound_empty trim_empty
  exact indexesAgree_of_trim hsound htrim

end SubscriptionTree

end LumenMQ
