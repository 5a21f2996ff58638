import Mathlib.Order.Preorder.Finite
import LumenMQ.Broker.SubscriptionTrie

set_option autoImplicit false

/-! # The subscription tree refines a map

What the tree is for: a partial map from a client and a filter to a QoS. A tree represents a map
when the trie holds the plain filters under their levels, the groups hold the shared ones, and the
reverse index lists both. -/

namespace LumenMQ

open Option List FinMap Node

variable {f : String} {l : List (String × QoS)}

/-! ## The abstract map -/

/-- There are three QoS levels, so a non-empty set of them has a greatest one. -/
theorem QoS.exists_isGreatest {s : Set QoS} (h : s.Nonempty) : ∃ q, IsGreatest s q := by
  have hfin : (Set.univ : Set QoS).Finite := by
    refine Set.Finite.subset (Set.toFinite {.atMostOnce, .atLeastOnce, .exactlyOnce}) ?_
    intro q _
    cases q <;> simp
  obtain ⟨q, hq⟩ := (hfin.subset (Set.subset_univ s)).exists_maximal h
  refine ⟨q, hq.1, ?_⟩
  intro q' hq'
  rcases le_total q q' with hle | hle
  · exact hq.2 hq' hle
  · exact hle

/-- What a subscription tree stands for: the QoS of a client's filter. -/
abbrev SubMap := String → String → Option QoS

namespace SubMap

def empty : SubMap := fun _ _ => none

/-- Set or clear one pair. -/
def update (M : SubMap) (clientId filter : String) (v : Option QoS) : SubMap :=
  fun c f => if c = clientId ∧ f = filter then v else M c f

/-- Clearing an absent pair changes nothing. -/
theorem update_none_of_none {M : SubMap} {c : String} (h : M c f = none) :
    M.update c f none = M := by
  funext c' f'
  by_cases heq : c' = c ∧ f' = f
  · rw [update, if_pos heq, heq.1, heq.2, h]
  · rw [update, if_neg heq]

/-- Clear every pair of a client. -/
def deleteAll (M : SubMap) (clientId : String) : SubMap :=
  fun c f => if c = clientId then none else M c f

end SubMap

/-! ## A client's filter list -/

/-- A list without repeated filters that holds exactly the pairs of a partial map. -/
def Lists (l : List (String × QoS)) (m : String → Option QoS) : Prop :=
  (l.map Prod.fst).Nodup ∧ ∀ f q, (f, q) ∈ l ↔ m f = some q

theorem upsertFilter_eq_setEntry (f : String) (q : QoS) (l : List (String × QoS)) :
    upsertFilter f q l = setEntry f q l := by
  induction l with
  | nil => rfl
  | cons e rest ih =>
    by_cases h : e.1 = f
    · simp [upsertFilter, setEntry, h]
    · simp [upsertFilter, setEntry, h, ih]

theorem mem_upsertFilter_fst {filter : String} {qos : QoS} :
    f ∈ (upsertFilter filter qos l).map Prod.fst ↔ f = filter ∨ f ∈ l.map Prod.fst := by
  rw [upsertFilter_eq_setEntry]
  exact mem_keys_setEntry

namespace SubscriptionTree

theorem subscriptionsOf_indexFilter (t : SubscriptionTree) (c c' f : String) (q : QoS) :
    (t.indexFilter c f q).subscriptionsOf c' =
      if c' = c then upsertFilter f q (t.subscriptionsOf c) else t.subscriptionsOf c' := by
  simp only [subscriptionsOf, indexFilter, get_insert]
  by_cases h : c' = c <;> simp [h]

theorem subscriptionsOf_unindexFilter (t : SubscriptionTree) (c c' f : String) :
    (t.unindexFilter c f).subscriptionsOf c' =
      if c' = c then (t.subscriptionsOf c).filter (fun e => e.1 ≠ f) else t.subscriptionsOf c' := by
  unfold unindexFilter
  cases hl : t.reverse.get c with
  | none =>
    by_cases h : c' = c
    · simp [subscriptionsOf, h, hl]
    · simp [h]
  | some list =>
    simp only
    by_cases hempty : list.filter (fun e => e.1 ≠ f) = []
    · rw [if_pos hempty]
      simp only [subscriptionsOf, get_erase, hl, getD_some]
      by_cases h : c' = c
      · simpa [h] using hempty.symm
      · simp [h]
    · rw [if_neg hempty]
      simp only [subscriptionsOf, get_insert, hl, getD_some]
      by_cases h : c' = c <;> simp [h]

@[simp] theorem shared_indexFilter (t : SubscriptionTree) (c f : String) (q : QoS) :
    (t.indexFilter c f q).shared = t.shared := rfl

@[simp] theorem root_unindexFilter (t : SubscriptionTree) (c f : String) :
    (t.unindexFilter c f).root = t.root := by
  unfold unindexFilter
  split
  · simp only
    split_ifs <;> rfl
  · rfl

@[simp] theorem shared_unindexFilter (t : SubscriptionTree) (c f : String) :
    (t.unindexFilter c f).shared = t.shared := by
  unfold unindexFilter
  split
  · simp only
    split_ifs <;> rfl
  · rfl

/-! ## The groups -/

section groups

variable {shared : FinMap (String × String) SharedEntry} {key key' : String × String} {c : String}

theorem get_isSome_of_memberQos (h : (memberQos shared key c).isSome = true) :
    (shared.get key).isSome = true := by
  obtain ⟨q, hq⟩ := isSome_iff_exists.1 h
  obtain ⟨entry, hentry, -⟩ := bind_eq_some_iff.1 hq
  rw [hentry]
  rfl

theorem mem_sharedKeysOf {t : SubscriptionTree} :
    key ∈ t.sharedKeysOf c ↔ (memberQos t.shared key c).isSome = true := by
  unfold sharedKeysOf
  rw [mem_filter, FinMap.mem_keys, and_iff_right_iff_imp]
  exact get_isSome_of_memberQos

theorem memberQos_insert (shared : FinMap (String × String) SharedEntry) (key : String × String)
    (c : String) (q : QoS) (c' : String) (key' : String × String) :
    memberQos (shared.insert key { (shared.get key).getD {} with
      members := ((shared.get key).getD {}).members.insert c q }) key' c' =
        if key' = key ∧ c' = c then some q else memberQos shared key' c' := by
  simp only [memberQos, get_insert]
  by_cases hk : key' = key
  · subst hk
    simp only [if_true, true_and, bind_some, get_insert]
    -- a group that is not there yet has no members
    cases hentry : shared.get key' <;> simp
  · simp [hk]

theorem memberQos_removeMember (shared : FinMap (String × String) SharedEntry)
    (key key' : String × String) (c c' : String) :
    memberQos (removeMember shared key c) key' c' =
      if key' = key ∧ c' = c then none else memberQos shared key' c' := by
  unfold removeMember
  cases hl : shared.get key with
  | none =>
    by_cases h : key' = key ∧ c' = c
    · simp [memberQos, h.1, hl]
    · simp [h]
  | some entry =>
    simp only
    by_cases hempty : (entry.members.erase c).entries = []
    · -- the last member: whoever else is looked up was not there
      rw [if_pos hempty]
      simp only [memberQos, get_erase]
      by_cases hk : key' = key
      · have hnone : get (entry.members.erase c) c' = none :=
          get_eq_none_of_entries_nil hempty c'
        rw [get_erase] at hnone
        by_cases hc : c' = c
        · simp [hk, hc]
        · simpa [hk, hc, hl, eq_comm] using hnone
      · simp [hk]
    · rw [if_neg hempty]
      simp only [memberQos, get_insert]
      by_cases hk : key' = key
      · by_cases hc : c' = c <;> simp [hk, hc, hl, get_erase]
      · simp [hk]

theorem memberQos_foldl_removeMember (keys : List (String × String))
    (shared : FinMap (String × String) SharedEntry) (key' : String × String) (c c' : String) :
    memberQos (keys.foldl (fun shared key => removeMember shared key c) shared) key' c' =
      if key' ∈ keys ∧ c' = c then none else memberQos shared key' c' := by
  induction keys generalizing shared with
  | nil => simp
  | cons key keys ih =>
    rw [foldl_cons, ih, memberQos_removeMember]
    by_cases h : key' ∈ keys ∧ c' = c
    · simp [h.1, h.2]
    · by_cases h' : key' = key ∧ c' = c
      · simp [h'.1, h'.2]
      · rw [if_neg h, if_neg h', if_neg]
        rintro ⟨hmem, hc⟩
        rcases mem_cons.1 hmem with rfl | hmem
        · exact h' ⟨rfl, hc⟩
        · exact h ⟨hmem, hc⟩

/-- What is left of a group after a member was removed had its counter before. -/
theorem rrCounter_of_removeMember {entry' : SharedEntry}
    (h : (removeMember shared key' c).get key = some entry') :
    ∃ entry, shared.get key = some entry ∧ entry'.rrCounter = entry.rrCounter := by
  unfold removeMember at h
  split at h
  · next e he =>
    dsimp only at h
    split_ifs at h
    · exact ⟨entry', (get_of_erase h), rfl⟩
    · rcases get_insert_cases h with ⟨hkey, rfl⟩ | ⟨-, h⟩
      · exact ⟨e, by rw [hkey, he], rfl⟩
      · exact ⟨entry', h, rfl⟩
  · exact ⟨entry', h, rfl⟩

theorem rrCounter_of_foldl_removeMember (keys : List (String × String)) {entry' : SharedEntry}
    (h : (keys.foldl (fun shared k => removeMember shared k c) shared).get key = some entry') :
    ∃ entry, shared.get key = some entry ∧ entry'.rrCounter = entry.rrCounter := by
  induction keys generalizing shared with
  | nil => exact ⟨entry', h, rfl⟩
  | cons k keys ih =>
    obtain ⟨entry1, h1, hcounter1⟩ := ih h
    obtain ⟨entry, hentry, hcounter⟩ := rrCounter_of_removeMember h1
    exact ⟨entry, hentry, hcounter1.trans hcounter⟩

end groups

/-! ## The parts of a call -/

/-- Enter a client in the trie, or in the group of a shared filter. -/
def storeFilter (t : SubscriptionTree) (clientId filter : String) (qos : QoS) : SubscriptionTree :=
  match parseSharedFilter filter with
  | some key =>
    let entry := (t.shared.get key).getD {}
    let entry := { entry with members := entry.members.insert clientId qos }
    { t with shared := t.shared.insert key entry }
  | none => { t with root := t.root.insertAt clientId qos (split filter) }

/-- Take a client out of the trie, or out of the group of a shared filter, and tell whether it was
    there. -/
def removeFilter (t : SubscriptionTree) (clientId filter : String) : Bool × SubscriptionTree :=
  match parseSharedFilter filter with
  | some key =>
    if (memberQos t.shared key clientId).isSome then
      (true, { t with shared := removeMember t.shared key clientId })
    else (false, t)
  | none =>
    let (removed, root) := t.root.removeRecursive clientId (split filter)
    (removed, { t with root })

def clearMembers (t : SubscriptionTree) (clientId : String) (keys : List (String × String)) :
    SubscriptionTree :=
  { t with shared := keys.foldl (fun shared key => removeMember shared key clientId) t.shared }

/-- Whether a filter is accepted, which depends on its text only. -/
def acceptsFilter (filter : String) : Bool :=
  match parseSharedFilter filter with
  | some (_, realFilter) => (validateFilter realFilter).isOk
  | none => (validateFilter filter).isOk

theorem subscribe_ok_iff (t : SubscriptionTree) (c filter : String) (qos : QoS) :
    (t.subscribe c filter qos).1 = .ok () ↔ acceptsFilter filter = true := by
  unfold subscribe acceptsFilter
  cases parseSharedFilter filter with
  | some key =>
    cases hv : validateFilter key.2 <;> simp [hv, Except.isOk, Except.toBool]
  | none =>
    cases validateFilter filter <;> simp [Except.isOk, Except.toBool]

theorem subscribe_eq (t : SubscriptionTree) (c f : String) (q : QoS) :
    (t.subscribe c f q).2 =
      if acceptsFilter f then (t.storeFilter c f q).indexFilter c f q else t := by
  unfold subscribe acceptsFilter storeFilter
  cases parseSharedFilter f with
  | some key => cases hv : validateFilter key.2 <;> simp [hv, Except.isOk, Except.toBool]
  | none => cases validateFilter f <;> simp [Except.isOk, Except.toBool]

/-- A subscribe that fails changes nothing. -/
theorem subscribe_error {t : SubscriptionTree} {c f : String} {q : QoS} {e : BrokerError}
    (herror : (t.subscribe c f q).1 = .error e) : (t.subscribe c f q).2 = t := by
  rw [subscribe_eq, if_neg]
  intro haccepts
  rw [← subscribe_ok_iff t c f q, herror] at haccepts
  simp at haccepts

theorem unsubscribe_eq (t : SubscriptionTree) (c f : String) :
    t.unsubscribe c f = (.ok (t.removeFilter c f).1,
      if (t.removeFilter c f).1 then (t.removeFilter c f).2.unindexFilter c f
      else (t.removeFilter c f).2) := by
  unfold unsubscribe removeFilter
  cases parseSharedFilter f with
  | some key => by_cases h : (memberQos t.shared key c).isSome = true <;> simp [h]
  | none => rfl

/-! ## What is stored and what is listed -/

variable {t t' : SubscriptionTree} {M : SubMap}

/-- The QoS that a client is stored with for a filter: in the group of a shared filter, in the trie
    at the node of a plain one. -/
def storedQos (t : SubscriptionTree) (c f : String) : Option QoS :=
  match parseSharedFilter f with
  | some key => memberQos t.shared key c
  | none => t.root.qosAt c (split f)

/-- The QoS that is listed for a filter of a client. -/
def listedQos (t : SubscriptionTree) (c f : String) : Option QoS := (t.subscriptionsOf c).lookup f

section update

variable {c f : String} {v : Option QoS}

/-- One pair changed in the trie. -/
theorem storedQos_of_root (hf : parseSharedFilter f = none)
    (hroot : ∀ c' p, t'.root.qosAt c' p = if p = split f ∧ c' = c then v else t.root.qosAt c' p)
    (hshared : t'.shared = t.shared) (c' f' : String) :
    t'.storedQos c' f' = if c' = c ∧ f' = f then v else t.storedQos c' f' := by
  have hsplit : split f' = split f ↔ f' = f := ⟨split_injective, congrArg split⟩
  unfold storedQos
  cases hf' : parseSharedFilter f' with
  | some key =>
    have hne : f' ≠ f := fun heq => by simp [heq, hf] at hf'
    simp [hshared, hne]
  | none => simp only [hroot, hsplit, and_comm]

/-- One pair changed in the groups. -/
theorem storedQos_of_shared {key : String × String} (hf : parseSharedFilter f = some key)
    (hroot : t'.root = t.root)
    (hshared : ∀ c' key', memberQos t'.shared key' c' =
      if key' = key ∧ c' = c then v else memberQos t.shared key' c') (c' f' : String) :
    t'.storedQos c' f' = if c' = c ∧ f' = f then v else t.storedQos c' f' := by
  unfold storedQos
  cases hf' : parseSharedFilter f' with
  | some key' =>
    have hkey : key' = key ↔ f' = f := by
      constructor
      · rintro rfl
        exact parseSharedFilter_injective hf' hf
      · rintro rfl
        exact some.inj (hf'.symm.trans hf)
    simp only [hshared, hkey, and_comm]
  | none =>
    have hne : f' ≠ f := fun heq => by simp [heq, hf] at hf'
    simp [hroot, hne]

end update

theorem reverse_storeFilter (t : SubscriptionTree) (c f : String) (q : QoS) :
    (t.storeFilter c f q).reverse = t.reverse := by
  unfold storeFilter
  cases parseSharedFilter f <;> rfl

theorem reverse_removeFilter (t : SubscriptionTree) (c f : String) :
    (t.removeFilter c f).2.reverse = t.reverse := by
  unfold removeFilter
  cases parseSharedFilter f with
  | some key =>
    dsimp only
    split_ifs <;> rfl
  | none => rfl

theorem subscriptionsOf_of_reverse (h : t'.reverse = t.reverse) :
    t'.subscriptionsOf = t.subscriptionsOf := by
  funext c
  rw [subscriptionsOf, h, subscriptionsOf]

theorem listedQos_of_reverse (h : t'.reverse = t.reverse) : t'.listedQos = t.listedQos := by
  funext c f
  rw [listedQos, subscriptionsOf_of_reverse h, listedQos]

theorem storedQos_storeFilter (t : SubscriptionTree) (c f : String) (q : QoS) (c' f' : String) :
    (t.storeFilter c f q).storedQos c' f' =
      if c' = c ∧ f' = f then some q else t.storedQos c' f' := by
  unfold storeFilter
  cases hf : parseSharedFilter f with
  | some key =>
    refine storedQos_of_shared hf ?_ ?_ c' f'
    · rfl
    · exact memberQos_insert t.shared key c q
  | none =>
    refine storedQos_of_root hf ?_ ?_ c' f'
    · exact fun c' p => qosAt_insertAt c c' q (split f) p t.root
    · rfl

theorem removeFilter_fst (t : SubscriptionTree) (c f : String) :
    (t.removeFilter c f).1 = (t.storedQos c f).isSome := by
  unfold removeFilter storedQos
  cases parseSharedFilter f with
  | some key =>
    dsimp only
    split_ifs with h
    · exact h.symm
    · exact (Bool.eq_false_iff.2 h).symm
  | none => exact removeRecursive_fst c (split f) t.root

theorem storedQos_removeFilter (t : SubscriptionTree) (c f c' f' : String) :
    (t.removeFilter c f).2.storedQos c' f' =
      if c' = c ∧ f' = f then none else t.storedQos c' f' := by
  unfold removeFilter
  cases hf : parseSharedFilter f with
  | some key =>
    dsimp only
    by_cases hmem : (memberQos t.shared key c).isSome = true
    · rw [if_pos hmem]
      refine storedQos_of_shared hf ?_ ?_ c' f'
      · rfl
      · exact fun c' key' => memberQos_removeMember t.shared key key' c c'
    · rw [if_neg hmem]
      refine storedQos_of_shared hf rfl ?_ c' f'
      intro c' key'
      by_cases h : key' = key ∧ c' = c
      · rw [if_pos h, h.1, h.2]
        simpa using hmem
      · rw [if_neg h]
  | none =>
    refine storedQos_of_root hf ?_ ?_ c' f'
    · exact fun c' p => qosAt_removeRecursive c c' (split f) p t.root
    · rfl

theorem storedQos_removeAll (t : SubscriptionTree) (c c' f' : String) :
    ({ t with root := t.root.removeAll c } : SubscriptionTree).storedQos c' f' =
      if c' = c ∧ parseSharedFilter f' = none then none else t.storedQos c' f' := by
  unfold storedQos
  cases parseSharedFilter f' with
  | some key => simp
  | none => simp [qosAt_removeAll]

theorem storedQos_clearMembers (t : SubscriptionTree) (c : String) (keys : List (String × String))
    (c' f' : String) :
    (t.clearMembers c keys).storedQos c' f' =
      if c' = c ∧ ∃ key ∈ keys, parseSharedFilter f' = some key then none
      else t.storedQos c' f' := by
  unfold storedQos clearMembers
  cases parseSharedFilter f' with
  | some key =>
    dsimp only
    rw [memberQos_foldl_removeMember]
    simp [and_comm]
  | none => simp

theorem storedQos_empty : ({} : SubscriptionTree).storedQos = SubMap.empty := by
  funext c f
  unfold storedQos
  cases parseSharedFilter f with
  | some key => simp [memberQos, SubMap.empty]
  | none => exact qosAt_empty c (split f)

theorem listedQos_empty : ({} : SubscriptionTree).listedQos = SubMap.empty := by
  funext c f
  simp [listedQos, subscriptionsOf, SubMap.empty]

theorem listedQos_indexFilter (t : SubscriptionTree) (c f : String) (q : QoS) (c' f' : String) :
    (t.indexFilter c f q).listedQos c' f' =
      if c' = c ∧ f' = f then some q else t.listedQos c' f' := by
  unfold listedQos
  rw [subscriptionsOf_indexFilter, upsertFilter_eq_setEntry]
  by_cases hc : c' = c
  · simp [hc, lookup_setEntry]
  · simp [hc]

theorem listedQos_unindexFilter (t : SubscriptionTree) (c f c' f' : String) :
    (t.unindexFilter c f).listedQos c' f' =
      if c' = c ∧ f' = f then none else t.listedQos c' f' := by
  unfold listedQos
  rw [subscriptionsOf_unindexFilter]
  by_cases hc : c' = c
  · rw [if_pos hc]
    have hlook := lookup_removeEntry f f' (t.subscriptionsOf c)
    simpa [hc, removeEntry] using hlook
  · simp [hc]

theorem storedQos_unindexFilter (t : SubscriptionTree) (c f : String) :
    (t.unindexFilter c f).storedQos = t.storedQos := by
  funext c' f'
  simp only [storedQos, root_unindexFilter, shared_unindexFilter]

theorem listedQos_erase (t : SubscriptionTree) (c c' f' : String) :
    ({ t with reverse := t.reverse.erase c } : SubscriptionTree).listedQos c' f' =
      if c' = c then none else t.listedQos c' f' := by
  unfold listedQos subscriptionsOf
  dsimp only
  rw [get_erase]
  by_cases hc : c' = c <;> simp [hc]

end SubscriptionTree

/-! ## Calls -/

/-- The calls that change a subscription tree. -/
inductive SubOp where
  | subscribe (clientId filter : String) (qos : QoS)
  | unsubscribe (clientId filter : String)
  | unsubscribeAll (clientId : String)

namespace SubOp

/-- The tree after a call. -/
def onTree (t : SubscriptionTree) : SubOp → SubscriptionTree
  | .subscribe c f q => (t.subscribe c f q).2
  | .unsubscribe c f => (t.unsubscribe c f).2
  | .unsubscribeAll c => t.unsubscribeAll c

/-- The map after a call on the tree `t`: a subscribe counts when it returned `Ok`. -/
def onMap (t : SubscriptionTree) (M : SubMap) : SubOp → SubMap
  | .subscribe c f q =>
    match (t.subscribe c f q).1 with
    | .ok () => M.update c f (some q)
    | .error _ => M
  | .unsubscribe c f => M.update c f none
  | .unsubscribeAll c => M.deleteAll c

/-- The tree and the map after a sequence of calls, from the empty tree and the empty map. -/
def run (ops : List SubOp) : SubscriptionTree × SubMap :=
  ops.foldl (fun s op => (op.onTree s.1, op.onMap s.1 s.2)) ({}, SubMap.empty)

theorem onMap_subscribe (t : SubscriptionTree) (M : SubMap) (c f : String) (q : QoS) :
    onMap t M (.subscribe c f q) =
      if SubscriptionTree.acceptsFilter f then M.update c f (some q) else M := by
  have hok := t.subscribe_ok_iff c f q
  cases hsub : (t.subscribe c f q).1 with
  | ok u => simp only [onMap, hsub, if_pos (hok.1 hsub)]
  | error e =>
    have hrefused : ¬ SubscriptionTree.acceptsFilter f = true := fun h => by simp [hok.2 h] at hsub
    simp only [onMap, hsub, if_neg hrefused]

end SubOp

namespace SubscriptionTree

variable {t t' : SubscriptionTree} {M : SubMap}

/-- What is stored after a call is what the map holds after it. -/
theorem storedQos_onTree (t : SubscriptionTree) (op : SubOp) :
    (op.onTree t).storedQos = op.onMap t t.storedQos := by
  funext c' f'
  cases op with
  | subscribe c f q =>
    rw [SubOp.onTree, subscribe_eq, SubOp.onMap_subscribe]
    split_ifs
    · exact storedQos_storeFilter t c f q c' f'
    · rfl
  | unsubscribe c f =>
    rw [SubOp.onTree, unsubscribe_eq]
    dsimp only
    split_ifs
    · rw [storedQos_unindexFilter]
      exact storedQos_removeFilter t c f c' f'
    · exact storedQos_removeFilter t c f c' f'
  | unsubscribeAll c =>
    show (clearMembers { t with root := t.root.removeAll c } c (t.sharedKeysOf c)).storedQos c' f' =
      SubMap.deleteAll _ c c' f'
    rw [storedQos_clearMembers, storedQos_removeAll, SubMap.deleteAll]
    by_cases hc : c' = c
    · subst hc
      -- the client is in none of the groups that were not visited
      cases hf : parseSharedFilter f' with
      | none => simp
      | some key => simp [storedQos, hf, mem_sharedKeysOf, Option.isSome_iff_ne_none]
    · simp [hc]

/-- What is listed after a call is what the map holds after it. -/
theorem listedQos_onTree (h : t.storedQos = t.listedQos) (op : SubOp) :
    (op.onTree t).listedQos = op.onMap t t.listedQos := by
  funext c' f'
  cases op with
  | subscribe c f q =>
    rw [SubOp.onTree, subscribe_eq, SubOp.onMap_subscribe]
    split_ifs
    · rw [listedQos_indexFilter, listedQos_of_reverse (reverse_storeFilter t c f q)]
      rfl
    · rfl
  | unsubscribe c f =>
    have hlisted := listedQos_of_reverse (reverse_removeFilter t c f)
    rw [SubOp.onTree, unsubscribe_eq, SubOp.onMap]
    dsimp only
    split_ifs with hremoved
    · rw [listedQos_unindexFilter, hlisted]
      rfl
    · -- the client was not there, so it is not listed either
      rw [removeFilter_fst, h, Bool.not_eq_true, isSome_eq_false_iff, isNone_iff_eq_none]
        at hremoved
      rw [hlisted, SubMap.update_none_of_none hremoved]
  | unsubscribeAll c => exact listedQos_erase t c c' f'

/-! ## Trees that calls build -/

/-- What every part of a call keeps by itself, whatever the other indexes hold. -/
structure Formed (t : SubscriptionTree) : Prop where
  plain : t.root.Plain
  /-- In the trie are plain filters that were accepted. -/
  paths : ∀ c p q, t.root.qosAt c p = some q →
    ∃ f, parseSharedFilter f = none ∧ split f = p ∧ validateFilter f = .ok ()
  /-- Every group was entered under the filter of a subscription. -/
  keyed : ∀ key, (t.shared.get key).isSome = true → ∃ f, parseSharedFilter f = some key
  once : ∀ c, ((t.subscriptionsOf c).map Prod.fst).Nodup

/-- A property that every part of a call keeps. -/
structure Kept (P : SubscriptionTree → Prop) : Prop where
  storeFilter : ∀ {t} c {f} q, acceptsFilter f = true → P t → P (t.storeFilter c f q)
  indexFilter : ∀ {t} c f q, P t → P (t.indexFilter c f q)
  removeFilter : ∀ {t} c f, P t → P (t.removeFilter c f).2
  unindexFilter : ∀ {t} c f, P t → P (t.unindexFilter c f)
  removeAll : ∀ {t} c, P t → P { t with root := t.root.removeAll c }
  clearMembers : ∀ {t} c keys, P t → P (t.clearMembers c keys)
  erase : ∀ {t} c, P t → P { t with reverse := t.reverse.erase c }

theorem Kept.onTree {P : SubscriptionTree → Prop} (hP : Kept P) (h : P t) (op : SubOp) :
    P (op.onTree t) := by
  cases op with
  | subscribe c f q =>
    rw [SubOp.onTree, subscribe_eq]
    split_ifs with haccepts
    · exact hP.indexFilter c f q (hP.storeFilter c q haccepts h)
    · exact h
  | unsubscribe c f =>
    rw [SubOp.onTree, unsubscribe_eq]
    dsimp only
    split_ifs
    · exact hP.unindexFilter c f (hP.removeFilter c f h)
    · exact hP.removeFilter c f h
  | unsubscribeAll c => exact hP.erase c (hP.clearMembers c (t.sharedKeysOf c) (hP.removeAll c h))

namespace Formed

/-- Only the trie changes, and no path is new unless it is that of a filter. -/
theorem withRoot (h : t.Formed) {root : Node} (hplain : root.Plain)
    (hpaths : ∀ c p q, root.qosAt c p = some q → (∃ q', t.root.qosAt c p = some q') ∨
      ∃ f, parseSharedFilter f = none ∧ split f = p ∧ validateFilter f = .ok ()) :
    ({ t with root } : SubscriptionTree).Formed where
  plain := hplain
  paths := by
    intro c p q hq
    rcases hpaths c p q hq with ⟨q', hq'⟩ | hf
    · exact h.paths c p q' hq'
    · exact hf
  keyed := h.keyed
  once := h.once

theorem storeFilter (h : t.Formed) (c : String) {f : String} (q : QoS)
    (haccepts : acceptsFilter f = true) : (t.storeFilter c f q).Formed := by
  unfold SubscriptionTree.storeFilter
  cases hf : parseSharedFilter f with
  | some key =>
    refine ⟨h.plain, h.paths, fun key' hkey' => ?_, h.once⟩
    rw [get_insert] at hkey'
    split_ifs at hkey' with hk
    · exact ⟨f, hk ▸ hf⟩
    · exact h.keyed key' hkey'
  | none =>
    refine h.withRoot (hereditary_plain.insertAt h.plain c q (split f)) ?_
    intro c' p q' hq'
    rw [qosAt_insertAt] at hq'
    split_ifs at hq' with hp
    · refine .inr ⟨f, hf, hp.1.symm, ?_⟩
      cases hvalid : validateFilter f with
      | ok => rfl
      | error e => simp [acceptsFilter, hf, hvalid, Except.isOk, Except.toBool] at haccepts
    · exact .inl ⟨q', hq'⟩

theorem clearMembers (h : t.Formed) (c : String) (keys : List (String × String)) :
    (t.clearMembers c keys).Formed := by
  refine ⟨h.plain, h.paths, fun key hkey => ?_, h.once⟩
  obtain ⟨entry', hentry'⟩ := isSome_iff_exists.1 hkey
  obtain ⟨entry, hentry, -⟩ := rrCounter_of_foldl_removeMember keys hentry'
  exact h.keyed key (isSome_iff_exists.2 ⟨entry, hentry⟩)

theorem removeFilter (h : t.Formed) (c f : String) : (t.removeFilter c f).2.Formed := by
  unfold SubscriptionTree.removeFilter
  cases hf : parseSharedFilter f with
  | some key =>
    dsimp only
    split_ifs
    · exact h.clearMembers c [key]
    · exact h
  | none =>
    refine h.withRoot (hereditary_plain.removeRecursive h.plain c (split f)) ?_
    intro c' p q' hq'
    rw [qosAt_removeRecursive] at hq'
    split_ifs at hq'
    exact .inl ⟨q', hq'⟩

theorem removeAll (h : t.Formed) (c : String) :
    ({ t with root := t.root.removeAll c } : SubscriptionTree).Formed := by
  refine h.withRoot (h.plain.removeAll c) ?_
  intro c' p q' hq'
  rw [qosAt_removeAll] at hq'
  split_ifs at hq'
  exact .inl ⟨q', hq'⟩

/-- Only the lists change. -/
theorem withReverse (h : t.Formed) (hroot : t'.root = t.root) (hshared : t'.shared = t.shared)
    (honce : ∀ c, ((t'.subscriptionsOf c).map Prod.fst).Nodup) : t'.Formed where
  plain := hroot ▸ h.plain
  paths := hroot ▸ h.paths
  keyed := hshared ▸ h.keyed
  once := honce

theorem indexFilter (h : t.Formed) (c f : String) (q : QoS) : (t.indexFilter c f q).Formed := by
  refine h.withReverse rfl rfl (fun c' => ?_)
  rw [subscriptionsOf_indexFilter, upsertFilter_eq_setEntry]
  split_ifs
  · exact nodup_keys_setEntry (h.once c) f q
  · exact h.once c'

theorem unindexFilter (h : t.Formed) (c f : String) : (t.unindexFilter c f).Formed := by
  refine h.withReverse (root_unindexFilter t c f) (shared_unindexFilter t c f) (fun c' => ?_)
  rw [subscriptionsOf_unindexFilter]
  split_ifs
  · exact nodup_keys_removeEntry (h.once c) f
  · exact h.once c'

theorem erase (h : t.Formed) (c : String) :
    ({ t with reverse := t.reverse.erase c } : SubscriptionTree).Formed := by
  refine h.withReverse rfl rfl (fun c' => ?_)
  unfold subscriptionsOf
  rw [get_erase]
  split_ifs
  · exact nodup_nil
  · exact h.once c'

end Formed

theorem kept_formed : Kept Formed where
  storeFilter c _ q haccepts h := h.storeFilter c q haccepts
  indexFilter c f q h := h.indexFilter c f q
  removeFilter c f h := h.removeFilter c f
  unindexFilter c f h := h.unindexFilter c f
  removeAll c h := h.removeAll c
  clearMembers c keys h := h.clearMembers c keys
  erase c h := h.erase c

/-- The tree is formed, and the map is what it stores and what it lists. -/
structure Reads (t : SubscriptionTree) (M : SubMap) : Prop extends Formed t where
  stored : t.storedQos = M
  listed : t.listedQos = M

theorem reads_empty : Reads {} SubMap.empty where
  plain := plain_empty
  paths := by
    intro c p q h
    rw [qosAt_empty] at h
    simp at h
  keyed := by simp
  once := by simp [subscriptionsOf]
  stored := storedQos_empty
  listed := listedQos_empty

/-- One call does to the tree what it does to the map. -/
theorem Reads.onTree (h : t.Reads M) (op : SubOp) : (op.onTree t).Reads (op.onMap t M) where
  toFormed := kept_formed.onTree h.toFormed op
  stored := by rw [storedQos_onTree, h.stored]
  listed := by rw [listedQos_onTree (h.stored.trans h.listed.symm), h.listed]

/-! ## The refinement -/

/-- The tree `t` represents the map `M`. -/
structure Represents (t : SubscriptionTree) (M : SubMap) : Prop where
  plain : t.root.Plain
  /-- Plain filters passed the check. -/
  valid : ∀ c f q, M c f = some q → parseSharedFilter f = none → validateFilter f = .ok ()
  /-- The trie holds the plain filters under their levels, and nothing else. -/
  stored : ∀ c p q, t.root.qosAt c p = some q ↔
    ∃ f, parseSharedFilter f = none ∧ split f = p ∧ M c f = some q
  /-- The groups hold the shared filters. -/
  member : ∀ c f key, parseSharedFilter f = some key → memberQos t.shared key c = M c f
  /-- The reverse index lists the filters of a client, each once. -/
  indexed : ∀ c, Lists (t.subscriptionsOf c) (M c)

theorem Reads.represents (h : t.Reads M) : t.Represents M where
  plain := h.plain
  valid := by
    intro c f q hq hf
    simp only [← h.stored, storedQos, hf] at hq
    obtain ⟨f', -, hsplit, hvalid⟩ := h.paths c (split f) q hq
    rwa [split_injective hsplit] at hvalid
  stored := by
    intro c p q
    constructor
    · intro hq
      obtain ⟨f, hf, rfl, -⟩ := h.paths c p q hq
      exact ⟨f, hf, rfl, by simpa [← h.stored, storedQos, hf] using hq⟩
    · rintro ⟨f, hf, rfl, hq⟩
      simpa [← h.stored, storedQos, hf] using hq
  member := by
    intro c f key hf
    simp [← h.stored, storedQos, hf]
  indexed := by
    intro c
    refine ⟨h.once c, fun f q => ?_⟩
    rw [← h.listed]
    exact (lookup_eq_some_iff_mem (h.once c)).symm

namespace Represents

/-- For a plain filter the trie holds exactly what the map holds. -/
theorem qosAt_split (h : t.Represents M) (c : String) (hf : parseSharedFilter f = none) :
    t.root.qosAt c (split f) = M c f := by
  ext q
  rw [h.stored]
  constructor
  · rintro ⟨f', -, hsplit, hq⟩
    rwa [← split_injective hsplit]
  · intro hq
    exact ⟨f, hf, rfl, hq⟩

theorem storedQos_eq (h : t.Represents M) : t.storedQos = M := by
  funext c f
  unfold storedQos
  cases hf : parseSharedFilter f with
  | some key => exact h.member c f key hf
  | none => exact h.qosAt_split c hf

theorem reads (h : t.Represents M)
    (hkeyed : ∀ key, (t.shared.get key).isSome = true → ∃ f, parseSharedFilter f = some key) :
    t.Reads M where
  plain := h.plain
  paths := by
    intro c p q hq
    obtain ⟨f, hf, hsplit, hM⟩ := (h.stored c p q).1 hq
    exact ⟨f, hf, hsplit, h.valid c f q hM hf⟩
  keyed := hkeyed
  once c := (h.indexed c).1
  stored := h.storedQos_eq
  listed := by
    funext c f
    ext q
    exact (lookup_eq_some_iff_mem (h.indexed c).1).trans ((h.indexed c).2 f q)

end Represents

end SubscriptionTree

/-! ## Whole histories -/

namespace SubOp

theorem reads_foldl (ops : List SubOp) (s : SubscriptionTree × SubMap) (h : s.1.Reads s.2) :
    let s' := ops.foldl (fun s op => (op.onTree s.1, op.onMap s.1 s.2)) s
    s'.1.Reads s'.2 := by
  induction ops generalizing s with
  | nil => exact h
  | cons op ops ih => exact ih _ (h.onTree op)

/-- After any history the tree reads as the map. -/
theorem reads_run (ops : List SubOp) : (run ops).1.Reads (run ops).2 :=
  reads_foldl ops _ SubscriptionTree.reads_empty

end SubOp

namespace SubscriptionTree

/-- The pairs `matchesPlain` returns, in terms of the map. -/
theorem Represents.mem_matchesPlain {t : SubscriptionTree} {M : SubMap} (h : t.Represents M)
    {topic : String} (htop : topic ≠ "") (c : String) (q : QoS) :
    (c, q) ∈ t.matchesPlain topic ↔
      IsGreatest {q | ∃ f, parseSharedFilter f = none ∧ M c f = some q ∧
        topicMatchesFilter topic f = true} q := by
  have hlast : ∀ c p q, t.root.qosAt c p = some q → HashLast p := by
    intro c p q hq
    obtain ⟨f, hf, rfl, hM⟩ := (h.stored c p q).1 hq
    exact hashLast_of_validateFilter (h.valid c f q hM hf)
  have hcollect : ∀ q, (c, q) ∈ t.root.collectMatches (split topic) ↔
      ∃ f, parseSharedFilter f = none ∧ M c f = some q ∧ topicMatchesFilter topic f = true := by
    intro q
    rw [mem_collectMatches h.plain (split topic) hlast]
    constructor
    · rintro ⟨p, hp, hq⟩
      obtain ⟨f, hf, rfl, hM⟩ := (h.stored c p q).1 hq
      -- an accepted filter is not empty, so the flat matcher compares the levels
      have hne : f ≠ "" := by
        rintro rfl
        have := h.valid c "" q hM hf
        simp [validateFilter] at this
      exact ⟨f, hf, hM, by simpa [topicMatchesFilter, htop, hne] using hp⟩
    · rintro ⟨f, hf, hM, hmatch⟩
      refine ⟨split f, ?_, (h.stored c (split f) q).2 ⟨f, hf, rfl, hM⟩⟩
      rw [topicMatchesFilter] at hmatch
      split_ifs at hmatch
      exact hmatch
  rw [matchesPlain, if_neg htop, mem_toPairs, foldMax_isGreatest]
  simp only [hcollect]

/-- **The subscription tree refines the map.** After any sequence of calls, an unsubscribe reports
    exactly whether its pair is in the map; and for every topic, a client is listed at most once,
    is listed exactly when one of its plain filters matches, and with the greatest QoS of those. -/
theorem run_refines (ops : List SubOp) :
    (∀ c f, ((SubOp.run ops).1.unsubscribe c f).1 = .ok ((SubOp.run ops).2 c f).isSome) ∧
    ∀ topic, topic ≠ "" →
      (((SubOp.run ops).1.matchesPlain topic).map Prod.fst).Nodup ∧
      ∀ c, (c ∈ ((SubOp.run ops).1.matchesPlain topic).map Prod.fst ↔
          ∃ f q, parseSharedFilter f = none ∧ (SubOp.run ops).2 c f = some q ∧
            topicMatchesFilter topic f = true) ∧
        ∀ q, (c, q) ∈ (SubOp.run ops).1.matchesPlain topic →
          IsGreatest {q | ∃ f, parseSharedFilter f = none ∧ (SubOp.run ops).2 c f = some q ∧
            topicMatchesFilter topic f = true} q := by
  have hreads := SubOp.reads_run ops
  have h := hreads.represents
  refine ⟨?_, ?_⟩
  · intro c f
    rw [unsubscribe_eq, removeFilter_fst, hreads.stored]
  · intro topic htopic
    refine ⟨?_, ?_⟩
    · rw [matchesPlain, if_neg htopic]
      exact toPairs_nodup _
    · intro c
      refine ⟨?_, ?_⟩
      · rw [List.mem_map]
        constructor
        · rintro ⟨⟨c', q⟩, hmem, rfl⟩
          obtain ⟨⟨f, hf, hM, hmatch⟩, -⟩ := (h.mem_matchesPlain htopic c' q).1 hmem
          exact ⟨f, q, hf, hM, hmatch⟩
        · rintro ⟨f, q, hf, hM, hmatch⟩
          -- a non-empty set of QoS levels has a greatest one
          obtain ⟨g, hg⟩ := QoS.exists_isGreatest (s := {q | ∃ f, parseSharedFilter f = none ∧
            (SubOp.run ops).2 c f = some q ∧ topicMatchesFilter topic f = true})
            ⟨q, f, hf, hM, hmatch⟩
          exact ⟨(c, g), (h.mem_matchesPlain htopic c g).2 hg, rfl⟩
      · intro q hmem
        exact (h.mem_matchesPlain htopic c q).1 hmem

end SubscriptionTree

end LumenMQ
