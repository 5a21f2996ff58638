import Mathlib.Logic.Relation
import LumenMQ.Lib.Runs
import LumenMQ.Broker.SubscriptionIndexes

set_option autoImplicit false

/-! # Dead branches of the trie

An unsubscribe takes out every node that it leaves empty. `unsubscribe_all` goes through the whole
trie and takes the client out of every node, but leaves the nodes. A branch that only this client
was in is dead from then on. -/

namespace LumenMQ

open Option List Node

open Relation (ReflTransGen TransGen)

namespace Node

variable {n m : Node}

/-! ## Branches -/

/-- The children of a node, by the three ways to them. -/
inductive Below (n : Node) : Node → Prop
  | literal (seg : String) {m : Node} (h : n.children.lookup seg = some m) : Below n m
  | plus {m : Node} (h : n.plusChild = some m) : Below n m
  | hash {m : Node} (h : n.hashChild = some m) : Below n m

/-- Somebody is subscribed at the node or further down. -/
def Alive (n : Node) : Prop := ∃ m, ReflTransGen Below n m ∧ m.subscribers.entries ≠ []

/-- Every node under this one has a subscriber at or under it. -/
def NoDeadBranches (n : Node) : Prop := ∀ m, TransGen Below n m → m.Alive

/-- Something is stored under some path. -/
def Stored (n : Node) : Prop := ∃ c p, (n.qosAt c p).isSome = true

/-- Something is stored under every child, and likewise further down. -/
inductive Pruned : Node → Prop
  | intro {n : Node} (stored : ∀ seg m, n.childForSegment seg = some m → m.Stored)
      (child : ∀ seg m, n.childForSegment seg = some m → Pruned m) : Pruned n

theorem below_iff (hplain : n.Plain) : n.Below m ↔ ∃ seg, n.childForSegment seg = some m := by
  constructor
  · rintro (⟨seg, h⟩ | h | h)
    · exact ⟨seg, (hplain.childForSegment_of_lookup h).2.2⟩
    · exact ⟨"+", h⟩
    · exact ⟨"#", h⟩
  · rintro ⟨seg, h⟩
    unfold childForSegment at h
    split_ifs at h
    · exact .plus h
    · exact .hash h
    · exact .literal seg h

theorem stored_of_child {seg : String} (hm : n.childForSegment seg = some m) (h : m.Stored) :
    n.Stored := by
  obtain ⟨c, p, hp⟩ := h
  refine ⟨c, seg :: p, ?_⟩
  rw [qosAt, hm]
  exact hp

theorem stored_of_subscribers (h : n.subscribers.entries ≠ []) : n.Stored := by
  obtain ⟨e, he⟩ := exists_mem_of_ne_nil _ h
  refine ⟨e.1, [], ?_⟩
  show (n.subscribers.get e.1).isSome = true
  rw [← FinMap.mem_keys]
  exact mem_map_of_mem he

theorem alive_iff (hplain : n.Plain) : n.Alive ↔ n.Stored := by
  constructor
  · rintro ⟨m, hreach, hsub⟩
    induction hreach using ReflTransGen.head_induction_on with
    | refl => exact stored_of_subscribers hsub
    | head hbelow _ ih =>
      obtain ⟨seg, hm⟩ := (below_iff hplain).1 hbelow
      exact stored_of_child hm (ih (hplain.child hm))
  · rintro ⟨c, p, hp⟩
    induction p generalizing n with
    | nil =>
      refine ⟨n, .refl, fun hnil => ?_⟩
      change (n.subscribers.get c).isSome = true at hp
      rw [FinMap.get_eq_none_of_entries_nil hnil] at hp
      exact absurd hp (by simp)
    | cons seg p ih =>
      obtain ⟨q, hq⟩ := isSome_iff_exists.1 hp
      obtain ⟨m, hm, hq⟩ := bind_eq_some_iff.1 hq
      obtain ⟨m', hreach, hsub⟩ := ih (hplain.child hm) (by rw [hq]; rfl)
      exact ⟨m', .head ((below_iff hplain).2 ⟨seg, hm⟩) hreach, hsub⟩

/-- Branches by way of the three kinds of children, and by way of the levels of a filter. -/
theorem noDeadBranches_iff (hplain : n.Plain) : n.NoDeadBranches ↔ n.Pruned := by
  constructor
  · intro h
    induction hplain with
    | @intro n hplus hhash hch ih =>
      have hbelow : ∀ {seg m}, n.childForSegment seg = some m → n.Below m :=
        fun hm => (below_iff (.intro hplus hhash hch)).2 ⟨_, hm⟩
      refine .intro (fun seg m hm => ?_) (fun seg m hm => ?_)
      · exact (alive_iff (hch seg m hm)).1 (h m (.single (hbelow hm)))
      · exact ih seg m hm (fun m' hm' => h m' (.head (hbelow hm) hm'))
  · intro h m hm
    induction hm using TransGen.head_induction_on with
    | single hbelow =>
      obtain ⟨seg, hm⟩ := (below_iff hplain).1 hbelow
      obtain ⟨hstores, -⟩ := h
      exact (alive_iff (hplain.child hm)).2 (hstores seg m hm)
    | head hbelow _ ih =>
      obtain ⟨seg, hm⟩ := (below_iff hplain).1 hbelow
      obtain ⟨-, hch⟩ := h
      exact ih (hplain.child hm) (hch seg _ hm)

/-! ## What the calls do -/

theorem pruned_empty : empty.Pruned := by
  refine .intro ?_ ?_ <;>
  · intro seg m h
    rw [childForSegment_empty] at h
    simp at h

theorem Pruned.setSubscribers (h : n.Pruned) (subs : FinMap String QoS) :
    (n.setSubscribers subs).Pruned := by
  obtain ⟨hstored, hch⟩ := h
  exact .intro hstored hch

theorem Pruned.setChild (h : n.Pruned) (seg : String) (child : Option Node)
    (hc : ∀ m, child = some m → m.Stored ∧ m.Pruned) : (n.setChild seg child).Pruned := by
  obtain ⟨hstored, hch⟩ := h
  refine .intro (fun s m hm => ?_) (fun s m hm => ?_)
  · rw [childForSegment_setChild] at hm
    split_ifs at hm
    · exact (hc m hm).1
    · exact hstored s m hm
  · rw [childForSegment_setChild] at hm
    split_ifs at hm
    · exact (hc m hm).2
    · exact hch s m hm

theorem Pruned.child {seg : String} (h : n.Pruned) (hm : n.childForSegment seg = some m) :
    m.Stored ∧ m.Pruned := by
  obtain ⟨hstored, hch⟩ := h
  exact ⟨hstored seg m hm, hch seg m hm⟩

/-- The nodes that are created have the new subscriber under them. -/
theorem Pruned.insertAt (h : n.Pruned) (c : String) (q : QoS) (segs : List String) :
    (n.insertAt c q segs).Pruned := by
  induction segs generalizing n with
  | nil => exact h.setSubscribers _
  | cons seg segs ih =>
    refine h.setChild seg _ ?_
    intro m hm
    rw [← some.inj hm]
    refine ⟨⟨c, segs, ?_⟩, ?_⟩
    · rw [qosAt_insertAt, if_pos ⟨rfl, rfl⟩]
      rfl
    · cases hs : n.childForSegment seg with
      | none => exact ih pruned_empty
      | some child => exact ih (h.child hs).2

theorem stored_of_not_isEmpty (hplain : n.Plain) (h : n.Pruned) (hne : n.isEmpty = false) :
    n.Stored := by
  by_cases hsub : n.subscribers.entries = []
  · -- some child is there, and something is stored under it
    have hbelow : ∃ m, n.Below m := by
      by_contra hnone
      have hplus : n.plusChild = none :=
        eq_none_iff_forall_ne_some.2 (fun m hm => hnone ⟨m, .plus hm⟩)
      have hhash : n.hashChild = none :=
        eq_none_iff_forall_ne_some.2 (fun m hm => hnone ⟨m, .hash hm⟩)
      have hchildren : n.children = [] := by
        cases hc : n.children with
        | nil => rfl
        | cons e rest =>
          refine absurd ⟨e.2, .literal e.1 ?_⟩ hnone
          rw [hc, lookup_cons_eq_if, if_pos rfl]
      simp [isEmpty, hsub, hplus, hhash, hchildren] at hne
    obtain ⟨m, hbelow⟩ := hbelow
    obtain ⟨seg, hm⟩ := (below_iff hplain).1 hbelow
    exact stored_of_child hm (h.child hm).1
  · exact stored_of_subscribers hsub

theorem eq_empty_of_pruned (hplain : n.Plain) (hprune : n.Pruned) (hnone : ¬ n.Stored) :
    n = empty := by
  have hempty : n.isEmpty = true := by
    by_contra hne
    exact hnone (stored_of_not_isEmpty hplain hprune (by simpa using hne))
  obtain ⟨children, plusChild, hashChild, subs⟩ := n
  simp only [isEmpty, subscribers, Node.children, Node.plusChild, Node.hashChild,
    Bool.and_eq_true, List.isEmpty_iff, Option.isNone_iff_eq_none] at hempty
  obtain ⟨⟨⟨hsub, rfl⟩, rfl⟩, rfl⟩ := hempty
  rw [empty, show subs = ∅ from AList.ext hsub]

/-- What an unsubscribe leaves on its way still has something under it. -/
theorem Pruned.removeRecursive (hplain : n.Plain) (h : n.Pruned) (c : String) (segs : List String) :
    (n.removeRecursive c segs).2.Pruned := by
  induction segs generalizing n with
  | nil => exact h.setSubscribers _
  | cons seg segs ih =>
    rw [removeRecursive]
    cases hs : n.childForSegment seg with
    | none => exact h
    | some child =>
      have hplain' := hplain.child hs
      obtain ⟨⟨c', p, hp⟩, hch⟩ := h.child hs
      have hprune := ih hplain' hch
      simp only
      split_ifs with hprun
      · exact h.setChild seg none (by simp)
      · refine h.setChild seg _ ?_
        intro m hm
        rw [← some.inj hm]
        refine ⟨?_, hprune⟩
        cases hremoved : (child.removeRecursive c segs).1 with
        | true =>
          rw [hremoved, Bool.true_and, Bool.not_eq_true] at hprun
          exact stored_of_not_isEmpty (hereditary_plain.removeRecursive hplain' c segs) hprune hprun
        | false =>
          -- nothing was there to remove
          rw [removeRecursive_fst] at hremoved
          refine ⟨c', p, ?_⟩
          rw [qosAt_removeRecursive, if_neg]
          · exact hp
          · rintro ⟨rfl, rfl⟩
            rw [hremoved] at hp
            exact absurd hp (by simp)

/-! ### Taking a client out everywhere -/

/-- The node at the end of a path. -/
def nodeAt : List String → Node → Option Node
  | [], n => some n
  | seg :: p, n => (n.childForSegment seg).bind (nodeAt p)

theorem qosAt_append (c : String) (p p' : List String) (n : Node) :
    n.qosAt c (p ++ p') = (n.nodeAt p).bind (qosAt c p') := by
  induction p generalizing n with
  | nil => rfl
  | cons seg p ih =>
    rw [cons_append, qosAt, nodeAt]
    cases n.childForSegment seg with
    | none => rfl
    | some m => exact ih m

theorem nodeAt_removeAll (c : String) (p : List String) (n : Node) :
    (n.removeAll c).nodeAt p = (n.nodeAt p).map (removeAll c) := by
  induction p generalizing n with
  | nil => rfl
  | cons seg p ih =>
    rw [nodeAt, childForSegment_removeAll, nodeAt]
    cases n.childForSegment seg with
    | none => rfl
    | some m => exact ih m

theorem pruned_iff (hplain : n.Plain) :
    n.Pruned ↔ ∀ p m, p ≠ [] → n.nodeAt p = some m → m.Stored := by
  constructor
  · intro h p m hne hm
    induction p generalizing n with
    | nil => exact absurd rfl hne
    | cons seg p ih =>
      obtain ⟨m1, hm1, hm⟩ := bind_eq_some_iff.1 hm
      cases p with
      | nil => exact some.inj hm ▸ (h.child hm1).1
      | cons seg' p =>
        exact ih (hplain.child hm1) (h.child hm1).2 (by simp) hm
  · intro h
    induction hplain with
    | @intro n hplus hhash hch ih =>
      refine .intro (fun seg m hm => ?_) (fun seg m hm => ?_)
      · exact h [seg] m (by simp) (by rw [nodeAt, hm]; rfl)
      · refine ih seg m hm (fun p m' hne hm' => h (seg :: p) m' (by simp) ?_)
        rw [nodeAt, hm]
        exact hm'

/-- Without the client the trie has no dead branches exactly if another client is stored under every
    node. -/
theorem pruned_removeAll_iff (hplain : n.Plain) (c : String) :
    (n.removeAll c).Pruned ↔ ∀ p, p ≠ [] → (n.nodeAt p).isSome = true →
      ∃ c' p', c' ≠ c ∧ (n.qosAt c' (p ++ p')).isSome = true := by
  rw [pruned_iff (hplain.removeAll c)]
  constructor
  · intro h p hne hsome
    obtain ⟨m, hm⟩ := isSome_iff_exists.1 hsome
    obtain ⟨c', p', hp'⟩ := h p (m.removeAll c) hne (by rw [nodeAt_removeAll, hm]; rfl)
    rw [qosAt_removeAll] at hp'
    split_ifs at hp' with hc
    · exact absurd hp' (by simp)
    · refine ⟨c', p', hc, ?_⟩
      rw [qosAt_append, hm]
      exact hp'
  · intro h p m hne hm
    rw [nodeAt_removeAll] at hm
    obtain ⟨m', hm', rfl⟩ := map_eq_some_iff.1 hm
    obtain ⟨c', p', hc, hp'⟩ := h p hne (by rw [hm']; rfl)
    refine ⟨c', p', ?_⟩
    rw [qosAt_removeAll, if_neg hc]
    rw [qosAt_append, hm'] at hp'
    exact hp'

end Node

namespace SubscriptionTree

/-! ## Histories -/

variable {t : SubscriptionTree} {M : SubMap}

/-- A client other than `c` has a plain filter that begins with the levels of `f`. -/
def otherBelow (t : SubscriptionTree) (c f : String) : Bool :=
  t.reverse.toPairs.any (fun r => r.1 != c && r.2.any (fun e =>
    (parseSharedFilter e.1).isNone && (split f).isPrefixOf (split e.1)))

/-- A client is taken out everywhere only where, for each of its plain filters, another client has
    one that begins with the same levels. -/
def keepsBranches (t : SubscriptionTree) : SubOp → Bool
  | .unsubscribeAll c => (t.subscriptionsOf c).all (fun e =>
    (parseSharedFilter e.1).isSome || t.otherBelow c e.1)
  | .subscribe .. | .unsubscribe .. => true

theorem Represents.otherBelow_iff (h : t.Represents M) {c f : String} :
    t.otherBelow c f = true ↔ ∃ c' f', c' ≠ c ∧ parseSharedFilter f' = none ∧
      (M c' f').isSome = true ∧ split f <+: split f' := by
  simp only [otherBelow, List.any_eq_true, Bool.and_eq_true, bne_iff_ne, Option.isNone_iff_eq_none,
    List.isPrefixOf_iff_prefix]
  constructor
  · rintro ⟨⟨c', l⟩, hl, hne, e, he, hplain, hstarts⟩
    refine ⟨c', e.1, hne, hplain, h.mem_listed_iff.1 (List.mem_map.2 ⟨e, ?_, rfl⟩), hstarts⟩
    rw [subscriptionsOf, FinMap.mem_toPairs.1 hl]
    exact he
  · rintro ⟨c', f', hne, hplain, hsome, hstarts⟩
    obtain ⟨e, he, rfl⟩ := List.mem_map.1 (h.mem_listed_iff.2 hsome)
    cases hl : t.reverse.get c' with
    | none => simp [subscriptionsOf, hl] at he
    | some l =>
      rw [subscriptionsOf, hl] at he
      exact ⟨(c', l), FinMap.mem_toPairs.2 hl, hne, e, he, hplain, hstarts⟩

theorem Represents.keepsBranches_iff (h : t.Represents M) (c : String) :
    t.keepsBranches (.unsubscribeAll c) = true ↔
      ∀ f, parseSharedFilter f = none → (M c f).isSome = true → t.otherBelow c f = true := by
  simp only [keepsBranches, List.all_eq_true, Bool.or_eq_true]
  constructor
  · intro hall f hf hsome
    obtain ⟨e, he, rfl⟩ := List.mem_map.1 (h.mem_listed_iff.2 hsome)
    refine (hall e he).resolve_left ?_
    rw [hf]
    simp
  · intro hall e he
    cases hf : parseSharedFilter e.1 with
    | some key => exact .inl rfl
    | none => exact .inr (hall e.1 hf (h.mem_listed_iff.1 (List.mem_map_of_mem he)))

/-- Taking a client out of a trie without dead branches. -/
theorem Represents.pruned_unsubscribeAll_iff (h : t.Represents M) (hprune : t.root.Pruned)
    (c : String) :
    (t.unsubscribeAll c).root.Pruned ↔ t.keepsBranches (.unsubscribeAll c) = true := by
  rw [h.keepsBranches_iff, show (t.unsubscribeAll c).root = t.root.removeAll c from rfl,
    pruned_removeAll_iff h.plain]
  have hstored : ∀ c' p, (t.root.qosAt c' p).isSome = true ↔
      ∃ f, parseSharedFilter f = none ∧ split f = p ∧ (M c' f).isSome = true := by
    intro c' p
    simp only [isSome_iff_exists, h.stored]
    constructor
    · rintro ⟨q, f, hf, hsplit, hq⟩
      exact ⟨f, hf, hsplit, q, hq⟩
    · rintro ⟨f, hf, hsplit, q, hq⟩
      exact ⟨q, f, hf, hsplit, hq⟩
  constructor
  · intro hothers f hf hsome
    have hnode : (t.root.nodeAt (split f)).isSome = true := by
      have hq := (hstored c (split f)).2 ⟨f, hf, rfl, hsome⟩
      rw [← append_nil (split f), qosAt_append] at hq
      cases hm : t.root.nodeAt (split f) with
      | none => simp [hm] at hq
      | some m => rfl
    obtain ⟨c', p', hne, hq⟩ := hothers (split f) (split_ne_nil f) hnode
    obtain ⟨f', hf', hsplit, hsome'⟩ := (hstored c' _).1 hq
    exact h.otherBelow_iff.2 ⟨c', f', hne, hf', hsome', ⟨p', hsplit.symm⟩⟩
  · intro hothers p hne hnode
    -- something is stored under the node; if it is the client's own, there is another's further down
    obtain ⟨m, hm⟩ := isSome_iff_exists.1 hnode
    obtain ⟨c', p', hq⟩ := (pruned_iff h.plain).1 hprune p m hne hm
    have hq' : (t.root.qosAt c' (p ++ p')).isSome = true := by
      rw [qosAt_append, hm]
      exact hq
    by_cases hc : c' = c
    · subst hc
      obtain ⟨f, hf, hsplit, hsome⟩ := (hstored c' _).1 hq'
      obtain ⟨c2, f2, hne2, hf2, hsome2, ⟨rest, hrest⟩⟩ :=
        h.otherBelow_iff.1 (hothers f hf hsome)
      refine ⟨c2, p' ++ rest, hne2, (hstored c2 _).2 ⟨f2, hf2, ?_, hsome2⟩⟩
      rw [← hrest, hsplit, append_assoc]
    · exact ⟨c', p', hc, hq'⟩

theorem pruned_subscribe (hprune : t.root.Pruned) (c f : String) (q : QoS) :
    (t.subscribe c f q).2.root.Pruned := by
  unfold subscribe
  split
  · split
    · exact hprune
    · exact hprune
  · split
    · exact hprune
    · exact hprune.insertAt c q (split f)

theorem Represents.pruned_unsubscribe (h : t.Represents M) (hprune : t.root.Pruned)
    (c f : String) : (t.unsubscribe c f).2.root.Pruned := by
  unfold SubscriptionTree.unsubscribe
  split
  · split_ifs
    · rw [root_unindexFilter]
      exact hprune
    · exact hprune
  · have hroot := hprune.removeRecursive h.plain c (split f)
    dsimp only
    split_ifs
    · rw [root_unindexFilter]
      exact hroot
    · exact hroot

/-- A call keeps the trie free of dead branches exactly if it keeps the branches. -/
theorem Sound.pruned_onTree_iff (h : t.Sound) (hprune : t.root.Pruned) (op : SubOp) :
    (op.onTree t).root.Pruned ↔ t.keepsBranches op = true := by
  obtain ⟨M, hM⟩ := h.represents
  cases op with
  | subscribe c f q => exact iff_of_true (pruned_subscribe hprune c f q) rfl
  | unsubscribe c f => exact iff_of_true (hM.pruned_unsubscribe hprune c f) rfl
  | unsubscribeAll c => exact hM.pruned_unsubscribeAll_iff hprune c

/-! ### When all clients have gone -/

/-- A tree without dead branches whose clients have all gone is the empty tree. -/
theorem Sound.eq_empty (h : t.Sound) (htrim : t.Trim) (hprune : t.root.Pruned)
    (hgone : ∀ c, t.subscriptionsOf c = []) : t = {} := by
  have hnowhere : ∀ c, ¬ t.Occurs c := fun c hc => (h.occurs_iff c).1 hc (hgone c)
  obtain ⟨M, hM⟩ := h.represents
  have hroot : t.root = empty := by
    refine eq_empty_of_pruned hM.plain hprune ?_
    rintro ⟨c, p, hp⟩
    obtain ⟨q, hq⟩ := isSome_iff_exists.1 hp
    exact hnowhere c (.trie p q hq)
  have hreverse : t.reverse = ∅ := by
    refine FinMap.eq_empty_of_get (fun c => ?_)
    cases hl : t.reverse.get c with
    | none => rfl
    | some l =>
      have hlist := hgone c
      rw [subscriptionsOf, hl, getD_some] at hlist
      exact absurd (hlist ▸ hl) (htrim.lists c)
  have hshared : t.shared = ∅ := by
    refine FinMap.eq_empty_of_get (fun key => ?_)
    cases hent : t.shared.get key with
    | none => rfl
    | some entry =>
      obtain ⟨e, he⟩ := exists_mem_of_ne_nil _ (htrim.groups key entry hent)
      have hmem : (entry.members.get e.1).isSome = true :=
        FinMap.mem_keys.1 (mem_map_of_mem he)
      obtain ⟨q, hq⟩ := isSome_iff_exists.1 hmem
      refine absurd (.group key q ?_) (hnowhere e.1)
      rw [memberQos, hent]
      exact hq
  obtain ⟨root, reverse, shared⟩ := t
  dsimp only at hroot hreverse hshared
  rw [hroot, hreverse, hshared]

/-- **No dead branches**: every node but the root has a subscriber at or under it, and a tree whose
    clients have all gone is the empty tree. -/
def Clear (t : SubscriptionTree) : Prop :=
  t.root.NoDeadBranches ∧ ((∀ c, t.subscriptionsOf c = []) → t = {})

theorem Sound.clear_iff (h : t.Sound) (htrim : t.Trim) : t.Clear ↔ t.root.Pruned := by
  obtain ⟨M, hM⟩ := h.represents
  rw [Clear, noDeadBranches_iff hM.plain]
  exact and_iff_left_of_imp (fun hprune => h.eq_empty htrim hprune)

def step (t : SubscriptionTree) (op : SubOp) : Option SubscriptionTree := some (op.onTree t)

theorem run_step (t : SubscriptionTree) (ops : List SubOp) :
    Runs.run step t ops = some (t.after ops) := by
  induction ops generalizing t with
  | nil => rfl
  | cons op ops ih => exact Runs.run_cons.2 ⟨_, rfl, ih _⟩

/-- **When the trie stays free of dead branches.** Along any sequence of calls: exactly if each
    `unsubscribe_all` comes where other clients keep the branches of its client. -/
theorem clear_always_iff (ops : List SubOp) :
    Runs.Always step Clear {} ops ↔
      Runs.Meets step (fun t op => t.keepsBranches op = true) {} ops := by
  have hclear : Clear {} := (sound_empty.clear_iff trim_empty).2 pruned_empty
  refine Runs.run_always_iff (E := fun _ => True) (I := fun t => t.Sound ∧ t.Trim) ?_ ?_
    (fun _ _ => trivial) ⟨sound_empty, trim_empty⟩ hclear (run_step {} ops)
  · rintro t t' op - ⟨hsound, htrim⟩ hstep
    rw [← some.inj hstep]
    exact ⟨hsound.onTree op, kept_trim.onTree htrim op⟩
  · rintro t t' op - ⟨hsound, htrim⟩ hclear hstep
    rw [← some.inj hstep, (hsound.onTree op).clear_iff (kept_trim.onTree htrim op)]
    exact hsound.pruned_onTree_iff ((hsound.clear_iff htrim).1 hclear) op

/-- A client subscribes and is taken out. -/
def comesAndGoes : List SubOp := [.subscribe "a" "t" .atLeastOnce, .unsubscribeAll "a"]

/-- **A dead branch**: the client has gone, and its node stays. -/
theorem dead_branch_left : (∀ c, (after {} comesAndGoes).subscriptionsOf c = []) ∧
    (∃ m, (after {} comesAndGoes).root.Below m ∧ ¬ m.Alive) ∧ ¬ (after {} comesAndGoes).Clear := by
  have hsound : (after {} comesAndGoes).Sound :=
    (sound_empty.onTree (.subscribe "a" "t" .atLeastOnce)).onTree (.unsubscribeAll "a")
  obtain ⟨M, hM⟩ := hsound.represents
  have hnode : ((after {} comesAndGoes).root.childForSegment "t").any Node.isEmpty = true := by
    decide +kernel
  obtain ⟨m, hm, hempty⟩ := (Option.any_eq_true _ _).1 hnode
  have hbelow := (Node.below_iff hM.plain).2 ⟨"t", hm⟩
  have hdead : ¬ m.Alive := by
    rw [Node.alive_iff (hM.plain.child hm)]
    rintro ⟨c, p, hp⟩
    rw [Node.qosAt_of_isEmpty hempty] at hp
    exact absurd hp (by simp)
  refine ⟨fun c => ?_, ⟨m, hbelow, hdead⟩, fun h => hdead (h.1 m (.single hbelow))⟩
  have hreverse : (after {} comesAndGoes).reverse.entries = [] := by decide +kernel
  rw [subscriptionsOf, FinMap.get_eq_none_of_entries_nil hreverse]
  rfl

end SubscriptionTree

end LumenMQ
