import LumenMQ.Broker.Subscription

set_option autoImplicit false

/-! # The trie of the subscription tree

`Node.qosAt` reads the QoS that the trie holds for a client at a path of filter levels, and every
operation of the trie is described by its effect on that reading. -/

namespace LumenMQ

open Option List FinMap Node

variable {f : String}

/-! ## Levels and strings -/

theorem join_split (s : String) : join (split s) = s := by
  simp [join, split, intercalate_splitOn]

theorem split_injective {s s' : String} (h : split s = split s') : s = s' := by
  rw [← join_split s, ← join_split s', h]

theorem split_ne_nil (s : String) : split s ≠ [] := by
  simp [split, splitOn_ne_nil]

/-- The group and the filter determine the shared filter they come from. -/
theorem parseSharedFilter_injective {f' : String} {key : String × String}
    (h : parseSharedFilter f = some key) (h' : parseSharedFilter f' = some key) : f = f' := by
  have hform : ∀ {g : String}, parseSharedFilter g = some key →
      g.toList = sharePrefix.toList ++ '/' :: (key.1.toList ++ '/' :: key.2.toList) := by
    intro g hg
    rw [parseSharedFilter] at hg
    split at hg
    · next first group level rest hsplit =>
      by_cases hp : first = sharePrefix ∧ group ≠ ""
      · rw [if_pos hp, some.injEq] at hg
        obtain ⟨rfl, -⟩ := hp
        have hjoin := join_split g
        rw [hsplit] at hjoin
        rw [← hjoin, ← hg]
        simp [join]
      · rw [if_neg hp] at hg
        simp at hg
    · simp at hg
  exact String.toList_injective ((hform h).trans (hform h').symm)

/-- A `#` stands only in the last level. -/
def HashLast : List String → Prop
  | [] => True
  | seg :: rest => (seg = "#" → rest = []) ∧ HashLast rest

theorem hashLast_of_validateLevels {filter : String} {levels : List String}
    (h : validateLevels filter levels = .ok ()) : HashLast levels := by
  induction levels with
  | nil => exact trivial
  | cons seg rest ih =>
    rw [validateLevels] at h
    split_ifs at h with h1 h2 h3
    refine ⟨?_, ih h⟩
    intro hseg
    by_contra hrest
    exact h2 ⟨hseg, hrest⟩

theorem hashLast_of_validateFilter {filter : String} (h : validateFilter filter = .ok ()) :
    HashLast (split filter) := by
  rw [validateFilter] at h
  split_ifs at h
  exact hashLast_of_validateLevels h

/-! ## Nodes -/

namespace Node

@[simp] theorem subscribers_setSubscribers (n : Node) (subs : FinMap String QoS) :
    (n.setSubscribers subs).subscribers = subs := rfl

@[simp] theorem childForSegment_setSubscribers (n : Node) (subs : FinMap String QoS)
    (seg : String) : (n.setSubscribers subs).childForSegment seg = n.childForSegment seg := rfl

@[simp] theorem children_setSubscribers (n : Node) (subs : FinMap String QoS) :
    (n.setSubscribers subs).children = n.children := rfl

variable {n : Node}

@[simp] theorem subscribers_setChild (n : Node) (seg : String) (child : Option Node) :
    (n.setChild seg child).subscribers = n.subscribers := by
  unfold setChild
  split_ifs <;> rfl

/-- A node is a record with one child for every filter level. -/
theorem childForSegment_setChild (n : Node) (seg s : String) (child : Option Node) :
    (n.setChild seg child).childForSegment s =
      if s = seg then child else n.childForSegment s := by
  obtain ⟨children, plusChild, hashChild, subs⟩ := n
  by_cases hplus : seg = "+"
  · subst hplus
    by_cases h : s = "+" <;> simp [setChild, childForSegment, h, Node.plusChild, Node.hashChild,
      Node.children]
  by_cases hhash : seg = "#"
  · subst hhash
    by_cases h : s = "+"
    · simp [setChild, childForSegment, h, Node.plusChild]
    by_cases h' : s = "#" <;> simp [setChild, childForSegment, h, h', Node.hashChild, Node.children]
  · by_cases h : s = "+"
    · subst h
      simp [setChild, childForSegment, hplus, hhash, Node.plusChild, Ne.symm hplus]
    by_cases h' : s = "#"
    · subst h'
      simp [setChild, childForSegment, hplus, hhash, Node.hashChild, Ne.symm hhash]
    · cases child with
      | none =>
        simp only [setChild, childForSegment, hplus, hhash, h, h', if_false, Node.children]
        exact lookup_removeEntry seg s children
      | some c =>
        simp only [setChild, childForSegment, hplus, hhash, h, h', if_false, Node.children]
        exact lookup_setEntry seg s c children

/-- The QoS the trie below `n` holds for a client at a path of filter levels. -/
def qosAt (clientId : String) : List String → Node → Option QoS
  | [], n => n.subscribers.get clientId
  | seg :: segs, n => (n.childForSegment seg).bind (qosAt clientId segs)

theorem childForSegment_empty (seg : String) : empty.childForSegment seg = none := by
  unfold childForSegment
  split_ifs <;> rfl

theorem qosAt_empty (c : String) (p : List String) : empty.qosAt c p = none := by
  cases p with
  | nil => rfl
  | cons seg p => rw [qosAt, childForSegment_empty, bind_none]

theorem childForSegment_of_isEmpty (h : n.isEmpty = true) (seg : String) :
    n.childForSegment seg = none := by
  simp only [isEmpty, Bool.and_eq_true, List.isEmpty_iff, Option.isNone_iff_eq_none] at h
  obtain ⟨⟨⟨-, hchildren⟩, hplus⟩, hhash⟩ := h
  simp [childForSegment, hchildren, hplus, hhash]

theorem qosAt_of_isEmpty (h : n.isEmpty = true) (c : String) (p : List String) :
    n.qosAt c p = none := by
  cases p with
  | nil =>
    simp only [isEmpty, Bool.and_eq_true, List.isEmpty_iff] at h
    exact FinMap.get_eq_none_of_entries_nil h.1.1.1 c
  | cons seg p => rw [qosAt, childForSegment_of_isEmpty h, bind_none]

theorem qosAt_setChild (n : Node) (seg s : String) (child : Option Node) (c : String)
    (p : List String) :
    (n.setChild seg child).qosAt c (s :: p) =
      if s = seg then child.bind (qosAt c p) else n.qosAt c (s :: p) := by
  rw [qosAt, qosAt, childForSegment_setChild]
  by_cases h : s = seg <;> simp [h]

/-- Inserting sets one client at one path. -/
theorem qosAt_insertAt (c c' : String) (q : QoS) (segs p : List String) (n : Node) :
    (n.insertAt c q segs).qosAt c' p =
      if p = segs ∧ c' = c then some q else n.qosAt c' p := by
  induction segs generalizing n p with
  | nil =>
    cases p with
    | nil => simp [insertAt, qosAt, get_insert]
    | cons s p => simp [insertAt, qosAt]
  | cons seg segs ih =>
    cases p with
    | nil => simp [insertAt, qosAt]
    | cons s p =>
      rw [insertAt, qosAt_setChild]
      by_cases hs : s = seg
      · subst hs
        simp only [if_true, bind_some, ih, cons.injEq, true_and]
        -- below a missing child nothing is stored
        cases hch : n.childForSegment s with
        | none => simp [qosAt, hch, qosAt_empty]
        | some child => simp [qosAt, hch]
      · simp [hs]

/-- Removing reports whether the client was there. -/
theorem removeRecursive_fst (c : String) (segs : List String) (n : Node) :
    (n.removeRecursive c segs).1 = (n.qosAt c segs).isSome := by
  induction segs generalizing n with
  | nil => rfl
  | cons seg segs ih =>
    rw [removeRecursive, qosAt]
    cases n.childForSegment seg with
    | none => rfl
    | some child =>
      simp only [bind_some]
      split_ifs <;> exact ih child

/-- Removing clears one client at one path; pruning changes nothing that is stored. -/
theorem qosAt_removeRecursive (c c' : String) (segs p : List String) (n : Node) :
    (n.removeRecursive c segs).2.qosAt c' p =
      if p = segs ∧ c' = c then none else n.qosAt c' p := by
  induction segs generalizing n p with
  | nil =>
    cases p with
    | nil => simp [removeRecursive, qosAt, get_erase]
    | cons s p => simp [removeRecursive, qosAt]
  | cons seg segs ih =>
    rw [removeRecursive]
    cases hch : n.childForSegment seg with
    | none =>
      by_cases h : p = seg :: segs ∧ c' = c
      · rw [if_pos h, h.1]
        simp [qosAt, hch]
      · rw [if_neg h]
    | some child =>
      cases p with
      | nil =>
        simp only
        split_ifs <;> simp_all [qosAt]
      | cons s p =>
        simp only
        by_cases hs : s = seg
        · subst hs
          have hstored : n.qosAt c' (s :: p) = child.qosAt c' p := by simp [qosAt, hch]
          split_ifs with hprune hsame hsame
          · rw [qosAt_setChild, if_pos rfl, bind_none]
          · -- a pruned child stored nothing, so neither did the tree before
            rw [Bool.and_eq_true] at hprune
            rw [qosAt_setChild, if_pos rfl, bind_none, hstored]
            have hnone := qosAt_of_isEmpty hprune.2 c' p
            rwa [ih, if_neg (by simpa using hsame), eq_comm] at hnone
          · rw [qosAt_setChild, if_pos rfl, bind_some, ih,
              if_pos (by simpa using hsame)]
          · rw [qosAt_setChild, if_pos rfl, bind_some, ih,
              if_neg (by simpa using hsame), hstored]
        · have hne : ¬ (s :: p = seg :: segs ∧ c' = c) := by simp [hs]
          rw [if_neg hne]
          split_ifs <;> rw [qosAt_setChild, if_neg hs]

theorem lookup_removeAllChildren (c s : String) (entries : List (String × Node)) :
    (removeAllChildren c entries).lookup s = (entries.lookup s).map (removeAll c) := by
  induction entries with
  | nil => simp [removeAllChildren]
  | cons e rest ih =>
    obtain ⟨s', child⟩ := e
    by_cases h : s = s' <;> simp [removeAllChildren, lookup_cons_eq_if, h, ih]

theorem childForSegment_removeAll (c s : String) (n : Node) :
    (n.removeAll c).childForSegment s = (n.childForSegment s).map (removeAll c) := by
  obtain ⟨children, plusChild, hashChild, subs⟩ := n
  have hopt : ∀ child : Option Node, removeAllChild c child = child.map (removeAll c) := by
    intro child
    cases child <;> rfl
  rw [removeAll]
  unfold childForSegment
  split_ifs
  · exact hopt plusChild
  · exact hopt hashChild
  · exact lookup_removeAllChildren c s children

/-- Removing a client everywhere clears it at every path and leaves the others alone. -/
theorem qosAt_removeAll (c c' : String) (p : List String) (n : Node) :
    (n.removeAll c).qosAt c' p = if c' = c then none else n.qosAt c' p := by
  induction p generalizing n with
  | nil =>
    obtain ⟨children, plusChild, hashChild, subs⟩ := n
    simp [removeAll, qosAt, subscribers, get_erase]
  | cons s p ih =>
    rw [qosAt, childForSegment_removeAll, qosAt]
    cases n.childForSegment s with
    | none => simp
    | some child => simp [ih]

/-- No wildcard level is stored among the literal children. -/
inductive Plain : Node → Prop
  | intro {n : Node} (plus : n.children.lookup "+" = none) (hash : n.children.lookup "#" = none)
      (child : ∀ seg m, n.childForSegment seg = some m → Plain m) : Plain n

/-- A literal level leads to a literal child. -/
theorem Plain.childForSegment_of_lookup {seg : String} {m : Node} (h : n.Plain)
    (hm : n.children.lookup seg = some m) :
    seg ≠ "+" ∧ seg ≠ "#" ∧ n.childForSegment seg = some m := by
  obtain ⟨hplus, hhash, -⟩ := h
  have h1 : seg ≠ "+" := by
    rintro rfl
    simp [hplus] at hm
  have h2 : seg ≠ "#" := by
    rintro rfl
    simp [hhash] at hm
  exact ⟨h1, h2, by simp [childForSegment, h1, h2, hm]⟩

theorem plain_empty : empty.Plain := by
  refine .intro rfl rfl ?_
  intro seg m h
  rw [childForSegment_empty] at h
  simp at h

theorem Plain.setSubscribers (h : n.Plain) (subs : FinMap String QoS) :
    (n.setSubscribers subs).Plain := by
  obtain ⟨hplus, hhash, hch⟩ := h
  exact .intro hplus hhash hch

theorem Plain.setChild (h : n.Plain) (seg : String) (child : Option Node)
    (hc : ∀ m, child = some m → m.Plain) : (n.setChild seg child).Plain := by
  obtain ⟨hplus, hhash, hch⟩ := h
  -- only a literal level touches the literal children
  have hliteral : ∀ wild, wild = "+" ∨ wild = "#" → n.children.lookup wild = none →
      (n.setChild seg child).children.lookup wild = none := by
    intro wild hwild hnone
    unfold Node.setChild
    split_ifs with h1 h2
    · exact hnone
    · exact hnone
    · have hne : wild ≠ seg := by rcases hwild with rfl | rfl <;> exact Ne.symm ‹_›
      cases child with
      | none => simpa [children, lookup_removeEntry, hne] using hnone
      | some m => simpa [children, lookup_setEntry, hne] using hnone
  refine .intro (hliteral "+" (.inl rfl) hplus) (hliteral "#" (.inr rfl) hhash) ?_
  intro s m hm
  rw [childForSegment_setChild] at hm
  by_cases hs : s = seg
  · rw [if_pos hs] at hm
    exact hc m hm
  · rw [if_neg hs] at hm
    exact hch s m hm

/-- A property that goes down to the children of a node and comes up from them. -/
structure Hereditary (P : Node → Prop) : Prop where
  empty : P Node.empty
  child : ∀ {n m : Node} {seg : String}, P n → n.childForSegment seg = some m → P m
  setSubscribers : ∀ {n : Node} (subs : FinMap String QoS), P n → P (n.setSubscribers subs)
  setChild : ∀ {n : Node} (seg : String) (child : Option Node), P n →
    (∀ m, child = some m → P m) → P (n.setChild seg child)

theorem Hereditary.insertAt {P : Node → Prop} (hP : Hereditary P) (h : P n) (c : String) (q : QoS)
    (segs : List String) : P (n.insertAt c q segs) := by
  induction segs generalizing n with
  | nil => exact hP.setSubscribers _ h
  | cons seg segs ih =>
    refine hP.setChild seg _ h ?_
    intro m hm
    rw [some.injEq] at hm
    rw [← hm]
    cases hs : n.childForSegment seg with
    | none => exact ih hP.empty
    | some child => exact ih (hP.child h hs)

theorem Hereditary.removeRecursive {P : Node → Prop} (hP : Hereditary P) (h : P n) (c : String)
    (segs : List String) : P (n.removeRecursive c segs).2 := by
  induction segs generalizing n with
  | nil => exact hP.setSubscribers _ h
  | cons seg segs ih =>
    rw [removeRecursive]
    cases hs : n.childForSegment seg with
    | none => exact h
    | some child =>
      simp only
      split_ifs
      · exact hP.setChild seg none h (by simp)
      · refine hP.setChild seg _ h ?_
        intro m hm
        rw [some.injEq] at hm
        rw [← hm]
        exact ih (hP.child h hs)

theorem Plain.child {seg : String} {m : Node} (h : n.Plain) (hm : n.childForSegment seg = some m) :
    m.Plain := by
  obtain ⟨-, -, hchild⟩ := h
  exact hchild seg m hm

theorem hereditary_plain : Hereditary Plain where
  empty := plain_empty
  child h hm := h.child hm
  setSubscribers subs h := h.setSubscribers subs
  setChild seg child h hc := h.setChild seg child hc

theorem Plain.removeAll (h : n.Plain) (c : String) : (n.removeAll c).Plain := by
  induction h with
  | @intro n hplus hhash hch ih =>
    have hchildren : (n.removeAll c).children = removeAllChildren c n.children := by
      obtain ⟨children, plusChild, hashChild, subs⟩ := n
      rfl
    refine .intro ?_ ?_ ?_
    · rw [hchildren, lookup_removeAllChildren, hplus, map_none]
    · rw [hchildren, lookup_removeAllChildren, hhash, map_none]
    · intro seg m hm
      rw [childForSegment_removeAll, map_eq_some_iff] at hm
      obtain ⟨m', hm', rfl⟩ := hm
      exact ih seg m' hm'

theorem mem_hashSubscribers (n : Node) (c : String) (q : QoS) :
    (c, q) ∈ n.hashSubscribers ↔ n.qosAt c ["#"] = some q := by
  rw [hashSubscribers, qosAt]
  have hseg : n.childForSegment "#" = n.hashChild := by simp [childForSegment]
  rw [hseg]
  cases n.hashChild with
  | none => simp
  | some hash => simp [qosAt, mem_toPairs]

/-- **The trie and the flat matcher agree.** Where a `#` is stored only at the end of a path, the
    subscribers collected for a topic are those stored at the paths the topic matches. -/
theorem mem_collectMatches (hplain : n.Plain) (ts : List String)
    (hlast : ∀ c p q, n.qosAt c p = some q → HashLast p) (c : String) (q : QoS) :
    (c, q) ∈ n.collectMatches ts ↔
      ∃ p, topicMatchesLevels ts p = true ∧ n.qosAt c p = some q := by
  induction ts generalizing n with
  | nil =>
    rw [collectMatches, mem_append, mem_hashSubscribers, mem_toPairs]
    constructor
    · rintro (h | h)
      · exact ⟨["#"], by simp [topicMatchesLevels], h⟩
      · exact ⟨[], by simp [topicMatchesLevels], h⟩
    · rintro ⟨p, hp, h⟩
      rw [topicMatchesLevels, decide_eq_true_iff] at hp
      rcases hp with rfl | rfl
      · exact .inr h
      · exact .inl h
  | cons t ts ih =>
    -- below a child the paths are one level shorter
    have hbelow : ∀ seg m, n.childForSegment seg = some m →
        ((c, q) ∈ m.collectMatches ts ↔
          ∃ p, topicMatchesLevels ts p = true ∧ n.qosAt c (seg :: p) = some q) := by
      intro seg m hm
      have hm' : ∀ c' p', n.qosAt c' (seg :: p') = m.qosAt c' p' := by
        intro c' p'
        rw [qosAt, hm, bind_some]
      simp only [hm']
      refine ih (hplain.child hm) ?_
      intro c' p' q' h'
      rw [← hm'] at h'
      exact (hlast c' (seg :: p') q' h').2
    have hplus : n.childForSegment "+" = n.plusChild := by simp [childForSegment]
    rw [collectMatches, mem_append, mem_append, mem_hashSubscribers]
    constructor
    · rintro (h | h | h)
      · exact ⟨["#"], by simp [topicMatchesLevels], h⟩
      · cases hm : n.children.lookup t with
        | none => simp [hm] at h
        | some m =>
          obtain ⟨-, h2, hseg⟩ := hplain.childForSegment_of_lookup hm
          rw [hm] at h
          obtain ⟨p, hp, hq⟩ := (hbelow t m hseg).1 h
          exact ⟨t :: p, by simp [topicMatchesLevels, h2, hp], hq⟩
      · cases hm : n.plusChild with
        | none => simp [hm] at h
        | some m =>
          rw [hm] at h hplus
          obtain ⟨p, hp, hq⟩ := (hbelow "+" m hplus).1 h
          exact ⟨"+" :: p, by simp [topicMatchesLevels, hp], hq⟩
    · rintro ⟨p, hp, hq⟩
      cases p with
      | nil => simp [topicMatchesLevels] at hp
      | cons f fs =>
        rw [topicMatchesLevels] at hp
        split_ifs at hp with h1 h2
        · subst h1
          obtain rfl := (hlast c ("#" :: fs) q hq).1 rfl
          exact .inl hq
        · obtain ⟨m, hm, -⟩ := bind_eq_some_iff.1 hq
          have hmem := (hbelow f m hm).2 ⟨fs, hp, hq⟩
          by_cases hf : f = "+"
          · subst hf
            rw [hplus] at hm
            exact .inr (.inr (by rw [hm]; exact hmem))
          · obtain rfl : f = t := h2.resolve_left hf
            have hlook : n.children.lookup f = some m := by
              simpa [childForSegment, hf, h1] using hm
            exact .inr (.inl (by rw [hlook]; exact hmem))

end Node

end LumenMQ
