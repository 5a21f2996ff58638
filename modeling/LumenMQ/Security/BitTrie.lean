import LumenMQ.Security.IpFilter

set_option autoImplicit false

/-! # The tries of the IP lists, shift by shift

`BitTrie` as the source has it: a key of 128 bits whatever the family, and loops that take one bit
of it at a time by a shift. Shifts and subtractions are checked here, as a debug build checks them.
None of them fails, and what the tries contain are the addresses whose masked form is the network of
a rule. -/

namespace LumenMQ

open IpFilter TrieNode

variable {w : Nat}

/-! ## Checked arithmetic -/

/-- A difference of unsigned numbers. -/
def checkedSub (a b : Nat) : Option Nat := if b ≤ a then some (a - b) else none

/-- A shift by less than the width. -/
def checkedShl {w : Nat} (x : BitVec w) (n : Nat) : Option (BitVec w) :=
  if n < w then some (x <<< n) else none

def checkedShr {w : Nat} (x : BitVec w) (n : Nat) : Option (BitVec w) :=
  if n < w then some (x >>> n) else none

/-! ## Masks -/

/-- The mask of a prefix length in a family of `w` bits. -/
def prefixMask (w prefixLen : Nat) : Option (BitVec w) :=
  let prefixLen := min prefixLen w
  if prefixLen = 0 then some 0
  else (checkedSub w prefixLen).bind (checkedShl (BitVec.allOnes w))

/-- `apply_mask`, with its shift checked. -/
def applyMaskChecked : IpAddr → Nat → Option IpAddr
  | .v4 bits, prefixLen => (prefixMask 32 prefixLen).map (fun mask => .v4 (bits &&& mask))
  | .v6 bits, prefixLen => (prefixMask 128 prefixLen).map (fun mask => .v6 (bits &&& mask))

theorem prefixMask_eq (prefixLen : Nat) : prefixMask w prefixLen =
      some (if prefixLen = 0 then 0 else BitVec.allOnes w <<< (w - min prefixLen w)) := by
  unfold prefixMask checkedSub checkedShl
  by_cases hzero : prefixLen = 0
  · rw [hzero, Nat.zero_min, if_pos rfl, if_pos rfl]
  · rw [if_neg hzero]
    by_cases hw : w = 0
    · subst hw
      rw [Nat.min_zero, if_pos rfl]
      exact congrArg some (Subsingleton.elim _ _)
    · rw [if_neg (by omega), if_pos (Nat.min_le_right _ _), Option.bind_some, if_pos (by omega)]

/-- The shift of a mask is in range. -/
theorem applyMaskChecked_eq (ip : IpAddr) (prefixLen : Nat) :
    applyMaskChecked ip prefixLen = some (applyMask ip prefixLen) := by
  cases ip <;> rw [applyMaskChecked, prefixMask_eq] <;> rfl

/-- The mask of a prefix length, in the form `applyMask` has it. -/
def maskOf (w prefixLen : Nat) : BitVec w :=
  if prefixLen = 0 then 0 else BitVec.allOnes w <<< (w - min prefixLen w)

theorem getMsbD_maskOf (prefixLen : Nat) {i : Nat} (hi : i < w) :
    (maskOf w prefixLen).getMsbD i = decide (i < prefixLen) := by
  unfold maskOf
  by_cases hzero : prefixLen = 0
  · rw [hzero]
    exact BitVec.getMsbD_zero
  · rw [if_neg hzero, BitVec.getMsbD_shiftLeft, BitVec.getMsbD_allOnes, decide_eq_decide]
    omega

/-- Two addresses are the same under a mask if their first bits are. -/
theorem and_maskOf_eq_iff (x y : BitVec w) {prefixLen : Nat} (hlen : prefixLen ≤ w) :
    x &&& maskOf w prefixLen = y &&& maskOf w prefixLen ↔
      ∀ i < prefixLen, x.getMsbD i = y.getMsbD i := by
  constructor
  · intro h i hi
    have hbit := congrArg (BitVec.getMsbD · i) h
    simp only [BitVec.getMsbD_and, getMsbD_maskOf prefixLen (Nat.lt_of_lt_of_le hi hlen)] at hbit
    simpa [hi] using hbit
  · intro h
    refine BitVec.eq_of_getMsbD_eq fun i hi => ?_
    rw [BitVec.getMsbD_and, BitVec.getMsbD_and, getMsbD_maskOf prefixLen hi]
    by_cases hlt : i < prefixLen
    · rw [h i hlt]
    · simp [hlt]

/-- The bits of a number, highest first. -/
def bitsOf {w : Nat} (x : BitVec w) : List Bool := (List.range w).map x.getMsbD

theorem length_bitsOf (x : BitVec w) : (bitsOf x).length = w := by
  rw [bitsOf, List.length_map, List.length_range]

/-- The first bits of an address stand at the start of another if the two are the same under the
    mask. -/
theorem take_bitsOf_prefix_iff (x y : BitVec w) {prefixLen : Nat} (hlen : prefixLen ≤ w) :
    (bitsOf x).take prefixLen <+: bitsOf y ↔
      y &&& maskOf w prefixLen = x &&& maskOf w prefixLen := by
  have htake : ∀ z : BitVec w, (bitsOf z).take prefixLen = (List.range prefixLen).map z.getMsbD := by
    intro z
    rw [bitsOf, ← List.map_take, List.take_range, Nat.min_eq_left hlen]
  rw [List.prefix_iff_eq_take, List.length_take, length_bitsOf, Nat.min_eq_left hlen, htake, htake,
    List.map_inj_left, eq_comm, and_maskOf_eq_iff x y hlen]
  simp only [List.mem_range]

/-! ## Binary tries -/

namespace TrieNode

theorem contains_empty (bits : List Bool) : empty.contains bits = false := by
  cases bits with
  | nil => rfl
  | cons bit bits => cases bit <;> rfl

theorem contains_of_terminal {n : TrieNode} (h : n.terminal = true) (bits : List Bool) :
    n.contains bits = true := by
  cases bits with
  | nil => exact h
  | cons bit bits => exact if_pos h

@[simp] theorem terminal_setChild (n : TrieNode) (bit : Bool) (c : TrieNode) :
    (n.setChild bit c).terminal = n.terminal := by
  cases n
  cases bit <;> rfl

theorem child_setChild (n : TrieNode) (bit bit' : Bool) (c : TrieNode) :
    (n.setChild bit c).child bit' = if bit' = bit then some c else n.child bit' := by
  cases n
  cases bit <;> cases bit' <;> rfl

/-- Below a node that ends no rule, a child decides; a missing one is an empty one. -/
theorem contains_cons {n : TrieNode} (h : n.terminal = false) (bit : Bool) (bits : List Bool) :
    n.contains (bit :: bits) = ((n.child bit).getD empty).contains bits := by
  rw [contains, h, if_neg Bool.false_ne_true]
  cases n.child bit with
  | some c => rfl
  | none => exact (contains_empty bits).symm

/-- **A trie contains what it did, and all that begins with the new key.** -/
theorem contains_insert (key bits : List Bool) (n : TrieNode) :
    (n.insert key).contains bits = true ↔ n.contains bits = true ∨ key <+: bits := by
  induction key generalizing bits n with
  | nil =>
    have hterm : (n.insert []).terminal = true := by cases n; rfl
    exact iff_of_true (contains_of_terminal hterm bits) (.inr List.nil_prefix)
  | cons bit key ih =>
    rw [insert]
    cases hterm : n.terminal with
    | true =>
      exact iff_of_true (contains_of_terminal (by rw [terminal_setChild, hterm]) bits)
        (.inl (contains_of_terminal hterm bits))
    | false =>
      have hterm' : (n.setChild bit
          (((n.child bit).getD empty).insert key)).terminal = false := by
        rw [terminal_setChild, hterm]
      cases bits with
      | nil =>
        refine iff_of_false (fun h => ?_) ?_
        · exact Bool.false_ne_true (hterm'.symm.trans h)
        · rintro (h | h)
          · exact Bool.false_ne_true (hterm.symm.trans h)
          · exact absurd (List.prefix_nil.mp h) (List.cons_ne_nil _ _)
      | cons bit' bits =>
        rw [contains_cons hterm', contains_cons hterm, child_setChild, List.cons_prefix_cons]
        by_cases hbit : bit' = bit
        · subst hbit
          rw [if_pos rfl, Option.getD_some, ih]
          simp
        · rw [if_neg hbit]
          simp [Ne.symm hbit]

end TrieNode

/-- A trie for keys of up to 128 bits. -/
structure BitTrie where
  root : Option TrieNode := none
  maxBits : Nat

namespace BitTrie

variable {i : Nat}

/-- The bit of a key in round `i` of the loops. -/
def bitAt (maxBits i : Nat) (key : BitVec 128) : Option Bool := do
  let last ← checkedSub maxBits 1
  let shift ← checkedSub last i
  let shifted ← checkedShr key shift
  some (shifted &&& 1 = 1)

def markTerminal : TrieNode → TrieNode
  | .mk zero one _ => .mk zero one true

/-- The rounds of `insert` from `i` on; a missing child is created on the way. -/
def insertLoop (maxBits : Nat) (network : BitVec 128) : Nat → Nat → TrieNode → Option TrieNode
  | 0, _, node => some (markTerminal node)
  | rounds + 1, i, node => do
    let bit ← bitAt maxBits i network
    let child ← insertLoop maxBits network rounds (i + 1) ((node.child bit).getD .empty)
    some (node.setChild bit child)

def insert (t : BitTrie) (network : BitVec 128) (prefixLen : Nat) : Option BitTrie :=
  let prefixLen := min prefixLen t.maxBits
  let root := t.root.getD .empty
  if prefixLen = 0 then some { t with root := some (markTerminal root) }
  else (insertLoop t.maxBits network prefixLen 0 root).map (fun root => { t with root := some root })

/-- The rounds of `contains` from `i` on, below a node that ends no rule. -/
def containsLoop (maxBits : Nat) (ip : BitVec 128) : Nat → Nat → TrieNode → Option Bool
  | 0, _, _ => some false
  | rounds + 1, i, node => do
    match node.child (← bitAt maxBits i ip) with
    | some child => if child.terminal then some true else containsLoop maxBits ip rounds (i + 1) child
    | none => some false

def contains (t : BitTrie) (ip : BitVec 128) : Option Bool :=
  match t.root with
  | none => some false
  | some root => if root.terminal then some true else containsLoop t.maxBits ip t.maxBits 0 root

/-! ### The loops walk down the bits -/

variable {w : Nat} (x : BitVec w)

/-- The shift of every round is in range. -/
theorem bitAt_eq (hw : w ≤ 128) (hi : i < w) : bitAt w i (x.setWidth 128) = some (x.getMsbD i) := by
  have hlast : checkedSub w 1 = some (w - 1) := if_pos (by omega)
  have hshift : checkedSub (w - 1) i = some (w - 1 - i) := if_pos (by omega)
  have hshared : checkedShr (x.setWidth 128) (w - 1 - i) =
      some (x.setWidth 128 >>> (w - 1 - i)) := if_pos (by omega)
  have hbit : ∀ y : BitVec 128, decide (y &&& 1 = 1) = y.getLsbD 0 := by
    intro y
    rw [show y &&& 1 = _ from BitVec.and_one_eq_setWidth_ofBool_getLsbD]
    cases y.getLsbD 0 <;> rfl
  simp only [bitAt, hlast, hshift, hshared, bind, Option.bind]
  rw [hbit, BitVec.getLsbD_ushiftRight, BitVec.getLsbD_setWidth, BitVec.getMsbD, Nat.add_zero,
    decide_eq_true hi, decide_eq_true (by omega : w - 1 - i < 128)]

theorem drop_bitsOf (hi : i < w) :
    (bitsOf x).drop i = x.getMsbD i :: (bitsOf x).drop (i + 1) := by
  rw [List.drop_eq_getElem_cons (by rw [length_bitsOf]; exact hi)]
  simp [bitsOf]

theorem insertLoop_eq (hw : w ≤ 128) {rounds : Nat} (hi : i + rounds ≤ w) (node : TrieNode) :
    insertLoop w (x.setWidth 128) rounds i node =
      some (node.insert (((bitsOf x).drop i).take rounds)) := by
  induction rounds generalizing i node with
  | zero =>
    rw [List.take_zero]
    cases node
    rfl
  | succ rounds ih =>
    rw [insertLoop, bitAt_eq x hw (by omega), drop_bitsOf x (by omega),
      List.take_succ_cons, TrieNode.insert]
    simp only [bind, Option.bind, ih (i := i + 1) (by omega)]

theorem containsLoop_eq (hw : w ≤ 128) {rounds : Nat} (hi : i + rounds = w) {node : TrieNode}
    (hterm : node.terminal = false) :
    containsLoop w (x.setWidth 128) rounds i node = some (node.contains ((bitsOf x).drop i)) := by
  induction rounds generalizing i node with
  | zero =>
    have hdrop : (bitsOf x).drop i = [] := List.drop_eq_nil_of_le (by rw [length_bitsOf]; omega)
    rw [hdrop]
    exact congrArg some hterm.symm
  | succ rounds ih =>
    rw [containsLoop, bitAt_eq x hw (by omega), drop_bitsOf x (by omega), contains_cons hterm]
    simp only [bind, Option.bind]
    cases node.child (x.getMsbD i) with
    | none => exact congrArg some (contains_empty _).symm
    | some child =>
      cases hch : child.terminal with
      | true =>
        rw [Option.getD_some, contains_of_terminal hch]
        exact if_pos hch
      | false =>
        rw [Option.getD_some]
        exact (if_neg (by rw [hch]; decide)).trans (ih (by omega) hch)

/-- A trie of a family, as a trie of bit lists. -/
def node (t : BitTrie) : TrieNode := t.root.getD .empty

/-- `insert` walks down the first bits of the key. -/
theorem insert_eq (hw : w ≤ 128) {t : BitTrie} (ht : t.maxBits = w) (prefixLen : Nat) :
    ∃ t', t.insert (x.setWidth 128) prefixLen = some t' ∧ t'.maxBits = w ∧
      t'.node = t.node.insert ((bitsOf x).take prefixLen) := by
  have htake : (bitsOf x).take prefixLen = (bitsOf x).take (min prefixLen w) := by
    rw [List.take_eq_take_iff, length_bitsOf]
    omega
  rw [htake, insert, ht]
  by_cases hzero : min prefixLen w = 0
  · rw [hzero]
    refine ⟨_, rfl, rfl, ?_⟩
    show markTerminal t.node = t.node.insert []
    cases t.node
    rfl
  · rw [if_neg hzero, insertLoop_eq x hw (by omega), List.drop_zero]
    exact ⟨_, rfl, rfl, rfl⟩

/-- `contains` walks down the bits of the address. -/
theorem contains_eq (hw : w ≤ 128) {t : BitTrie} (ht : t.maxBits = w) :
    t.contains (x.setWidth 128) = some (t.node.contains (bitsOf x)) := by
  rw [contains, node, ht]
  cases t.root with
  | none => exact congrArg some (contains_empty _).symm
  | some root =>
    rw [Option.getD_some]
    cases hterm : root.terminal with
    | true =>
      rw [contains_of_terminal hterm]
      exact if_pos hterm
    | false =>
      refine (if_neg (by rw [hterm]; decide)).trans ?_
      exact containsLoop_eq x hw (Nat.zero_add w) hterm

end BitTrie

/-! ## What the lists contain -/

/-- A rule as it is written: an address and how many of its bits count. -/
abbrev Cidr := IpAddr × Nat

def Cidr.rule (r : Cidr) : IpRule := ⟨applyMask r.1 r.2, r.2⟩

/-- The prefix length is one of the family. -/
def Cidr.Valid (r : Cidr) : Prop := r.2 ≤ r.1.maxBits

/-- Some rule has the masked address as its network, which is then of the same family. -/
def Covers (rules : List Cidr) (ip : IpAddr) : Prop :=
  ∃ r ∈ rules, applyMask ip r.2 = applyMask r.1 r.2

namespace IpFilter

def ofRules (rules : List Cidr) : IpFilter := rules.foldl (fun f r => f.addRule r.rule) {}

theorem contains_addRule {r : Cidr} (hr : r.Valid) (f : IpFilter) (ip : IpAddr) :
    (f.addRule r.rule).contains ip = true ↔
      f.contains ip = true ∨ applyMask ip r.2 = applyMask r.1 r.2 := by
  obtain ⟨addr, prefixLen⟩ := r
  have hmasked : ∀ {w : Nat} (x y : BitVec w), prefixLen ≤ w →
      ((bitsOf (x &&& maskOf w prefixLen)).take prefixLen <+: bitsOf y ↔
        y &&& maskOf w prefixLen = x &&& maskOf w prefixLen) := by
    intro w x y hlen
    rw [take_bitsOf_prefix_iff _ _ hlen, BitVec.and_assoc, BitVec.and_self]
  cases addr with
  | v4 x =>
    cases ip with
    | v4 y =>
      refine (contains_insert _ (bitsOf y) f.v4Trie).trans (or_congr Iff.rfl ?_)
      exact (hmasked x y hr).trans (IpAddr.v4.injEq _ _).symm.to_iff
    | v6 y => exact ⟨.inl, fun h => h.resolve_right (fun h => by cases h)⟩
  | v6 x =>
    cases ip with
    | v4 y => exact ⟨.inl, fun h => h.resolve_right (fun h => by cases h)⟩
    | v6 y =>
      refine (contains_insert _ (bitsOf y) f.v6Trie).trans (or_congr Iff.rfl ?_)
      exact (hmasked x y hr).trans (IpAddr.v6.injEq _ _).symm.to_iff

/-- A list contains the addresses that one of its rules covers. -/
theorem contains_ofRules {rules : List Cidr} (hrules : ∀ r ∈ rules, r.Valid) (ip : IpAddr) :
    (ofRules rules).contains ip = true ↔ Covers rules ip := by
  have hfold : ∀ (f : IpFilter), (rules.foldl (fun f r => f.addRule r.rule) f).contains ip = true ↔
      f.contains ip = true ∨ Covers rules ip := by
    induction rules with
    | nil => simp [Covers]
    | cons r rules ih =>
      intro f
      rw [List.forall_mem_cons] at hrules
      rw [List.foldl_cons, ih hrules.2, contains_addRule hrules.1, or_assoc]
      simp [Covers]
  have hempty : ({} : IpFilter).contains ip = false := by
    cases ip <;> exact contains_empty _
  rw [ofRules, hfold, hempty]
  simp

theorem ruleCount_ofRules (rules : List Cidr) : (ofRules rules).ruleCount = rules.length := by
  have hfold : ∀ f : IpFilter, (rules.foldl (fun f r => f.addRule r.rule) f).ruleCount =
      f.ruleCount + rules.length := by
    induction rules with
    | nil => exact fun f => rfl
    | cons r rules ih =>
      intro f
      have hcnt : (f.addRule r.rule).ruleCount = f.ruleCount + 1 := by
        unfold addRule
        dsimp only
        split <;> rfl
      rw [List.foldl_cons, ih, hcnt, List.length_cons]
      omega
  rw [ofRules, hfold]
  exact Nat.zero_add _

end IpFilter

/-! ## The lists as the source has them -/

structure BitFilter where
  v4Trie : BitTrie := { maxBits := 32 }
  v6Trie : BitTrie := { maxBits := 128 }
  ruleCount : Nat := 0

namespace BitFilter

/-- `IpFilter::add_rule`; an IPv4 address is widened to 128 bits. -/
def addRule (f : BitFilter) (rule : IpRule) : Option BitFilter :=
  match rule.network with
  | .v4 bits => (f.v4Trie.insert (bits.setWidth 128) rule.prefixLen).map (fun v4Trie =>
    { f with v4Trie, ruleCount := f.ruleCount + 1 })
  | .v6 bits => (f.v6Trie.insert bits rule.prefixLen).map (fun v6Trie =>
    { f with v6Trie, ruleCount := f.ruleCount + 1 })

/-- Mask the rules and enter them one after the other. -/
def ofRules (rules : List Cidr) : Option BitFilter :=
  rules.foldlM (fun f r => do f.addRule ⟨← applyMaskChecked r.1 r.2, r.2⟩) {}

def isEmpty (f : BitFilter) : Bool := f.ruleCount = 0

def contains (f : BitFilter) (ip : IpAddr) : Option Bool :=
  match ip with
  | .v4 bits => f.v4Trie.contains (bits.setWidth 128)
  | .v6 bits => f.v6Trie.contains bits

/-- The tries of a list, as tries of bit lists. -/
structure Refines (f : BitFilter) (g : IpFilter) : Prop where
  v4Bits : f.v4Trie.maxBits = 32
  v6Bits : f.v6Trie.maxBits = 128
  v4Trie : f.v4Trie.node = g.v4Trie
  v6Trie : f.v6Trie.node = g.v6Trie
  ruleCount : f.ruleCount = g.ruleCount

variable {f : BitFilter} {g : IpFilter}

theorem Refines.addRule (h : f.Refines g) (rule : IpRule) :
    ∃ f', f.addRule rule = some f' ∧ f'.Refines (g.addRule rule) := by
  obtain ⟨network, prefixLen⟩ := rule
  cases network with
  | v4 x =>
    obtain ⟨t, hins, hbit, hnode⟩ := BitTrie.insert_eq x (by decide) h.v4Bits prefixLen
    refine ⟨_, by rw [BitFilter.addRule]; simp only [hins]; rfl, ?_⟩
    exact ⟨hbit, h.v6Bits, hnode.trans (h.v4Trie ▸ rfl), h.v6Trie, congrArg (· + 1) h.ruleCount⟩
  | v6 x =>
    obtain ⟨t, hins, hbit, hnode⟩ := BitTrie.insert_eq x (by decide) h.v6Bits prefixLen
    rw [BitVec.setWidth_eq] at hins
    refine ⟨_, by rw [BitFilter.addRule]; simp only [hins]; rfl, ?_⟩
    exact ⟨h.v4Bits, hbit, h.v4Trie, hnode.trans (h.v6Trie ▸ rfl), congrArg (· + 1) h.ruleCount⟩

/-- No shift is out of range when a list is built. -/
theorem ofRules_refines (rules : List Cidr) :
    ∃ f, ofRules rules = some f ∧ f.Refines (IpFilter.ofRules rules) := by
  have hfold : ∀ (f : BitFilter) (g : IpFilter), f.Refines g →
      ∃ f', rules.foldlM (fun f r => do f.addRule ⟨← applyMaskChecked r.1 r.2, r.2⟩) f = some f' ∧
        f'.Refines (rules.foldl (fun g r => g.addRule r.rule) g) := by
    induction rules with
    | nil => exact fun f g h => ⟨f, rfl, h⟩
    | cons r rules ih =>
      intro f g h
      obtain ⟨f1, hadd, h1⟩ := h.addRule r.rule
      obtain ⟨f', hrest, h'⟩ := ih f1 (g.addRule r.rule) h1
      refine ⟨f', ?_, h'⟩
      rw [List.foldlM_cons, applyMaskChecked_eq]
      show (f.addRule r.rule).bind _ = some f'
      rw [hadd]
      exact hrest
  exact hfold {} {} ⟨rfl, rfl, rfl, rfl, rfl⟩

/-- No shift is out of range when an address is looked up. -/
theorem Refines.contains (h : f.Refines g) (ip : IpAddr) :
    f.contains ip = some (g.contains ip) := by
  cases ip with
  | v4 x =>
    refine (BitTrie.contains_eq x (by decide) h.v4Bits).trans (congrArg some ?_)
    rw [h.v4Trie]
    rfl
  | v6 x =>
    have heq := BitTrie.contains_eq x (by decide) h.v6Bits
    rw [BitVec.setWidth_eq] at heq
    refine heq.trans (congrArg some ?_)
    rw [h.v6Trie]
    rfl

end BitFilter

/-! ## Verdicts -/

structure BitAcl where
  blacklist : BitFilter
  whitelist : BitFilter

namespace BitAcl

def ofRules (black white : List Cidr) : Option BitAcl := do
  some { blacklist := ← BitFilter.ofRules black, whitelist := ← BitFilter.ofRules white }

/-- `IpAcl::check`; the whitelist is looked at only if it has rules. -/
def check (acl : BitAcl) (ip : IpAddr) : Option IpVerdict := do
  if ← acl.blacklist.contains ip then some .blacklisted
  else if acl.whitelist.isEmpty then some .allow
  else if ← acl.whitelist.contains ip then some .allow
  else some .notWhitelisted

theorem ofRules_refines (black white : List Cidr) :
    ∃ acl, ofRules black white = some acl ∧
      acl.blacklist.Refines (IpFilter.ofRules black) ∧
      acl.whitelist.Refines (IpFilter.ofRules white) := by
  obtain ⟨blacklist, hblack, hb⟩ := BitFilter.ofRules_refines black
  obtain ⟨whitelist, hwhite, hw⟩ := BitFilter.ofRules_refines white
  refine ⟨⟨blacklist, whitelist⟩, ?_, hb, hw⟩
  rw [ofRules, hblack, hwhite]
  rfl

/-- The verdict is that of the lists of bits. -/
theorem check_eq {acl : BitAcl} {black white : IpFilter} (hb : acl.blacklist.Refines black)
    (hw : acl.whitelist.Refines white) (ip : IpAddr) :
    acl.check ip = some (IpAcl.check ⟨black, white⟩ ip) := by
  have hempty : acl.whitelist.isEmpty = white.isEmpty := by
    rw [BitFilter.isEmpty, isEmpty, hw.ruleCount]
  simp only [check, IpAcl.check, hb.contains, hw.contains, hempty, bind, Option.bind]
  cases black.contains ip <;> cases white.isEmpty <;> cases white.contains ip <;> rfl

end BitAcl

theorem IpAcl.check_ofRules {black white : List Cidr} (hblack : ∀ r ∈ black, r.Valid)
    (hwhite : ∀ r ∈ white, r.Valid) (ip : IpAddr) :
    let verdict := IpAcl.check ⟨ofRules black, ofRules white⟩ ip
    (verdict = .blacklisted ↔ Covers black ip) ∧
      (verdict = .notWhitelisted ↔ ¬ Covers black ip ∧ white ≠ [] ∧ ¬ Covers white ip) ∧
      (verdict = .allow ↔ ¬ Covers black ip ∧ (white = [] ∨ Covers white ip)) := by
  have hempty : (ofRules white).isEmpty = true ↔ white = [] := by
    rw [isEmpty, ruleCount_ofRules, decide_eq_true_iff, List.length_eq_zero_iff]
  rw [← contains_ofRules hblack, ← contains_ofRules hwhite, ne_eq, ← hempty]
  unfold IpAcl.check
  dsimp only
  cases (ofRules black).contains ip <;> cases (ofRules white).isEmpty <;>
    cases (ofRules white).contains ip <;> decide

/-- **The lists decide membership exactly.** No shift is out of range; a list contains an address if
    and only if a rule covers it, whatever the order of the rules and however often they occur; and
    the verdict is that of the blacklist first, then of a whitelist that has rules. -/
theorem cidr_membership_exact :
    (∀ ip prefixLen, applyMaskChecked ip prefixLen = some (applyMask ip prefixLen)) ∧
    (∀ rules : List Cidr, (∀ r ∈ rules, r.Valid) →
      ∃ f, BitFilter.ofRules rules = some f ∧
        (∀ ip, ∃ b, f.contains ip = some b ∧ (b = true ↔ Covers rules ip)) ∧
        ∀ rules' : List Cidr, (∀ r, r ∈ rules' ↔ r ∈ rules) →
          ∃ f', BitFilter.ofRules rules' = some f' ∧ ∀ ip, f'.contains ip = f.contains ip) ∧
    ∀ black white : List Cidr, (∀ r ∈ black, r.Valid) → (∀ r ∈ white, r.Valid) →
      ∃ acl, BitAcl.ofRules black white = some acl ∧ ∀ ip, ∃ verdict,
        acl.check ip = some verdict ∧ (verdict = .blacklisted ↔ Covers black ip) ∧
          (verdict = .notWhitelisted ↔ ¬ Covers black ip ∧ white ≠ [] ∧ ¬ Covers white ip) ∧
          (verdict = .allow ↔ ¬ Covers black ip ∧ (white = [] ∨ Covers white ip)) := by
  refine ⟨applyMaskChecked_eq, fun rules hrules => ?_, fun black white hblack hwhite => ?_⟩
  · obtain ⟨f, hf, hrefines⟩ := BitFilter.ofRules_refines rules
    refine ⟨f, hf, fun ip => ⟨_, hrefines.contains ip, contains_ofRules hrules ip⟩, ?_⟩
    intro rules' hsame
    obtain ⟨f', hf', hrefines'⟩ := BitFilter.ofRules_refines rules'
    refine ⟨f', hf', fun ip => ?_⟩
    have hrules' : ∀ r ∈ rules', r.Valid := fun r hr => hrules r ((hsame r).mp hr)
    have hcovers : Covers rules' ip ↔ Covers rules ip := by simp only [Covers, hsame]
    rw [hrefines'.contains, hrefines.contains, Option.some.injEq, Bool.eq_iff_iff,
      contains_ofRules hrules', contains_ofRules hrules, hcovers]
  · obtain ⟨acl, hacl, hb, hw⟩ := BitAcl.ofRules_refines black white
    exact ⟨acl, hacl, fun ip =>
      ⟨_, BitAcl.check_eq hb hw ip, IpAcl.check_ofRules hblack hwhite ip⟩⟩

/-! ## The lists of the configuration -/

/-- An entry that parses is a rule with a valid prefix length. -/
theorem IpRule.parse_ok {e : IpEntry} {rule : IpRule} (h : IpRule.parse e = .ok rule) :
    ∃ r : Cidr, r.Valid ∧ rule = r.rule := by
  unfold IpRule.parse at h
  split at h
  · cases h
  · split at h
    · cases h
    · next addr _ =>
      dsimp only at h
      split at h
      · cases h
      · next hlen =>
        cases h
        exact ⟨(addr, _), Nat.le_of_not_lt hlen, rfl⟩

theorem IpFilter.foldlM_ok {entries : List IpEntry} {f0 f : IpFilter}
    (h : entries.foldlM (fun f e => (IpRule.parse e).map f.addRule) f0 = .ok f) :
    ∃ rules : List Cidr, rules.length = entries.length ∧ (∀ r ∈ rules, r.Valid) ∧
      f = rules.foldl (fun f r => f.addRule r.rule) f0 := by
  induction entries generalizing f0 with
  | nil =>
    cases h
    exact ⟨[], rfl, fun r hr => absurd hr List.not_mem_nil, rfl⟩
  | cons e entries ih =>
    rw [List.foldlM_cons] at h
    cases hparse : IpRule.parse e with
    | error err =>
      rw [hparse] at h
      cases h
    | ok rule =>
      rw [hparse] at h
      obtain ⟨r, hr, rfl⟩ := IpRule.parse_ok hparse
      obtain ⟨rules, hlen, hrule, hf⟩ := ih h
      exact ⟨r :: rules, congrArg (· + 1) hlen, List.forall_mem_cons.mpr ⟨hr, hrule⟩, hf⟩

/-- A list of the configuration is built from valid rules, one for each entry. -/
theorem IpFilter.new_ok {entries : List IpEntry} {f : IpFilter}
    (h : IpFilter.new entries = .ok f) :
    ∃ rules : List Cidr, rules.length = entries.length ∧ (∀ r ∈ rules, r.Valid) ∧
      f = IpFilter.ofRules rules :=
  IpFilter.foldlM_ok h

end LumenMQ
