import LumenMQ.Broker.SubscriptionIndexes
import LumenMQ.Lib.IndexPair
import LumenMQ.Lib.Runs

set_option autoImplicit false

/-! # Calls on the subscription tree at the same time

The trie, the groups and the lists of the clients have a lock each, and no call holds two of them.
Here the calls are taken apart into their sections under a lock. Every section is a step of its own,
and the sections of any number of calls come in any order. The indexes agree when all calls have
returned, provided that no two calls that leave a client's filter in different states were under way
at the same time. -/

namespace LumenMQ

open Option FinMap SubscriptionTree

/-! ## Sections -/

/-- What a call does under one lock. -/
inductive LockSection where
  /-- `subscribe` enters the client in the trie or in a group. -/
  | store (clientId filter : String) (qos : QoS)
  /-- `subscribe` enters the filter in the list of the client. -/
  | index (clientId filter : String) (qos : QoS)
  /-- `unsubscribe` takes the client out of the trie or out of a group. -/
  | remove (clientId filter : String)
  /-- `unsubscribe` takes the filter out of the list, if the client was there. -/
  | unindex (clientId filter : String)
  /-- `unsubscribe_all` takes the client out of the trie. -/
  | clearRoot (clientId : String)
  /-- `unsubscribe_all` collects the groups of the client. -/
  | readShared (clientId : String)
  /-- `unsubscribe_all` takes the client out of the groups it has collected. -/
  | clearShared (clientId : String) (keys : List (String × String))
  /-- `unsubscribe_all` removes the list of the client. -/
  | clearReverse (clientId : String)

namespace SubscriptionTree

/-- The tree after a section, and the next section of the call. -/
def perform (t : SubscriptionTree) : LockSection → SubscriptionTree × Option LockSection
  | .store c f q => (t.storeFilter c f q, some (.index c f q))
  | .index c f q => (t.indexFilter c f q, none)
  | .remove c f =>
    let (removed, t) := t.removeFilter c f
    (t, if removed then some (.unindex c f) else none)
  | .unindex c f => (t.unindexFilter c f, none)
  | .clearRoot c => ({ t with root := t.root.removeAll c }, some (.readShared c))
  | .readShared c =>
    let keys := t.sharedKeysOf c
    (t, some (if keys = [] then .clearReverse c else .clearShared c keys))
  | .clearShared c keys => (t.clearMembers c keys, some (.clearReverse c))
  | .clearReverse c => ({ t with reverse := t.reverse.erase c }, none)

end SubscriptionTree

/-- The first section of a call. A filter that is not accepted ends the call before. -/
def SubOp.firstSection : SubOp → Option LockSection
  | .subscribe c f q => if SubscriptionTree.acceptsFilter f then some (.store c f q) else none
  | .unsubscribe c f => some (.remove c f)
  | .unsubscribeAll c => some (.clearRoot c)

/-! ### One call alone -/

namespace SubscriptionTree

/-- The sections of a call one after the other, with nothing in between. -/
inductive Completes : SubscriptionTree → Option LockSection → SubscriptionTree → Prop
  | done (t : SubscriptionTree) : Completes t none t
  | next {t t' : SubscriptionTree} {sec : LockSection}
      (h : Completes (t.perform sec).1 (t.perform sec).2 t') : Completes t (some sec) t'

/-- **The sections are the call.** A call whose sections are not interrupted does to the tree what
    the method does, and ends. -/
theorem completes_onTree (t : SubscriptionTree) (op : SubOp) :
    t.Completes op.firstSection (op.onTree t) := by
  cases op with
  | subscribe c f q =>
    show t.Completes (if acceptsFilter f then _ else _) (t.subscribe c f q).2
    rw [subscribe_eq]
    split_ifs
    · exact .next (.next (.done _))
    · exact .done t
  | unsubscribe c f =>
    show t.Completes _ (t.unsubscribe c f).2
    rw [unsubscribe_eq]
    refine .next ?_
    show (t.removeFilter c f).2.Completes (if (t.removeFilter c f).1 then _ else _) _
    split_ifs
    · exact .next (.done _)
    · exact .done _
  | unsubscribeAll c =>
    refine .next (.next ?_)
    show Completes _ (some (if t.sharedKeysOf c = [] then _ else _)) (t.unsubscribeAll c)
    split_ifs with hkeys
    · refine .next ?_
      simpa [perform, unsubscribeAll, hkeys] using Completes.done (t.unsubscribeAll c)
    · exact .next (.next (.done _))

end SubscriptionTree

/-! ## Calls that clash -/

open LockSection

namespace LockSection

variable {sec next : LockSection}
variable {k : String × String}

def clientId : LockSection → String
  | store c _ _ | index c _ _ | remove c _ | unindex c _ | clearRoot c | readShared c
  | clearShared c _ | clearReverse c => c

/-- The filter of the call; `unsubscribe_all` is about all of them. -/
def filter : LockSection → Option String
  | store _ f _ | index _ f _ | remove _ f | unindex _ f => some f
  | clearRoot _ | readShared _ | clearShared _ _ | clearReverse _ => none

/-- What the call leaves behind. -/
def value : LockSection → Option QoS
  | store _ _ q | index _ _ q => some q
  | _ => none

/-- Two calls are about the same filter of a client and leave different things behind. -/
def clashes (a b : LockSection) : Bool :=
  a.clientId = b.clientId ∧ a.value ≠ b.value ∧
    (a.filter = none ∨ b.filter = none ∨ a.filter = b.filter)

/-- The clients and filters for which the call has done its work in the trie and in the groups. -/
def written : LockSection → String × String → Prop
  | store _ _ _, _ | remove _ _, _ | clearRoot _, _ => False
  | index c f _, k | unindex c f, k => k = (c, f)
  | readShared c, k => k.1 = c ∧ parseSharedFilter k.2 = none
  | clearShared c keys, k => k.1 = c ∧ ∀ key ∈ keys, parseSharedFilter k.2 ≠ some key
  | clearReverse c, k => k.1 = c

def stage (sec : LockSection) : IndexPair.Stage (String × String) (Option QoS) :=
  { written := sec.written, value := sec.value }

theorem clashes_comm (a b : LockSection) : a.clashes b = b.clashes a := by
  unfold clashes
  rw [decide_eq_decide]
  constructor <;>
  · rintro ⟨hc, hv, hf⟩
    exact ⟨hc.symm, hv.symm, by tauto⟩

theorem clientId_of_written (h : sec.written k) : k.1 = sec.clientId := by
  cases sec with
  | store | remove | clearRoot => exact absurd h id
  | index | unindex => exact congrArg Prod.fst h
  | readShared | clearShared => exact h.1
  | clearReverse => exact h

theorem filter_of_written (h : sec.written k) : sec.filter = none ∨ sec.filter = some k.2 := by
  cases sec with
  | store | remove | clearRoot => exact absurd h id
  | index | unindex => exact .inr (congrArg some (congrArg Prod.snd h).symm)
  | readShared | clearShared | clearReverse => exact .inl rfl

/-- Calls that do not clash write the same, where they write to the same place. -/
theorem value_eq_of_written {a b : LockSection} (hclash : a.clashes b = false) (ha : a.written k)
    (hb : b.written k) : a.value = b.value := by
  by_contra hne
  refine Bool.eq_false_iff.1 hclash (decide_eq_true ⟨?_, hne, ?_⟩)
  · rw [← clientId_of_written ha, ← clientId_of_written hb]
  · rcases filter_of_written ha with hfa | hfa
    · exact .inl hfa
    · rcases filter_of_written hb with hfb | hfb
      · exact .inr (.inl hfb)
      · exact .inr (.inr (hfa.trans hfb.symm))

/-- A call enters only what is accepted. -/
def Valid : LockSection → Prop
  | store _ f _ => SubscriptionTree.acceptsFilter f = true
  | _ => True

end LockSection

namespace SubscriptionTree

variable {t t' : SubscriptionTree} {sec next : LockSection}

theorem Kept.perform {P : SubscriptionTree → Prop} (hP : Kept P) (h : P t) (hvalid : sec.Valid) :
    P (t.perform sec).1 := by
  cases sec with
  | store c f q => exact hP.storeFilter c q hvalid h
  | index c f q => exact hP.indexFilter c f q h
  | remove c f => exact hP.removeFilter c f h
  | unindex c f => exact hP.unindexFilter c f h
  | clearRoot c => exact hP.removeAll c h
  | readShared c => exact h
  | clearShared c keys => exact hP.clearMembers c keys h
  | clearReverse c => exact hP.erase c h

/-- One pair changed in a reading of the tree. -/
theorem pair_changed {qosOf qosOf' : String → String → Option QoS} {c f : String} {v : Option QoS}
    (h : ∀ c' f', qosOf' c' f' = if c' = c ∧ f' = f then v else qosOf c' f') :
    (∀ k : String × String, k = (c, f) → qosOf' k.1 k.2 = v) ∧
      ∀ k : String × String, k ≠ (c, f) → qosOf' k.1 k.2 = qosOf k.1 k.2 := by
  refine ⟨?_, fun k hk => ?_⟩
  · rintro k rfl
    rw [h, if_pos ⟨rfl, rfl⟩]
  · rw [h, if_neg (fun heq => hk (Prod.ext heq.1 heq.2))]

/-- A section that is not the last adds to what the call has written, and leaves the lists alone. -/
theorem perform_some (h : t.perform sec = (t', some next))
    (hheld : ∀ k : String × String, sec.written k → t.storedQos k.1 k.2 = sec.value) :
    (∀ k, sec.written k → next.written k) ∧
    (∀ k : String × String, next.written k → t'.storedQos k.1 k.2 = next.value) ∧
    (∀ k : String × String, ¬ next.written k → t'.storedQos k.1 k.2 = t.storedQos k.1 k.2) ∧
    t'.listedQos = t.listedQos := by
  cases sec with
  | store c f q =>
    cases h
    obtain ⟨hin, hout⟩ := pair_changed (t.storedQos_storeFilter c f q)
    exact ⟨fun k hk => absurd hk id, hin, hout, listedQos_of_reverse (reverse_storeFilter t c f q)⟩
  | remove c f =>
    simp only [perform, Prod.mk.injEq] at h
    obtain ⟨rfl, hnext⟩ := h
    split_ifs at hnext
    cases hnext
    obtain ⟨hin, hout⟩ := pair_changed (t.storedQos_removeFilter c f)
    exact ⟨fun k hk => absurd hk id, hin, hout, listedQos_of_reverse (reverse_removeFilter t c f)⟩
  | clearRoot c =>
    cases h
    refine ⟨fun k hk => absurd hk id, ?_, ?_, rfl⟩
    · exact fun k hk => (t.storedQos_removeAll c k.1 k.2).trans (if_pos hk)
    · exact fun k hk => (t.storedQos_removeAll c k.1 k.2).trans (if_neg hk)
  | readShared c =>
    simp only [perform, Prod.mk.injEq, some.injEq] at h
    obtain ⟨rfl, rfl⟩ := h
    have hwrite : ∀ k, (if t.sharedKeysOf c = [] then clearReverse c
        else .clearShared c (t.sharedKeysOf c)).written k ↔
          k.1 = c ∧ ∀ key ∈ t.sharedKeysOf c, parseSharedFilter k.2 ≠ some key := by
      intro k
      split_ifs with hks
      · simp [written, hks]
      · rfl
    have hval : (if t.sharedKeysOf c = [] then clearReverse c
        else .clearShared c (t.sharedKeysOf c)).value = none := by
      split_ifs <;> rfl
    refine ⟨?_, ?_, fun k _ => rfl, rfl⟩
    · intro k hk
      exact (hwrite k).2 ⟨hk.1, fun key _ => by simp [hk.2]⟩
    · intro k hk
      rw [hval]
      obtain ⟨hc, hks⟩ := (hwrite k).1 hk
      cases hf : parseSharedFilter k.2 with
      | none => exact hheld k ⟨hc, hf⟩
      | some key =>
        -- the client is in none of the groups that were not collected
        have hmem : key ∉ t.sharedKeysOf c := fun hmem => hks key hmem hf
        rw [mem_sharedKeysOf] at hmem
        simpa [storedQos, hf, hc] using hmem
  | clearShared c keys =>
    cases h
    refine ⟨fun k hk => hk.1, ?_, ?_, rfl⟩
    · intro k hk
      rw [storedQos_clearMembers]
      split_ifs with hkey
      · rfl
      · exact hheld k ⟨hk, fun key hmem heq => hkey ⟨hk, key, hmem, heq⟩⟩
    · intro k hk
      rw [storedQos_clearMembers, if_neg (fun h => hk h.1)]
  | index | unindex | clearReverse => cases h

/-- The last section of a call writes to the lists what the call has written elsewhere. -/
theorem perform_none (h : t.perform sec = (t', none)) :
    t'.storedQos = t.storedQos ∧
    (∀ k : String × String, sec.written k → t'.listedQos k.1 k.2 = sec.value) ∧
    (∀ k : String × String, ¬ sec.written k → t'.listedQos k.1 k.2 = t.listedQos k.1 k.2) := by
  cases sec with
  | index c f q =>
    cases h
    exact ⟨rfl, pair_changed (t.listedQos_indexFilter c f q)⟩
  | unindex c f =>
    cases h
    exact ⟨storedQos_unindexFilter t c f, pair_changed (t.listedQos_unindexFilter c f)⟩
  | remove c f =>
    simp only [perform, Prod.mk.injEq] at h
    obtain ⟨rfl, hnext⟩ := h
    -- the client was not there, so nothing was removed
    have hnone : t.storedQos c f = none := by
      split_ifs at hnext with hremoved
      simpa [removeFilter_fst] using hremoved
    refine ⟨?_, fun k hk => absurd hk id, fun k _ => ?_⟩
    · funext c' f'
      rw [storedQos_removeFilter]
      split_ifs with heq
      · rw [heq.1, heq.2, hnone]
      · rfl
    · rw [listedQos_of_reverse (reverse_removeFilter t c f)]
  | clearReverse c =>
    cases h
    refine ⟨rfl, ?_, ?_⟩
    · exact fun k hk => (t.listedQos_erase c k.1 k.2).trans (if_pos hk)
    · exact fun k hk => (t.listedQos_erase c k.1 k.2).trans (if_neg hk)
  | store | clearRoot | readShared | clearShared => cases h

/-- The next section is of the same call. -/
theorem perform_next (h : (t.perform sec).2 = some next) :
    next.clientId = sec.clientId ∧ next.filter = sec.filter ∧ next.value = sec.value ∧
      next.Valid := by
  cases sec with
  | store | clearRoot | clearShared =>
    cases h
    exact ⟨rfl, rfl, rfl, trivial⟩
  | remove c f =>
    simp only [perform] at h
    split_ifs at h
    cases h
    exact ⟨rfl, rfl, rfl, trivial⟩
  | readShared c =>
    simp only [perform] at h
    split_ifs at h <;> cases h <;> exact ⟨rfl, rfl, rfl, trivial⟩
  | index | unindex | clearReverse => cases h

end SubscriptionTree

namespace SubOp

variable {sec : LockSection}

theorem firstSection_written (op : SubOp) (h : op.firstSection = some sec) (k : String × String) :
    ¬ sec.written k := by
  cases op with
  | subscribe c f q =>
    simp only [firstSection] at h
    split_ifs at h
    cases h
    exact id
  | unsubscribe | unsubscribeAll =>
    cases h
    exact id

theorem firstSection_valid (op : SubOp) (h : op.firstSection = some sec) : sec.Valid := by
  cases op with
  | subscribe c f q =>
    simp only [firstSection] at h
    split_ifs at h with hacc
    cases h
    exact hacc
  | unsubscribe | unsubscribeAll =>
    cases h
    trivial

end SubOp

/-! ## The machine -/

structure SubscriptionRace where
  tree : SubscriptionTree := {}
  /-- The calls that are under way, each with the section it enters next. -/
  calls : FinMap Nat LockSection := ∅

inductive SubscriptionEvent where
  /-- A call begins. -/
  | begins (i : Nat) (op : SubOp)
  /-- A call gets its lock and runs a section. -/
  | locks (i : Nat)

namespace SubscriptionRace

variable {s s' : SubscriptionRace} {op : SubOp} {i : Nat}

/-- Note what a call does next, if it is not over. -/
def put (calls : FinMap Nat LockSection) (i : Nat) : Option LockSection → FinMap Nat LockSection
  | some sec => calls.insert i sec
  | none => calls.erase i

def step (s : SubscriptionRace) : SubscriptionEvent → Option SubscriptionRace
  | .begins i op =>
    match s.calls.get i with
    | some _ => none
    | none => some { s with calls := put s.calls i op.firstSection }
  | .locks i =>
    (s.calls.get i).map (fun sec =>
      let (tree, next) := s.tree.perform sec
      { tree, calls := put s.calls i next })

/-- All calls have returned. -/
def Finished (s : SubscriptionRace) : Prop := ∀ i, s.calls.get i = none

/-- No call begins that clashes with one that is under way. -/
def keepsApart (s : SubscriptionRace) : SubscriptionEvent → Bool
  | .begins _ op =>
    op.firstSection.all (fun sec => s.calls.toPairs.all (fun e => !sec.clashes e.2))
  | .locks _ => true

/-- How far the calls are. -/
def stages (s : SubscriptionRace) : Nat → Option (IndexPair.Stage (String × String) (Option QoS)) :=
  fun i => (s.calls.get i).map stage

def stored (s : SubscriptionRace) (k : String × String) : Option QoS := s.tree.storedQos k.1 k.2

def listed (s : SubscriptionRace) (k : String × String) : Option QoS := s.tree.listedQos k.1 k.2

theorem get_put (calls : FinMap Nat LockSection) (i j : Nat) (next : Option LockSection) :
    (put calls i next).get j = if j = i then next else calls.get j := by
  cases next with
  | some sec => exact get_insert calls i j sec
  | none => exact get_erase calls i j

theorem stages_put (calls : FinMap Nat LockSection) (tree tree' : SubscriptionTree) (i : Nat)
    (next : Option LockSection) :
    ({ tree := tree', calls := put calls i next } : SubscriptionRace).stages =
      Function.update ({ tree, calls } : SubscriptionRace).stages i
        (next.map stage) := by
  funext j
  by_cases hj : j = i
  · subst hj
    rw [Function.update_self]
    simp [stages, get_put]
  · rw [Function.update_of_ne hj]
    simp [stages, get_put, hj]

/-- What holds while no calls clash. -/
structure Sound (s : SubscriptionRace) : Prop where
  formed : s.tree.Formed
  trim : s.tree.Trim
  coherent : IndexPair.Coherent s.stored s.listed s.stages
  valid : ∀ i sec, s.calls.get i = some sec → sec.Valid
  apart : ∀ i j a b, i ≠ j → s.calls.get i = some a → s.calls.get j = some b →
    a.clashes b = false

theorem sound_start : Sound {} where
  formed := reads_empty.toFormed
  trim := trim_empty
  coherent := by
    refine ⟨by simp [stages], fun k _ => ?_⟩
    simp only [stored, listed, storedQos_empty, listedQos_empty]
  valid := by simp
  apart := by simp

/-- What is left to show when a call goes on. -/
theorem Sound.put (hs : s.Sound) {next : Option LockSection} {t' : SubscriptionTree}
    (hformed : t'.Formed) (htrim : t'.Trim)
    (hcoherent : IndexPair.Coherent (stored { tree := t', calls := put s.calls i next })
      (listed { tree := t', calls := put s.calls i next })
      (stages { tree := t', calls := put s.calls i next }))
    (hval : ∀ sec, next = some sec → sec.Valid)
    (hapart : ∀ j b, j ≠ i → s.calls.get j = some b → ∀ sec, next = some sec →
      sec.clashes b = false) : Sound { tree := t', calls := put s.calls i next } where
  formed := hformed
  trim := htrim
  coherent := hcoherent
  valid := by
    intro j sec hj
    rw [get_put] at hj
    split_ifs at hj
    · exact hval sec hj
    · exact hs.valid j sec hj
  apart := by
    intro j l a b hne ha hb
    rw [get_put] at ha hb
    split_ifs at ha hb with hji hli hli
    · exact absurd (hji.trans hli.symm) hne
    · exact hapart l b hli hb a ha
    · rw [clashes_comm]
      exact hapart j a hji ha b hb
    · exact hs.apart j l a b hne ha hb

theorem locks_sound (hs : s.Sound) (hstep : s.step (.locks i) = some s') : s'.Sound := by
  obtain ⟨sec, hsec, rfl⟩ := map_eq_some_iff.1 hstep
  rcases hperform : s.tree.perform sec with ⟨t', next⟩
  have hformed := kept_formed.perform hs.formed (hs.valid i sec hsec)
  have htrim := kept_trim.perform hs.trim (hs.valid i sec hsec)
  rw [hperform] at hformed htrim
  have hheld : ∀ k, sec.written k → s.tree.storedQos k.1 k.2 = sec.value :=
    hs.coherent.held i sec.stage (by simp [stages, hsec])
  have hnext : ∀ sec', next = some sec' → sec'.clientId = sec.clientId ∧
      sec'.filter = sec.filter ∧ sec'.value = sec.value ∧ sec'.Valid := by
    rintro sec' rfl
    exact perform_next (congrArg Prod.snd hperform)
  have hapart : ∀ j b, j ≠ i → s.calls.get j = some b → ∀ sec', next = some sec' →
      sec'.clashes b = false := by
    intro j b hj hb sec' hsec'
    obtain ⟨hc, hf, hv, -⟩ := hnext sec' hsec'
    have h := hs.apart i j sec b hj.symm hsec hb
    rwa [clashes, ← hc, ← hf, ← hv] at h
  refine hs.put hformed htrim ?_ (fun sec' hsec' => (hnext sec' hsec').2.2.2) hapart
  rw [stages_put s.calls s.tree t' i next]
  cases next with
  | some sec' =>
    obtain ⟨hkeep, hin, hout, hreverse⟩ := perform_some hperform hheld
    have hlisted : ({ tree := t', calls := put s.calls i (some sec') } : SubscriptionRace).listed =
        s.listed := by
      funext k
      simp only [listed, hreverse]
    rw [hlisted]
    refine hs.coherent.advance sec'.stage ?_ hin hout ?_
    · intro p hp
      simp only [stages, hsec, map_some, some.injEq] at hp
      subst hp
      exact hkeep
    · intro j p hj hp k hk hk'
      obtain ⟨b, hb, rfl⟩ := map_eq_some_iff.1 hp
      exact (value_eq_of_written (hapart j b hj hb sec' rfl) hk' hk).symm
  | none =>
    obtain ⟨hstored, hin, hout⟩ := perform_none hperform
    have hstored' : ({ tree := t', calls := put s.calls i none } : SubscriptionRace).stored =
        s.stored := by
      funext k
      simp only [stored, hstored]
    rw [hstored']
    exact hs.coherent.finish sec.stage (by simp [stages, hsec]) hin hout

theorem begins_sound (hs : s.Sound) (hcond : s.keepsApart (.begins i op) = true)
    (hstep : s.step (.begins i op) = some s') : s'.Sound := by
  have hnone : s.calls.get i = none := by
    cases hi : s.calls.get i with
    | none => rfl
    | some sec => simp [step, hi] at hstep
  obtain rfl : { s with calls := put s.calls i op.firstSection } = s' := by
    simpa [step, hnone] using hstep
  have hapart : ∀ j b, s.calls.get j = some b → ∀ sec, op.firstSection = some sec →
      sec.clashes b = false := by
    intro j b hb sec hsec
    simp only [keepsApart, hsec, all_some, List.all_eq_true] at hcond
    simpa using hcond (j, b) (mem_toPairs.2 hb)
  refine hs.put hs.formed hs.trim ?_ (fun sec hsec => op.firstSection_valid hsec)
    (fun j b _ hb => hapart j b hb)
  rw [stages_put s.calls s.tree s.tree i op.firstSection]
  cases hsec : op.firstSection with
  | some sec =>
    -- a call that begins has written nothing
    have hfresh := op.firstSection_written hsec
    refine hs.coherent.advance sec.stage ?_ ?_ (fun k _ => rfl) ?_
    · simp [stages, hnone]
    · exact fun k hk => absurd hk (hfresh k)
    · exact fun j p _ _ k _ hk => absurd hk (hfresh k)
  | none =>
    have hsame : Function.update s.stages i none = s.stages := by
      refine Function.update_eq_self_iff.2 ?_
      simp [stages, hnone]
    exact hsame.symm ▸ hs.coherent

/-- A step that brings no clash. -/
theorem step_sound {e : SubscriptionEvent} (hs : s.Sound) (hcond : s.keepsApart e = true)
    (hstep : s.step e = some s') : s'.Sound := by
  cases e with
  | begins i op => exact begins_sound hs hcond hstep
  | locks i => exact locks_sound hs hstep

/-- **The indexes agree when all calls have returned**, in every run in which no call begins while
    one is under way that leaves the same filter of the same client in another state. -/
theorem indexesAgree_of_keepsApart {es : List SubscriptionEvent}
    (hrun : Runs.run step {} es = some s)
    (hmeets : Runs.Meets step (fun s e => s.keepsApart e = true) {} es) (hdone : s.Finished) :
    s.tree.IndexesAgree := by
  have hs : s.Sound := Runs.run_invariant (fun _ _ _ hs hcond hstep => step_sound hs hcond hstep)
    sound_start hmeets hrun
  have hagree := hs.coherent.eq_of_idle (fun i => by simp [stages, hdone i])
  have hlisted : s.tree.listedQos = s.tree.storedQos := by
    funext c f
    exact (congrFun hagree (c, f)).symm
  exact indexesAgree_of_trim (Reads.sound ⟨hs.formed, rfl, hlisted⟩) hs.trim

/-! ### Clashes -/

/-- Two clients subscribe, one of them twice, and the other leaves; then all calls return. -/
def apartRun : List SubscriptionEvent :=
  [.begins 0 (.subscribe "a" "t" .atLeastOnce), .begins 1 (.subscribe "b" "t" .atMostOnce),
    .begins 2 (.subscribe "a" "u" .atMostOnce), .locks 2, .locks 0, .locks 1, .locks 1,
    .begins 1 (.unsubscribeAll "b"), .locks 1, .locks 2, .locks 1, .locks 0, .locks 1]

/-- The calls of an `unsubscribe_all` come between the two sections of a `subscribe`. -/
def clashRun : List SubscriptionEvent :=
  [.begins 0 (.subscribe "a" "t" .atLeastOnce), .locks 0, .begins 1 (.unsubscribeAll "a"),
    .locks 1, .locks 1, .locks 1, .locks 0]

theorem indexesAgree_of_keepsApart_apart : ∃ s, Runs.run step {} apartRun = some s ∧ s.Finished ∧
    s.tree.subscriptionsOf "a" = [("u", .atMostOnce), ("t", .atLeastOnce)] ∧
    s.tree.subscriptionsOf "b" = [] ∧ s.tree.IndexesAgree := by
  obtain ⟨s, hrun, hp⟩ := Runs.exists_run step {} apartRun
    (fun s => s.calls.entries.isEmpty &&
      (s.tree.subscriptionsOf "a" = [("u", .atMostOnce), ("t", .atLeastOnce)] ∧
        s.tree.subscriptionsOf "b" = [])) (by decide +kernel)
  obtain ⟨hempty, hlists⟩ := Bool.and_eq_true_iff.1 hp
  obtain ⟨ha, hb⟩ := of_decide_eq_true hlists
  have hdone : s.Finished := get_eq_none_of_entries_nil (List.isEmpty_iff.1 hempty)
  exact ⟨s, hrun, hdone, ha, hb, indexesAgree_of_keepsApart hrun
    (Runs.meets_of_check keepsApart (fun _ _ h => h) (by decide +kernel)) hdone⟩

/-- The filter is in the list of the client, but not in the trie. -/
theorem listed_not_stored : ∃ s, Runs.run step {} clashRun = some s ∧ s.Finished ∧
    s.tree.subscriptionsOf "a" = [("t", .atLeastOnce)] ∧ s.tree.storedQos "a" "t" = none ∧
    ¬ s.tree.IndexesAgree := by
  obtain ⟨s, hrun, hp⟩ := Runs.exists_run step {} clashRun
    (fun s => s.calls.entries.isEmpty &&
      (s.tree.subscriptionsOf "a" = [("t", .atLeastOnce)] ∧ s.tree.storedQos "a" "t" = none))
    (by decide +kernel)
  obtain ⟨hempty, hlists⟩ := Bool.and_eq_true_iff.1 hp
  obtain ⟨hlisted, hstored⟩ := of_decide_eq_true hlists
  refine ⟨s, hrun, get_eq_none_of_entries_nil (List.isEmpty_iff.1 hempty), hlisted, hstored,
    ?_⟩
  intro hagree
  have hsome := (hagree.listed_iff "a" "t" .atLeastOnce).1 (by simp [hlisted])
  rw [hstored] at hsome
  simp at hsome

end SubscriptionRace

end LumenMQ
