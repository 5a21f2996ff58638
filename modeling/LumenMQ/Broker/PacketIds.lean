import LumenMQ.Broker.Qos
import LumenMQ.Lib.RoundRobin

set_option autoImplicit false

/-! # The allocator of packet identifiers

`allocate_pid` walks through the identifiers from 1 to 65535, starting at its cursor, until it comes
to a free one. It goes round once, so it meets every identifier and none of them twice. -/

namespace LumenMQ

open List

variable {inflight : OutboundInflightTable} {p : UInt16} {n : Nat}

/-- The cursor after an identifier: 65535 is followed by 1. -/
def pidAfter (p : UInt16) : UInt16 := if p + 1 = 0 then 1 else p + 1

theorem pidAfter_ne_zero (p : UInt16) : pidAfter p ≠ 0 := by
  unfold pidAfter
  split_ifs with h
  · decide
  · exact h

theorem toNat_pidAfter (p : UInt16) : (pidAfter p).toNat = RoundRobin.next 1 65535 p.toNat := by
  have hlt : p.toNat < 65536 := p.toNat_lt
  have hsum : (p + 1).toNat = (p.toNat + 1) % 65536 := UInt16.toNat_add p 1
  have hzero : p + 1 = 0 ↔ 65535 ≤ p.toNat := by
    rw [← UInt16.toNat_inj, hsum, UInt16.toNat_zero]
    omega
  unfold pidAfter RoundRobin.next
  simp only [hzero]
  split_ifs
  · rfl
  · rw [hsum]
    omega

/-- The cursor goes round. -/
theorem iterate_pidAfter (hp : p ≠ 0) (i : Nat) : pidAfter^[i] p ≠ 0 ∧
    (pidAfter^[i] p).toNat = 1 + (p.toNat - 1 + i) % 65535 := by
  have hpos : 1 ≤ p.toNat := Nat.pos_of_ne_zero (fun h => hp (UInt16.toNat_inj.1 h))
  have hle : p.toNat ≤ 65535 := Nat.le_of_lt_succ p.toNat_lt
  have hiter : pidAfter^[i] p ≠ 0 ∧
      (pidAfter^[i] p).toNat = (RoundRobin.next 1 65535)^[i] p.toNat := by
    induction i with
    | zero => exact ⟨hp, rfl⟩
    | succ i ih =>
      rw [Function.iterate_succ_apply', Function.iterate_succ_apply', ← ih.2]
      exact ⟨pidAfter_ne_zero _, toNat_pidAfter _⟩
  exact ⟨hiter.1, hiter.2.trans (RoundRobin.iterate_next hpos hle i)⟩

/-- The identifiers that the loop of `allocatePid` looks at, in this order. -/
def pidsTried (inflight : OutboundInflightTable) : Nat → UInt16 → List UInt16
  | 0, _ => []
  | n + 1, p =>
    p :: if p ≠ 0 ∧ inflight.get p = none then [] else pidsTried inflight n (pidAfter p)

theorem map_iterate_range (p : UInt16) (i : Nat) :
    (range (i + 1)).map (pidAfter^[·] p) =
      p :: (range i).map (pidAfter^[·] (pidAfter p)) := by
  rw [range_succ_eq_map, map_cons, map_map]
  rfl

/-- The loop looks at the identifiers from its cursor on. It ends with the first one that is free,
    or all that it looks at are in use. -/
theorem allocatePidLoop_cases (hp : p ≠ 0) (n : Nat) :
    (∃ i < n, pidsTried inflight n p = (range (i + 1)).map (pidAfter^[·] p) ∧
        inflight.get (pidAfter^[i] p) = none ∧
        allocatePidLoop inflight n p = (pidAfter^[i] p, pidAfter^[i + 1] p)) ∨
      (pidsTried inflight n p = (range n).map (pidAfter^[·] p) ∧
        (∀ i < n, inflight.get (pidAfter^[i] p) ≠ none) ∧
        allocatePidLoop inflight n p = (0, pidAfter^[n] p)) := by
  induction n generalizing p with
  | zero => exact .inr ⟨rfl, fun i hi => absurd hi (Nat.not_lt_zero i), rfl⟩
  | succ n ih =>
    by_cases hfree : inflight.get p = none
    · refine .inl ⟨0, Nat.succ_pos n, ?_, hfree, if_pos ⟨hp, hfree⟩⟩
      rw [pidsTried, if_pos ⟨hp, hfree⟩]
      rfl
    · have hno : ¬ (p ≠ 0 ∧ inflight.get p = none) := fun h => hfree h.2
      have hloop : allocatePidLoop inflight (n + 1) p = allocatePidLoop inflight n (pidAfter p) :=
        if_neg hno
      rw [hloop, pidsTried, if_neg hno]
      rcases ih (pidAfter_ne_zero p) with ⟨i, hi, htried, hget, hrest⟩ | ⟨htried, hall, hrest⟩
      · exact .inl ⟨i + 1, Nat.succ_lt_succ hi, by rw [map_iterate_range, htried], hget, hrest⟩
      · refine .inr ⟨by rw [map_iterate_range, htried], fun i hi => ?_, hrest⟩
        cases i with
        | zero => exact hfree
        | succ i => exact hall i (Nat.lt_of_succ_lt_succ hi)

/-- In one round, the cursor comes to every identifier, -/
theorem exists_iterate_pidAfter (hp : p ≠ 0) {id : UInt16} (hid : id ≠ 0) :
    ∃ i < 65535, pidAfter^[i] p = id := by
  have hpos : ∀ {q : UInt16}, q ≠ 0 → 1 ≤ q.toNat ∧ q.toNat ≤ 65535 := fun hq =>
    ⟨Nat.pos_of_ne_zero (fun h => hq (UInt16.toNat_inj.1 h)), Nat.le_of_lt_succ (UInt16.toNat_lt _)⟩
  obtain ⟨i, hi, hturn⟩ :=
    RoundRobin.exists_iterate_next (hpos hp).1 (hpos hp).2 (hpos hid).1 (hpos hid).2
  refine ⟨i, hi, UInt16.toNat_inj.1 ?_⟩
  rw [(iterate_pidAfter hp i).2, ← hturn, RoundRobin.iterate_next (hpos hp).1 (hpos hp).2]

/-- and to none of them twice. -/
theorem nodup_iterate_pidAfter (hp : p ≠ 0) (hn : n ≤ 65535) :
    ((range n).map (pidAfter^[·] p)).Nodup := by
  refine Nodup.map_on (fun i hi j hj h => ?_) nodup_range
  have hnat := congrArg UInt16.toNat h
  rw [(iterate_pidAfter hp i).2, (iterate_pidAfter hp j).2] at hnat
  rw [mem_range] at hi hj
  omega

/-- **The allocator is complete.** From every cursor it finds a free identifier if there is one; it
    gives up exactly if all 65535 are in use. It looks at no identifier twice and never at 0, the
    last one that it looks at is the one it returns, and it leaves the cursor behind that one. -/
theorem allocatePid_complete (inflight : OutboundInflightTable) (next : UInt16) (hnext : next ≠ 0) :
    ((allocatePid next inflight).1 = 0 ↔ ∀ id ≠ 0, (inflight.get id).isSome) ∧
    ((allocatePid next inflight).1 ≠ 0 →
      inflight.get (allocatePid next inflight).1 = none ∧
      (pidsTried inflight 65535 next).getLast? = some (allocatePid next inflight).1 ∧
      (allocatePid next inflight).2 = pidAfter (allocatePid next inflight).1) ∧
    (allocatePid next inflight).2 ≠ 0 ∧ (pidsTried inflight 65535 next).Nodup ∧
    0 ∉ pidsTried inflight 65535 next := by
  have hzero : ∀ n, 0 ∉ (range n).map (pidAfter^[·] next) := by
    intro n h
    obtain ⟨i, -, hi⟩ := mem_map.1 h
    exact (iterate_pidAfter hnext i).1 hi
  unfold allocatePid
  -- the number of rounds is not to be unfolded
  obtain ⟨rounds, hrounds⟩ : ∃ n, n = 65535 := ⟨_, rfl⟩
  rw [← hrounds]
  rcases allocatePidLoop_cases hnext rounds with ⟨i, hi, htried, hget, hresult⟩ | ⟨htried, hall, hresult⟩
  · have hid := (iterate_pidAfter hnext i).1
    rw [hresult, htried]
    refine ⟨iff_of_false hid (fun h => ?_), fun _ => ⟨hget, ?_, ?_⟩,
      (iterate_pidAfter hnext (i + 1)).1, nodup_iterate_pidAfter hnext (hrounds ▸ hi), hzero _⟩
    · simpa [hget] using h _ hid
    · rw [range_succ, map_append, map_singleton, getLast?_concat]
    · exact Function.iterate_succ_apply' ..
  · rw [hresult, htried]
    refine ⟨iff_of_true rfl (fun id hid => ?_), fun h => absurd rfl h,
      (iterate_pidAfter hnext rounds).1, nodup_iterate_pidAfter hnext hrounds.le, hzero _⟩
    obtain ⟨i, hi, rfl⟩ := exists_iterate_pidAfter hnext hid
    exact Option.isSome_iff_ne_none.2 (hall i (hrounds ▸ hi))

/-- The last identifier is given out, and the cursor starts over. -/
theorem allocatePid_complete_last : (65535 : UInt16) ≠ 0 ∧
    allocatePid 65535 ∅ = (65535, 1) ∧ (allocatePid 65535 ∅).2 = pidAfter 65535 := by
  refine ⟨by decide, rfl, ?_⟩
  exact ((allocatePid_complete ∅ 65535 (by decide)).2.1 (by decide)).2.2

end LumenMQ
