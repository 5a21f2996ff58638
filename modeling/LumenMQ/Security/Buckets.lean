import Mathlib.Tactic.Ring
import LumenMQ.Security.RateLimit

set_option autoImplicit false

/-! # Token buckets

A bucket by itself, asked for any numbers of tokens at any times. `RateLimit` follows the bucket of
a client through reconnects; here the amounts vary and the bucket stays. -/

namespace LumenMQ

open List

open Metering

namespace TokenBucket

/-- A call of `try_consume`: when, and for how many tokens. -/
abbrev Call := Instant × ℕ

/-- The bucket after calls. -/
def after (b : TokenBucket) (calls : List Call) : TokenBucket :=
  calls.foldl (fun b call => (b.tryConsume call.1 call.2).2) b

/-- The calls that are granted. -/
def granted (b : TokenBucket) : List Call → List Call
  | [] => []
  | call :: calls =>
    let (ok, b) := b.tryConsume call.1 call.2
    if ok then call :: granted b calls else granted b calls

/-- The tokens granted in a stretch of time. -/
def total (calls : List Call) (s e : Instant) : ℕ :=
  ((calls.filter (fun call => s ≤ call.1 ∧ call.1 ≤ e)).map Prod.snd).sum

/-- A bucket at the time of its last call, with the tokens it has given out. -/
structure Gave (b : TokenBucket) (K r : ℕ) (given : List Call) (now : Instant) : Prop where
  capacity : b.capacity = K
  refills : b.refillPerSecond = r
  last : b.lastRefill = now
  metered : Metered (K : ℚ) (r / 1000000000 : ℚ) (units given) now b.tokens

variable {b : TokenBucket} {K r : ℕ} {given : List Call} {now : Instant}

theorem gave_new (K r : ℕ) (now : Instant) : (new K r now).Gave K r [] now where
  capacity := rfl
  refills := rfl
  last := rfl
  metered := .full (Nat.cast_nonneg K) (div_nonneg (Nat.cast_nonneg r) (by norm_num)) now

/-- The bucket fills up until a call. -/
theorem Gave.refill (h : b.Gave K r given now) {now' : Instant} (hnow : now ≤ now') :
    (b.refill now').Gave K r given now' := by
  have hrate : (0 : ℚ) ≤ r / 1000000000 := div_nonneg (Nat.cast_nonneg r) (by norm_num)
  have htick : b.perTick = r / 1000000000 := by rw [perTick, h.refills]
  have hcap : b.tokens ≤ b.capacity := by
    rw [h.capacity]
    exact h.metered.le_cap
  have hlast : b.lastRefill ≤ now' := h.last.trans_le hnow
  refine ⟨by rw [capacity_refill, h.capacity], by rw [refillPerSecond_refill, h.refills],
    lastRefill_refill hlast, ?_⟩
  rw [tokens_refill hcap hlast, htick, h.capacity, h.last]
  exact h.metered.wait hrate hnow

/-- A call is granted if there are tokens enough, and then they are gone. -/
theorem Gave.tryConsume (h : b.Gave K r given now) {call : Call} (hnow : now ≤ call.1) :
    (b.tryConsume call.1 call.2).2.Gave K r
      (if (b.tryConsume call.1 call.2).1 then given ++ [call] else given) call.1 := by
  have hrefill := h.refill hnow
  unfold TokenBucket.tryConsume
  dsimp only
  by_cases henough : (call.2 : ℚ) ≤ (b.refill call.1).tokens
  · rw [if_pos henough, if_pos rfl]
    refine ⟨hrefill.capacity, hrefill.refills, hrefill.last, ?_⟩
    have htake := hrefill.metered.takes (div_nonneg (Nat.cast_nonneg r) (by norm_num)) henough
    rwa [units, flatMap_append, flatMap_singleton]
  · rw [if_neg henough]
    exact hrefill

theorem granted_cons (b : TokenBucket) (call : Call) (calls : List Call) :
    b.granted (call :: calls) = (if (b.tryConsume call.1 call.2).1 then [call] else []) ++
      (b.tryConsume call.1 call.2).2.granted calls := by
  rw [granted]
  dsimp only
  split_ifs <;> rfl

/-- The times of calls after a time, one after the other. -/
def Timely (now : Instant) (calls : List Call) : Prop :=
  (now :: calls.map Prod.fst).Pairwise (· ≤ ·)

theorem Timely.cons {call : Call} {calls : List Call} (h : Timely now (call :: calls)) :
    now ≤ call.1 ∧ Timely call.1 calls := by
  rw [Timely, map_cons, pairwise_cons] at h
  exact ⟨h.1 call.1 mem_cons_self, h.2⟩

/-- The time of the last of some calls, or that before them. -/
def lastTime (now : Instant) (calls : List Call) : Instant :=
  (calls.getLast?.map Prod.fst).getD now

theorem lastTime_cons (now : Instant) (call : Call) (calls : List Call) :
    lastTime now (call :: calls) = lastTime call.1 calls := by
  unfold lastTime
  rw [getLast?_cons]
  cases calls.getLast? <;> rfl

theorem Timely.append {calls calls' : List Call} (h : Timely now (calls ++ calls')) :
    Timely now calls ∧ Timely (lastTime now calls) calls' := by
  constructor
  · rw [Timely, map_append, ← cons_append] at h
    exact h.sublist (sublist_append_left _ _)
  · induction calls generalizing now with
    | nil => exact h
    | cons call calls ih =>
      rw [lastTime_cons]
      exact ih h.cons.2

/-- The bucket has given out what was granted. -/
theorem Gave.after (h : b.Gave K r given now) {calls : List Call} (htimes : Timely now calls) :
    (b.after calls).Gave K r (given ++ b.granted calls) (lastTime now calls) := by
  induction calls generalizing b given now with
  | nil =>
    rw [granted, append_nil]
    exact h
  | cons call calls ih =>
    obtain ⟨hnow, hrest⟩ := htimes.cons
    have hstep := ih (h.tryConsume hnow) hrest
    have hgiven : ∀ (ok : Bool) (rest : List Call),
        (if ok then given ++ [call] else given) ++ rest =
          given ++ ((if ok then [call] else []) ++ rest) := by
      intro ok rest
      cases ok
      · rfl
      · exact append_assoc _ _ _
    rw [granted_cons, lastTime_cons, ← hgiven]
    exact hstep

/-- A call is granted once the bucket has filled up enough since the last one, or was full. -/
theorem Gave.granted_of_elapsed (h : b.Gave K r given now) {call : Call} (hnow : now ≤ call.1)
    (hcap : call.2 ≤ K)
    (hwait : b.tokens = K ∨ (call.2 : ℚ) ≤ r * ((call.1 - now : ℕ) / 1000000000 : ℚ)) :
    (b.tryConsume call.1 call.2).1 = true := by
  have hcap' : (call.2 : ℚ) ≤ K := Nat.cast_le.2 hcap
  have hfill : (0 : ℚ) ≤ r / 1000000000 * (call.1 - now : ℕ) :=
    mul_nonneg (div_nonneg (Nat.cast_nonneg r) (by norm_num)) (Nat.cast_nonneg _)
  have htokens : (b.refill call.1).tokens =
      min (b.tokens + r / 1000000000 * (call.1 - now : ℕ)) K := by
    have htick : b.perTick = r / 1000000000 := by rw [perTick, h.refills]
    have hle : b.tokens ≤ b.capacity := by
      rw [h.capacity]
      exact h.metered.le_cap
    rw [tokens_refill hle (h.last.trans_le hnow), htick, h.capacity, h.last]
  have henough : (call.2 : ℚ) ≤ (b.refill call.1).tokens := by
    rw [htokens]
    refine le_min ?_ hcap'
    rcases hwait with hfull | hwait
    · rw [hfull]
      linarith
    · have hnonneg := h.metered.nonneg
      have hsec : (r : ℚ) * ((call.1 - now : ℕ) / 1000000000) =
          r / 1000000000 * (call.1 - now : ℕ) := by ring
      linarith
  unfold TokenBucket.tryConsume
  dsimp only
  rw [if_pos henough]

/-- **A token bucket keeps its rate over every stretch of time**, for any amounts: what is granted
    comes to no more than the capacity and what is filled up, the tokens stay between none and the
    capacity, and a call that does not ask for more than the capacity is granted if it is the first
    or comes late enough after the one before it. -/
theorem rate_enforced (K r : ℕ) (start : Instant) {calls : List Call}
    (htimes : Timely start calls) :
    (∀ s e, s ≤ e → (total ((new K r start).granted calls) s e : ℚ) ≤
      K + r * ((e - s : ℕ) / 1000000000 : ℚ)) ∧
    (∀ front back, calls = front ++ back →
      0 ≤ ((new K r start).after front).tokens ∧ ((new K r start).after front).tokens ≤ K) ∧
    ∀ front call back, calls = front ++ call :: back → 0 < r → call.2 ≤ K →
      (∀ before ∈ front.getLast?,
        (call.2 : ℚ) / r ≤ ((call.1 - before.1 : ℕ) / 1000000000 : ℚ)) →
      (((new K r start).after front).tryConsume call.1 call.2).1 = true := by
  refine ⟨fun s e hse => ?_, ?_, ?_⟩
  · have hgave := (gave_new K r start).after htimes
    have hbound := hgave.metered.bounded s e hse
    rw [nil_append, within_units] at hbound
    refine hbound.trans (le_of_eq ?_)
    ring
  · rintro front back rfl
    have hgave := (gave_new K r start).after htimes.append.1
    exact ⟨hgave.metered.nonneg, hgave.metered.le_cap⟩
  · rintro front call back rfl hr hcap hwait
    obtain ⟨hfront, hback⟩ := htimes.append
    refine ((gave_new K r start).after hfront).granted_of_elapsed hback.cons.1 hcap ?_
    cases hlast : front.getLast? with
    | none =>
      rw [getLast?_eq_none_iff] at hlast
      exact .inl (by rw [hlast]; rfl)
    | some before =>
      right
      have hbefore : lastTime start front = before.1 := by
        unfold lastTime
        rw [hlast]
        rfl
      have hneed := hwait before hlast
      rw [div_le_iff₀ (Nat.cast_pos.2 hr)] at hneed
      rw [hbefore, mul_comm]
      exact hneed

/-- Two calls of two tokens on a bucket of two, a second apart. -/
theorem rate_enforced_twice :
    Timely 0 [(0, 2), (1000000000, 2)] ∧
      (((new 2 2 0).after [(0, 2)]).tryConsume 1000000000 2).1 = true ∧
      (total ((new 2 2 0).granted [(0, 2), (1000000000, 2)]) 0 1000000000 : ℚ) ≤ 4 := by
  have htimes : Timely 0 [(0, 2), (1000000000, 2)] := by
    unfold Timely
    decide
  obtain ⟨hrate, -, hgranted⟩ := rate_enforced 2 2 0 htimes
  refine ⟨htimes, hgranted [(0, 2)] (1000000000, 2) [] rfl (by decide) (by decide) ?_, ?_⟩
  · intro before hbefore
    cases hbefore
    norm_num
  · refine (hrate 0 1000000000 (Nat.zero_le _)).trans ?_
    norm_num

end TokenBucket

end LumenMQ
