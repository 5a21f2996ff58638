import Mathlib.Data.Finset.Dedup
import Mathlib.Data.Finset.Order
import LumenMQ.Lib.Metering
import LumenMQ.Security.Guard

set_option autoImplicit false

/-! # The publish rate over reconnects

`check_publish` takes a token of the client's bucket, and `on_disconnect` drops the bucket, so that
the next publication under the same client id finds a full one. Here one client is followed through
any sequence of calls on the guard. The rate is kept as long as no connection ends under the
client's id while its bucket is not full; where one does, the next publications go past it. -/

namespace LumenMQ

open Metering ClientRateLimiter List

/-! ## Buckets -/

namespace TokenBucket

variable {b : TokenBucket} {now : Instant}

/-- What is filled up in a nanosecond. -/
def perTick (b : TokenBucket) : ℚ := b.refillPerSecond / 1000000000

theorem refill_self (h : b.lastRefill = now) : b.refill now = b := by
  simp [refill, h]

theorem refill_of_lt (hlt : b.lastRefill < now) : b.refill now = { b with
      tokens := min (b.tokens + b.perTick * (now - b.lastRefill : ℕ)) b.capacity
      lastRefill := now } := by
  have helapsed : ¬ ((now - b.lastRefill : ℕ) : ℚ) / 1000000000 ≤ 0 := by
    rw [not_le]
    exact div_pos (Nat.cast_pos.2 (Nat.sub_pos_of_lt hlt)) (by norm_num)
  simp only [refill]
  rw [if_neg helapsed, perTick, div_mul_comm]

theorem lastRefill_refill (h : b.lastRefill ≤ now) : (b.refill now).lastRefill = now := by
  rcases h.eq_or_lt with heq | hlt
  · rw [refill_self heq, heq]
  · rw [refill_of_lt hlt]

theorem tokens_refill (hb : b.tokens ≤ b.capacity) (hnow : b.lastRefill ≤ now) :
    (b.refill now).tokens = min (b.tokens + b.perTick * (now - b.lastRefill : ℕ)) b.capacity := by
  rcases hnow.eq_or_lt with heq | hlt
  · rw [refill_self heq, heq, Nat.sub_self, Nat.cast_zero, mul_zero, add_zero, min_eq_left hb]
  · rw [refill_of_lt hlt]

@[simp] theorem capacity_refill (b : TokenBucket) (now : Instant) :
    (b.refill now).capacity = b.capacity := by
  unfold refill
  dsimp only
  split_ifs <;> rfl

@[simp] theorem refillPerSecond_refill (b : TokenBucket) (now : Instant) :
    (b.refill now).refillPerSecond = b.refillPerSecond := by
  unfold refill
  dsimp only
  split_ifs <;> rfl

end TokenBucket

/-! ## The bucket of a client -/

/-- A bucket of a rate, last filled up at a time in the past. -/
structure TokenBucket.Serves (b : TokenBucket) (rate : UInt32) (now : Instant) : Prop where
  capacity : b.capacity = capacityFor rate
  refills : b.refillPerSecond = rate.toNat
  tokens : b.tokens ≤ b.capacity
  past : b.lastRefill ≤ now

namespace ClientRateLimiter

/-- What a rate fills up in a nanosecond. -/
def perTick (rate : UInt32) : ℚ := rate.toNat / 1000000000

/-- The bucket of a client as it is found at a time. -/
def bucketAt (l : ClientRateLimiter) (now : Instant) (clientId : String) : TokenBucket :=
  ((l.inner.get clientId).getD (TokenBucket.new l.capacity l.refillPerSecond now)).refill now

/-- A limiter of a rate, as far as one client is concerned. -/
structure Limits (l : ClientRateLimiter) (rate : UInt32) (clientId : String) (now : Instant) :
    Prop where
  capacity : l.capacity = capacityFor rate
  refills : l.refillPerSecond = rate.toNat
  bucket : ∀ b, l.inner.get clientId = some b → b.Serves rate now

variable {l : ClientRateLimiter} {rate : UInt32} {c : String} {now now' : Instant}

/-- The bucket that is found or made. -/
theorem Limits.serves (h : l.Limits rate c now) :
    ((l.inner.get c).getD (TokenBucket.new l.capacity l.refillPerSecond now)).Serves rate now := by
  cases hget : l.inner.get c with
  | none => exact ⟨h.capacity, h.refills, le_refl _, le_refl _⟩
  | some b => exact h.bucket b hget

theorem Limits.serves_bucketAt (h : l.Limits rate c now) : (l.bucketAt now c).Serves rate now := by
  have hserve := h.serves
  unfold bucketAt
  refine ⟨?_, ?_, ?_, ?_⟩
  · rw [TokenBucket.capacity_refill, hserve.capacity]
  · rw [TokenBucket.refillPerSecond_refill, hserve.refills]
  · rw [TokenBucket.tokens_refill hserve.tokens hserve.past, TokenBucket.capacity_refill]
    exact min_le_right _ _
  · exact le_of_eq (TokenBucket.lastRefill_refill hserve.past)

theorem lastRefill_bucketAt (h : l.Limits rate c now) : (l.bucketAt now c).lastRefill = now :=
  TokenBucket.lastRefill_refill h.serves.past

theorem perTick_nonneg (rate : UInt32) : 0 ≤ perTick rate :=
  div_nonneg (Nat.cast_nonneg _) (by norm_num)

/-- A client without a bucket is treated as if it had a full one. -/
theorem tokens_bucketAt_of_none (h : l.inner.get c = none) :
    (l.bucketAt now c).tokens = l.capacity := by
  have hnew : (TokenBucket.new l.capacity l.refillPerSecond now).lastRefill = now := rfl
  rw [bucketAt, h, Option.getD_none, TokenBucket.refill_self hnew]
  rfl

/-- The bucket fills up while time passes. -/
theorem tokens_bucketAt_wait (h : l.Limits rate c now) (hnow : now ≤ now') :
    (l.bucketAt now' c).tokens =
      min ((l.bucketAt now c).tokens + perTick rate * (now' - now : ℕ)) (capacityFor rate) := by
  have hfill : 0 ≤ perTick rate * ((now' - now : ℕ) : ℚ) :=
    mul_nonneg (perTick_nonneg rate) (Nat.cast_nonneg _)
  cases hget : l.inner.get c with
  | none =>
    rw [tokens_bucketAt_of_none hget, tokens_bucketAt_of_none hget, h.capacity,
      min_eq_right (le_add_of_nonneg_right hfill)]
  | some b =>
    obtain ⟨hcap, href, htokens, hpast⟩ := h.bucket b hget
    have htick : b.perTick = perTick rate := by rw [TokenBucket.perTick, href, perTick]
    rw [bucketAt, bucketAt, hget, Option.getD_some, Option.getD_some,
      TokenBucket.tokens_refill htokens hpast,
      TokenBucket.tokens_refill htokens (hpast.trans hnow),
      cast_stretch hpast hnow, htick, hcap, mul_add, ← add_assoc, ← min_add_add_right,
      min_assoc, min_eq_right (le_add_of_nonneg_right hfill)]

theorem tokens_put (h : l.Limits rate c now) (tokens : ℚ) :
    (bucketAt { l with inner := l.inner.insert c { l.bucketAt now c with tokens } } now c).tokens =
      tokens := by
  have hlast : ({ l.bucketAt now c with tokens } : TokenBucket).lastRefill = now :=
    lastRefill_bucketAt h
  rw [bucketAt, FinMap.get_insert, if_pos rfl, Option.getD_some, TokenBucket.refill_self hlast]

theorem tryConsume_eq (hrate : l.refillPerSecond ≠ 0) :
    l.tryConsume now c = (decide (1 ≤ (l.bucketAt now c).tokens), { l with
      inner := l.inner.insert c { l.bucketAt now c with
        tokens := if 1 ≤ (l.bucketAt now c).tokens then (l.bucketAt now c).tokens - 1
          else (l.bucketAt now c).tokens } }) := by
  unfold tryConsume TokenBucket.tryConsume bucketAt
  rw [if_neg hrate]
  dsimp only
  generalize
    ((l.inner.get c).getD (TokenBucket.new l.capacity l.refillPerSecond now)).refill now = b
  rw [Nat.cast_one]
  by_cases htoken : 1 ≤ b.tokens
  · simp only [htoken, if_true, decide_true]
  · simp only [htoken, if_false, decide_false]

/-! ## Keeping to the rate -/

/-- The tokens of a client are an allowance, of which its publications so far were taken. -/
structure Rated (l : ClientRateLimiter) (rate : UInt32) (clientId : String) (taken : List Instant)
    (now : Instant) : Prop where
  limits : l.Limits rate clientId now
  metered : Metered (capacityFor rate : ℚ) (perTick rate) taken now (l.bucketAt now clientId).tokens

theorem rated_new (rate : UInt32) (c : String) (now : Instant) :
    (new rate).Rated rate c [] now where
  limits := ⟨rfl, rfl, fun b hb => absurd hb (by simp [new])⟩
  metered := by
    rw [tokens_bucketAt_of_none (by simp [new])]
    exact Metered.full (Nat.cast_nonneg _) (perTick_nonneg rate) now

namespace Rated

variable {taken : List Instant} {c' : String}

theorem wait (h : l.Rated rate c taken now) (hnow : now ≤ now') : l.Rated rate c taken now' where
  limits := by
    refine ⟨h.limits.capacity, h.limits.refills, fun b hb => ?_⟩
    have hserve := h.limits.bucket b hb
    exact ⟨hserve.capacity, hserve.refills, hserve.tokens, hserve.past.trans hnow⟩
  metered := by
    rw [tokens_bucketAt_wait h.limits hnow]
    exact h.metered.wait (perTick_nonneg rate) hnow

/-- What another client does is of no concern. -/
theorem congr (h : l.Rated rate c taken now) {l' : ClientRateLimiter}
    (hcap : l'.capacity = l.capacity) (href : l'.refillPerSecond = l.refillPerSecond)
    (hget : l'.inner.get c = l.inner.get c) : l'.Rated rate c taken now where
  limits := by
    refine ⟨hcap.trans h.limits.capacity, href.trans h.limits.refills, ?_⟩
    rw [hget]
    exact h.limits.bucket
  metered := by
    have hsame : l'.bucketAt now c = l.bucketAt now c := by
      rw [bucketAt, bucketAt, hget, hcap, href]
    rw [hsame]
    exact h.metered

/-- The client's bucket is put back, with as many tokens as are left. -/
theorem put (h : l.Rated rate c taken now) {taken' : List Instant} {tokens : ℚ}
    (hmet : Metered (capacityFor rate : ℚ) (perTick rate) taken' now tokens) :
    Rated { l with inner := l.inner.insert c { l.bucketAt now c with tokens } } rate c taken'
      now := by
  have hserve := h.limits.serves_bucketAt
  have hlast : ({ l.bucketAt now c with tokens } : TokenBucket).lastRefill = now :=
    lastRefill_bucketAt h.limits
  refine ⟨⟨h.limits.capacity, h.limits.refills, ?_⟩, ?_⟩
  · intro b hb
    rw [FinMap.get_insert, if_pos rfl] at hb
    cases hb
    exact ⟨hserve.capacity, hserve.refills, hserve.capacity ▸ hmet.le_cap, le_of_eq hlast⟩
  · rw [tokens_put h.limits]
    exact hmet

theorem tryConsume_other (h : l.Rated rate c taken now) (hc : c' ≠ c) :
    (l.tryConsume now c').2.Rated rate c taken now := by
  unfold tryConsume
  split_ifs
  · exact h
  · refine h.congr rfl rfl ?_
    rw [FinMap.get_insert, if_neg (Ne.symm hc)]

/-- A token is taken if there is one. -/
theorem tryConsume (h : l.Rated rate c taken now) (hrate : l.refillPerSecond ≠ 0) :
    (l.tryConsume now c).2.Rated rate c
      (taken ++ if (l.tryConsume now c).1 then [now] else []) now := by
  rw [tryConsume_eq hrate]
  refine h.put ?_
  by_cases htoken : 1 ≤ (l.bucketAt now c).tokens
  · simp only [htoken, decide_true, if_true]
    exact h.metered.take (perTick_nonneg rate) htoken
  · simp only [htoken, decide_false, if_false, Bool.false_eq_true, append_nil]
    exact h.metered

theorem remove_other (h : l.Rated rate c taken now) (hc : c' ≠ c) :
    (l.remove c').Rated rate c taken now := by
  refine h.congr rfl rfl ?_
  unfold remove
  rw [FinMap.get_erase, if_neg (Ne.symm hc)]

theorem get_removed (l : ClientRateLimiter) (c : String) : (l.remove c).inner.get c = none := by
  unfold remove
  rw [FinMap.get_erase, if_pos rfl]

theorem tokens_removed (h : l.Rated rate c taken now) :
    ((l.remove c).bucketAt now c).tokens = capacityFor rate := by
  rw [tokens_bucketAt_of_none (get_removed l c), ← h.limits.capacity]
  rfl

/-- Without its bucket a client starts anew. -/
theorem renewed (h : l.Rated rate c taken now) : (l.remove c).Rated rate c [] now := by
  refine ⟨⟨h.limits.capacity, h.limits.refills, fun b hb => ?_⟩, ?_⟩
  · rw [get_removed] at hb
    cases hb
  · rw [h.tokens_removed]
    exact Metered.full (Nat.cast_nonneg _) (perTick_nonneg rate) now

/-- A bucket that is full may be dropped. -/
theorem remove (h : l.Rated rate c taken now)
    (hfull : (capacityFor rate : ℚ) ≤ (l.bucketAt now c).tokens) :
    (l.remove c).Rated rate c taken now := by
  have hsame : ((l.remove c).bucketAt now c).tokens = (l.bucketAt now c).tokens :=
    h.tokens_removed.trans (le_antisymm hfull h.metered.le_cap)
  refine ⟨h.renewed.limits, ?_⟩
  rw [hsame]
  exact h.metered

end Rated

end ClientRateLimiter

/-! ## Calls on the guard -/

/-- The calls that connections make on the guard. -/
inductive GuardCall where
  | onConnect (peer : SocketAddr)
  | onDisconnect (peer : SocketAddr) (clientId : Option String)
  | checkPublish (clientId : String) (payloadLen brokerMaxPacket : Nat)

namespace GuardCall

def perform (g : SecurityGuard) (now : Instant) : GuardCall → SecurityGuard
  | .onConnect peer => g.onConnect peer
  | .onDisconnect peer clientId => g.onDisconnect peer clientId
  | .checkPublish clientId payloadLen brokerMaxPacket =>
    (g.checkPublish now clientId payloadLen brokerMaxPacket).2

/-- Whether the call accepts a publication of a client. -/
def accepts (c : String) (g : SecurityGuard) (now : Instant) : GuardCall → Bool
  | .checkPublish clientId payloadLen brokerMaxPacket =>
    clientId = c && (g.checkPublish now clientId payloadLen brokerMaxPacket).1.isOk
  | .onConnect _ => false
  | .onDisconnect _ _ => false

end GuardCall

namespace SecurityGuard

/-- The guard after a sequence of calls, each at its time. -/
def performAll (g : SecurityGuard) (calls : List (Instant × GuardCall)) : SecurityGuard :=
  calls.foldl (fun g call => call.2.perform g call.1) g

/-- When the publications of a client were accepted. -/
def acceptedAt (c : String) (g : SecurityGuard) : List (Instant × GuardCall) → List Instant
  | [] => []
  | (now, call) :: calls =>
    (if call.accepts c g now then [now] else []) ++ acceptedAt c (call.perform g now) calls

/-- The client has no bucket, or it is full by now. -/
def Refilled (g : SecurityGuard) (c : String) (now : Instant) : Prop :=
  ∀ b, g.rateLimiter.inner.get c = some b → (b.capacity : ℚ) ≤ (b.refill now).tokens

instance (g : SecurityGuard) (c : String) (now : Instant) : Decidable (g.Refilled c now) :=
  inferInstanceAs (Decidable (∀ b ∈ g.rateLimiter.inner.get c,
    (b.capacity : ℚ) ≤ (b.refill now).tokens))

/-- A connection that ends under the client's id leaves a bucket that is full. -/
def EndsFull (c : String) (g : SecurityGuard) (now : Instant) (call : GuardCall) : Prop :=
  ∀ peer, call = .onDisconnect peer (some c) → g.Refilled c now

/-- In every window there are at most `max (2 * rate) 1` publications more than the rate allows. -/
def KeepsRate (rate : UInt32) (accepted : List Instant) : Prop :=
  ∀ s e, s ≤ e → (within accepted s e : ℚ) ≤
    (max (2 * rate.toNat) 1 : ℕ) + rate.toNat * (((e - s : ℕ) : ℚ) / 1000000000)

/-- The guard limits the publications of a client to a rate. -/
structure Rated (g : SecurityGuard) (rate : UInt32) (c : String) (taken : List Instant)
    (now : Instant) : Prop where
  enabled : g.policy.enabled = true
  policy : g.policy.publishRatePerSecond = rate
  limiter : g.rateLimiter.Rated rate c taken now

theorem rated_new {cfg : SecurityConfig} {g : SecurityGuard} (hg : SecurityGuard.new cfg = .ok g)
    (henable : cfg.enabled = true) (c : String) (now : Instant) :
    g.Rated cfg.publishRatePerSecond c [] now := by
  simp only [SecurityGuard.new, buildPolicy, bind, Except.bind, pure, Except.pure] at hg
  cases hblack : IpFilter.new cfg.ipBlacklist with
  | error e => simp [hblack] at hg
  | ok blacklist =>
    cases hwhite : IpFilter.new cfg.ipWhitelist with
    | error e => simp [hblack, hwhite] at hg
    | ok whitelist =>
      simp only [hblack, hwhite, Except.ok.injEq] at hg
      rw [← hg]
      exact ⟨henable, rfl, ClientRateLimiter.rated_new _ c now⟩

variable {g : SecurityGuard} {rate : UInt32} {c : String} {taken : List Instant}
  {now now' : Instant}

theorem Rated.refills_ne_zero (h : g.Rated rate c taken now) (hrate : rate ≠ 0) :
    g.rateLimiter.refillPerSecond ≠ 0 := by
  rw [h.limiter.limits.refills]
  intro hzero
  exact hrate (UInt32.toNat_inj.1 hzero)

theorem refilled_iff (h : g.Rated rate c taken now) : g.Refilled c now ↔
    (capacityFor rate : ℚ) ≤ (g.rateLimiter.bucketAt now c).tokens := by
  unfold Refilled
  cases hget : g.rateLimiter.inner.get c with
  | none =>
    rw [tokens_bucketAt_of_none hget, h.limiter.limits.capacity]
    simp
  | some b =>
    rw [bucketAt, hget, Option.getD_some,
      ← (h.limiter.limits.bucket b hget).capacity]
    simp

/-- With a rate, a publication is accepted if it is not too large and there is a token for it. -/
theorem checkPublish_cases (h : g.Rated rate c taken now) (hrate : rate ≠ 0) (clientId : String)
    (payloadLen brokerMaxPacket : Nat) :
    (0 < payloadLen ∧ (g.checkPublish now clientId payloadLen brokerMaxPacket).1.isOk = false ∧
      (g.checkPublish now clientId payloadLen brokerMaxPacket).2 = g) ∨
    ((g.checkPublish now clientId payloadLen brokerMaxPacket).1.isOk =
        (g.rateLimiter.tryConsume now clientId).1 ∧
      (g.checkPublish now clientId payloadLen brokerMaxPacket).2 =
        { g with rateLimiter := (g.rateLimiter.tryConsume now clientId).2 }) := by
  unfold checkPublish
  rw [if_neg (by simp [h.enabled])]
  dsimp only
  by_cases hlarge :
      (if 0 < g.policy.maxPayloadBytes then g.policy.maxPayloadBytes else brokerMaxPacket)
        < payloadLen
  · rw [if_pos hlarge]
    exact .inl ⟨Nat.zero_lt_of_lt hlarge, rfl, rfl⟩
  · rw [if_neg hlarge, if_neg (by rw [h.policy]; exact hrate)]
    right
    cases (g.rateLimiter.tryConsume now clientId).1 with
    | true => exact ⟨rfl, rfl⟩
    | false => exact ⟨rfl, rfl⟩

/-- The end of a connection, as far as the limiter is concerned. -/
theorem onDisconnect_eq (g : SecurityGuard) (peer : SocketAddr) (clientId : Option String) :
    ∃ ipCounter, g.onDisconnect peer clientId = { g with
      ipCounter, rateLimiter := clientId.elim g.rateLimiter g.rateLimiter.remove } := by
  unfold onDisconnect
  split_ifs
  · cases clientId <;> exact ⟨_, rfl⟩
  · cases clientId <;> exact ⟨g.ipCounter, rfl⟩

/-- One call. -/
theorem Rated.perform (h : g.Rated rate c taken now) (hrate : rate ≠ 0) {call : GuardCall}
    (hend : EndsFull c g now call) :
    (call.perform g now).Rated rate c
      (taken ++ if call.accepts c g now then [now] else []) now := by
  cases call with
  | onConnect peer =>
    rw [GuardCall.accepts, if_neg Bool.false_ne_true, append_nil, GuardCall.perform,
      onConnect]
    split_ifs
    · exact h
    · exact ⟨h.enabled, h.policy, h.limiter⟩
  | onDisconnect peer clientId =>
    rw [GuardCall.accepts, if_neg Bool.false_ne_true, append_nil, GuardCall.perform]
    obtain ⟨ipCounter, hnext⟩ := g.onDisconnect_eq peer clientId
    rw [hnext]
    refine ⟨h.enabled, h.policy, ?_⟩
    cases clientId with
    | none => exact h.limiter
    | some c' =>
      by_cases hc : c' = c
      · subst hc
        exact h.limiter.remove ((refilled_iff h).1 (hend peer rfl))
      · exact h.limiter.remove_other hc
  | checkPublish clientId payloadLen brokerMaxPacket =>
    have haccs : (GuardCall.checkPublish clientId payloadLen brokerMaxPacket).accepts c g now =
      (decide (clientId = c) &&
        (g.checkPublish now clientId payloadLen brokerMaxPacket).1.isOk) := rfl
    rw [GuardCall.perform, haccs]
    rcases checkPublish_cases h hrate clientId payloadLen brokerMaxPacket with
      ⟨-, hrejected, hsame⟩ | ⟨hacc, hnext⟩
    · rw [hrejected, hsame, Bool.and_false, if_neg Bool.false_ne_true, append_nil]
      exact h
    · rw [hacc, hnext]
      refine ⟨h.enabled, h.policy, ?_⟩
      by_cases hc : clientId = c
      · subst hc
        rw [decide_eq_true rfl, Bool.true_and]
        exact h.limiter.tryConsume (h.refills_ne_zero hrate)
      · rw [decide_eq_false hc, Bool.false_and, if_neg Bool.false_ne_true, append_nil]
        exact h.limiter.tryConsume_other hc

/-- A sequence of calls. -/
theorem Rated.performAll (h : g.Rated rate c taken now) (hrate : rate ≠ 0)
    {calls : List (Instant × GuardCall)} (htimes : (now :: calls.map Prod.fst).Pairwise (· ≤ ·))
    (hends : ∀ made call later, calls = made ++ call :: later →
      EndsFull c (g.performAll made) call.1 call.2)
    (hnow' : ∀ t ∈ now :: calls.map Prod.fst, t ≤ now') :
    (g.performAll calls).Rated rate c (taken ++ g.acceptedAt c calls) now' := by
  induction calls generalizing g taken now with
  | nil =>
    rw [acceptedAt, append_nil]
    exact ⟨h.enabled, h.policy, h.limiter.wait (hnow' now mem_cons_self)⟩
  | cons call calls ih =>
    obtain ⟨t, call⟩ := call
    obtain ⟨hfirst, htimes⟩ := pairwise_cons.1 htimes
    have hwait : g.Rated rate c taken t :=
      ⟨h.enabled, h.policy, h.limiter.wait (hfirst t mem_cons_self)⟩
    have hstep := hwait.perform hrate (hends [] (t, call) calls rfl)
    rw [acceptedAt, ← append_assoc]
    refine ih hstep htimes ?_ (fun t' ht' => hnow' t' (mem_cons_of_mem _ ht'))
    intro made call' later heq
    exact hends ((t, call) :: made) call' later (by rw [heq]; rfl)

theorem capacityFor_le (rate : UInt32) :
    capacityFor rate ≤ max (2 * rate.toNat) 1 :=
  max_le_max (min_le_left _ _) (le_refl 1)

theorem Rated.keepsRate (h : g.Rated rate c taken now) : KeepsRate rate taken := by
  intro s e hse
  have hbounded := h.limiter.metered.bounded s e hse
  have hcap : (capacityFor rate : ℚ) ≤ (max (2 * rate.toNat) 1 : ℕ) :=
    Nat.cast_le.2 (capacityFor_le rate)
  rw [perTick, div_mul_eq_mul_div, ← mul_div_assoc'] at hbounded
  exact hbounded.trans (add_le_add_left hcap _)

/-! ## Beyond the rate -/

theorem acceptedAt_append (c : String) (g : SecurityGuard)
    (calls calls' : List (Instant × GuardCall)) :
    g.acceptedAt c (calls ++ calls') =
      g.acceptedAt c calls ++ (g.performAll calls).acceptedAt c calls' := by
  induction calls generalizing g with
  | nil => rfl
  | cons call calls ih =>
    obtain ⟨now, call⟩ := call
    rw [cons_append, acceptedAt, acceptedAt, ih, append_assoc]
    rfl

/-- As many publications in a row are accepted as there are tokens. -/
theorem Rated.acceptedAt_burst (h : g.Rated rate c taken now) (hrate : rate ≠ 0) (n : Nat)
    (hn : (n : ℚ) ≤ (g.rateLimiter.bucketAt now c).tokens) :
    g.acceptedAt c (replicate n (now, .checkPublish c 0 0)) = replicate n now := by
  induction n generalizing g taken with
  | zero => rfl
  | succ n ih =>
    have htoken : 1 ≤ (g.rateLimiter.bucketAt now c).tokens := by
      refine le_trans ?_ hn
      exact_mod_cast Nat.succ_le_succ (Nat.zero_le n)
    obtain ⟨hlarge, -⟩ | ⟨hacc, hnext⟩ := checkPublish_cases h hrate c 0 0
    · exact absurd hlarge (lt_irrefl 0)
    · rw [tryConsume_eq (h.refills_ne_zero hrate)] at hacc hnext
      have haccs : (GuardCall.checkPublish c 0 0).accepts c g now = true := by
        rw [GuardCall.accepts, hacc]
        simpa using htoken
      have hends : EndsFull c g now (.checkPublish c 0 0) := fun peer heq => by cases heq
      rw [replicate_succ, acceptedAt, haccs, if_pos rfl, singleton_append,
        replicate_succ, ih (h.perform hrate hends)]
      rw [GuardCall.perform, hnext, tokens_put h.limiter.limits, if_pos htoken]
      rw [Nat.cast_succ] at hn
      exact le_sub_iff_add_le.2 hn

/-- A connection that ends while the bucket is not full lets the next publications go past the
    rate. -/
theorem Rated.exceeds (h : g.Rated rate c taken now) (hrate : rate ≠ 0)
    (hfits : 2 * rate.toNat < 2 ^ 32) (peer : SocketAddr) (hnot : ¬ g.Refilled c now) :
    ∃ n, ¬ KeepsRate rate (taken ++ (g.onDisconnect peer (some c)).acceptedAt c
      (replicate n (now, .checkPublish c 0 0))) := by
  have hcap : capacityFor rate = max (2 * rate.toNat) 1 := by
    rw [capacityFor, min_eq_left (by omega)]
  obtain ⟨ipCounter, hnext⟩ := g.onDisconnect_eq peer (some c)
  have hrenewed : (g.onDisconnect peer (some c)).Rated rate c [] now := by
    rw [hnext]
    exact ⟨h.enabled, h.policy, h.limiter.renewed⟩
  have hburst := hrenewed.acceptedAt_burst hrate (capacityFor rate) (by
    rw [hnext]
    exact le_of_eq h.limiter.tokens_removed.symm)
  refine ⟨capacityFor rate, fun hkeeps => ?_⟩
  rw [hburst] at hkeeps
  rw [refilled_iff h, not_le] at hnot
  obtain ⟨s, hs, hlt⟩ := h.limiter.metered.exceeds hnot
  have hwindow := hkeeps s now hs
  rw [within_append_replicate taken _ hs, within_eq_since h.limiter.metered.past, ← hcap,
    Nat.cast_add, ← mul_div_assoc, ← div_mul_eq_mul_div] at hwindow
  exact absurd hwindow (not_le.2 hlt)

/-! ## The result -/

/-- **When the rate is kept over reconnects.** For a guard with a policy that is enabled and has a
    rate, every client keeps to the rate in every sequence of calls in which no connection ends
    under its id while its bucket is not full. The first that does may be followed by publications
    that go past it. -/
theorem keepsRate_of_endsFull {cfg : SecurityConfig} {g : SecurityGuard}
    (hg : SecurityGuard.new cfg = .ok g) (henabled : cfg.enabled = true)
    (hrate : 0 < cfg.publishRatePerSecond) (c : String) {calls : List (Instant × GuardCall)}
    (htimes : (calls.map Prod.fst).Pairwise (· ≤ ·))
    (hends : ∀ made call later, calls = made ++ call :: later →
      EndsFull c (g.performAll made) call.1 call.2) :
    KeepsRate cfg.publishRatePerSecond (g.acceptedAt c calls) ∧
      (2 * cfg.publishRatePerSecond.toNat < 2 ^ 32 → ∀ now call,
        (calls.map Prod.fst ++ [now]).Pairwise (· ≤ ·) →
          ¬ EndsFull c (g.performAll calls) now call →
            ∃ n, ¬ KeepsRate cfg.publishRatePerSecond (g.acceptedAt c
              (calls ++ (now, call) :: replicate n (now, .checkPublish c 0 0)))) := by
  have hne : cfg.publishRatePerSecond ≠ 0 := by
    intro hzero
    rw [hzero] at hrate
    exact absurd hrate (lt_irrefl 0)
  have hrun : ∀ now', (∀ t ∈ calls.map Prod.fst, t ≤ now') → (g.performAll calls).Rated
      cfg.publishRatePerSecond c (g.acceptedAt c calls) now' := by
    intro now' hnow'
    refine (rated_new hg henabled c 0).performAll hne (pairwise_cons.2 ⟨fun t _ => ?_, htimes⟩)
      hends ?_
    · exact Nat.zero_le t
    · rw [forall_mem_cons]
      exact ⟨Nat.zero_le now', hnow'⟩
  refine ⟨?_, ?_⟩
  · obtain ⟨now', hnow'⟩ := (calls.map Prod.fst).toFinset.exists_le
    exact (hrun now' (fun t ht => hnow' t (mem_toFinset.2 ht))).keepsRate
  · intro hfits now call htimes' hnot
    simp only [EndsFull, not_forall] at hnot
    obtain ⟨peer, rfl, hnot⟩ := hnot
    have hbefore : ∀ t ∈ calls.map Prod.fst, t ≤ now := fun t ht =>
      (pairwise_append.1 htimes').2.2 t ht now mem_cons_self
    obtain ⟨n, hn⟩ := (hrun now hbefore).exceeds hne hfits peer hnot
    refine ⟨n, ?_⟩
    rw [acceptedAt_append]
    exact hn

/-- One publication per second. -/
def onePerSecond : SecurityConfig := { enabled := true, publishRatePerSecond := 1 }

/-- The guard of that policy. -/
def onePerSecondGuard : SecurityGuard :=
  { policy := { enabled := true, publishRatePerSecond := 1 }
    ipCounter := ∅
    rateLimiter := .new 1 }

theorem new_onePerSecond : SecurityGuard.new onePerSecond = .ok onePerSecondGuard := rfl

def clientAddr : SocketAddr := { ip := .v4 0xC0A80007, port := 50000 }

/-- A client publishes twice, leaves when its bucket is full again, and comes back. -/
def patient : List (Instant × GuardCall) :=
  [(0, .checkPublish "c" 0 0), (0, .checkPublish "c" 0 0),
    (2000000000, .onDisconnect clientAddr (some "c")), (2000000000, .checkPublish "c" 0 0)]

theorem keepsRate_of_endsFull_patient :
    onePerSecondGuard.acceptedAt "c" patient = [0, 0, 2000000000] ∧
      KeepsRate 1 (onePerSecondGuard.acceptedAt "c" patient) := by
  refine ⟨by decide +kernel,
    (keepsRate_of_endsFull new_onePerSecond rfl (by decide) "c" (by decide) ?_).1⟩
  rintro made call later hsplit peer hcall
  have hlength := congrArg length hsplit
  rcases made with _ | ⟨a₁, _ | ⟨a₂, _ | ⟨a₃, _ | ⟨a₄, made⟩⟩⟩⟩
  · cases hsplit
    cases hcall
  · cases hsplit
    cases hcall
  · cases hsplit
    decide +kernel
  · cases hsplit
    cases hcall
  · simp [patient] at hlength

/-- A client publishes twice, leaves, comes back and publishes twice again, all within two
    milliseconds. -/
def hurried : List (Instant × GuardCall) :=
  [(0, .checkPublish "c" 0 0), (0, .checkPublish "c" 0 0),
    (1000000, .onDisconnect clientAddr (some "c")), (2000000, .onConnect clientAddr),
    (2000000, .checkPublish "c" 0 0), (2000000, .checkPublish "c" 0 0)]

/-- A reconnect is worth a full bucket: four publications within two milliseconds, where a rate of
    one per second allows for two. -/
theorem not_keepsRate_hurried : SecurityGuard.new onePerSecond = .ok onePerSecondGuard ∧
    (hurried.map Prod.fst).Pairwise (· ≤ ·) ∧
      ¬ KeepsRate 1 (onePerSecondGuard.acceptedAt "c" hurried) := by
  refine ⟨new_onePerSecond, by decide, fun hkeeps => ?_⟩
  have haccepted : onePerSecondGuard.acceptedAt "c" hurried = [0, 0, 2000000, 2000000] := by
    decide +kernel
  rw [haccepted] at hkeeps
  have hwindow := hkeeps 0 2000000 (by decide)
  revert hwindow
  decide +kernel

end SecurityGuard

end LumenMQ
