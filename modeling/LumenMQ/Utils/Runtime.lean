import LumenMQ.Broker.StoreMsg

set_option autoImplicit false

/-! # Calls of the runtime

The primitives of the asynchronous runtime that stop the whole process when they are called with the
wrong argument. -/

namespace LumenMQ

/-- `usize::MAX >> 3` on a 64-bit platform, the greatest capacity of a channel. -/
def maxPermits : Nat := 0xFFFFFFFFFFFFFFFF >>> 3

inductive RuntimeCall where
  /-- `tokio::time::interval` and `interval_at`. -/
  | interval (period : Duration)
  /-- `mpsc::channel`. -/
  | channel (capacity : Nat)
deriving DecidableEq, Repr

/-- The argument is one with which the primitive does not panic. -/
def RuntimeCall.Safe : RuntimeCall → Prop
  | .interval period => period ≠ 0
  | .channel capacity => 1 ≤ capacity ∧ capacity ≤ maxPermits

instance (call : RuntimeCall) : Decidable call.Safe :=
  match call with
  | .interval _ => inferInstanceAs (Decidable (_ ≠ _))
  | .channel _ => inferInstanceAs (Decidable (_ ∧ _))

end LumenMQ
