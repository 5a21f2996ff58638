import Mathlib.Algebra.Order.Ring.Rat
import LumenMQ.Lib.FinMap
import LumenMQ.Broker.StoreMsg
import LumenMQ.Security.IpFilter

set_option autoImplicit false

/-! # The security guard

One place for the checks on a connection (IP lists, connections of one address) and on a publication
(size, rate). The policy is replaced as a whole by a reload; the counters and the token buckets live
on. Tokens are rational numbers here and floating-point numbers in the source. -/

namespace LumenMQ

/-! ## Rate limits -/

structure TokenBucket where
  capacity : Nat
  refillPerSecond : Nat
  tokens : ℚ
  lastRefill : Instant
deriving DecidableEq, Repr

namespace TokenBucket

/-- A bucket that is full. -/
def new (capacity refillPerSecond : Nat) (now : Instant) : TokenBucket :=
  { capacity, refillPerSecond, tokens := capacity, lastRefill := now }

def refill (b : TokenBucket) (now : Instant) : TokenBucket :=
  let elapsed : ℚ := (now - b.lastRefill : Nat) / 1000000000
  if elapsed ≤ 0 then b
  else { b with
    tokens := min (b.tokens + elapsed * b.refillPerSecond) b.capacity
    lastRefill := now }

def tryConsume (b : TokenBucket) (now : Instant) (n : Nat) : Bool × TokenBucket :=
  let b := b.refill now
  if n ≤ b.tokens then (true, { b with tokens := b.tokens - n }) else (false, b)

end TokenBucket

structure ClientRateLimiter where
  capacity : Nat
  refillPerSecond : Nat
  inner : FinMap String TokenBucket

namespace ClientRateLimiter

/-- `saturating_mul(2).max(1)` on `u32`. -/
def capacityFor (refillPerSecond : UInt32) : Nat :=
  max (min (2 * refillPerSecond.toNat) (2 ^ 32 - 1)) 1

def new (refillPerSecond : UInt32) : ClientRateLimiter :=
  { capacity := capacityFor refillPerSecond
    refillPerSecond := refillPerSecond.toNat
    inner := ∅ }

/-- Take one token of the client's bucket, which is created full. -/
def tryConsume (l : ClientRateLimiter) (now : Instant) (clientId : String) :
    Bool × ClientRateLimiter :=
  if l.refillPerSecond = 0 then (true, l)
  else
    let bucket := (l.inner.get clientId).getD (TokenBucket.new l.capacity l.refillPerSecond now)
    let (ok, bucket) := bucket.tryConsume now 1
    (ok, { l with inner := l.inner.insert clientId bucket })

def remove (l : ClientRateLimiter) (clientId : String) : ClientRateLimiter :=
  { l with inner := l.inner.erase clientId }

end ClientRateLimiter

/-! ## Connection counts -/

/-- Live connections of each address; an address without any has no entry. -/
abbrev IpConnectionCounter := FinMap IpAddr Nat

namespace IpConnectionCounter

def count (m : IpConnectionCounter) (ip : IpAddr) : Nat := (FinMap.get m ip).getD 0

def inc (m : IpConnectionCounter) (ip : IpAddr) : IpConnectionCounter :=
  AList.insert ip (count m ip + 1) m

def dec (m : IpConnectionCounter) (ip : IpAddr) : IpConnectionCounter :=
  match FinMap.get m ip with
  | some v => if v - 1 = 0 then AList.erase ip m else AList.insert ip (v - 1) m
  | none => m

end IpConnectionCounter

/-! ## The guard -/

structure SecurityPolicy where
  enabled : Bool := false
  acl : IpAcl := {}
  maxConnectionsPerIp : Nat := 0
  publishRatePerSecond : UInt32 := 0
  maxPayloadBytes : Nat := 0

structure SecurityGuard where
  policy : SecurityPolicy
  ipCounter : IpConnectionCounter
  rateLimiter : ClientRateLimiter

namespace SecurityGuard

def buildPolicy (cfg : SecurityConfig) : BrokerResult SecurityPolicy := do
  let blacklist ← IpFilter.new cfg.ipBlacklist
  let whitelist ← IpFilter.new cfg.ipWhitelist
  return {
    enabled := cfg.enabled
    acl := { blacklist, whitelist }
    maxConnectionsPerIp := cfg.maxConnectionsPerIp
    publishRatePerSecond := cfg.publishRatePerSecond
    maxPayloadBytes := cfg.maxPayloadBytes }

def disabled : SecurityGuard := { policy := {}, ipCounter := ∅, rateLimiter := .new 0 }

def new (cfg : SecurityConfig) : BrokerResult SecurityGuard := do
  let policy ← buildPolicy cfg
  return { policy, ipCounter := ∅, rateLimiter := .new cfg.publishRatePerSecond }

/-- Replace the policy and start with empty token buckets; nothing changes on an error. -/
def reload (g : SecurityGuard) (cfg : SecurityConfig) : BrokerResult Unit × SecurityGuard :=
  match buildPolicy cfg with
  | .ok policy => (.ok (), { g with policy, rateLimiter := .new cfg.publishRatePerSecond })
  | .error e => (.error e, g)

/-- The check before a connection is served. The texts of the source also name the address. -/
def checkConnection (g : SecurityGuard) (peer : SocketAddr) : BrokerResult Unit :=
  if !g.policy.enabled then .ok ()
  else match g.policy.acl.check peer.ip with
    | .blacklisted => .error (.rateLimited "IP blacklisted")
    | .notWhitelisted => .error (.rateLimited "IP not in whitelist")
    | .allow =>
      if 0 < g.policy.maxConnectionsPerIp ∧
          g.policy.maxConnectionsPerIp ≤ g.ipCounter.count peer.ip then
        .error (.rateLimited "IP exceeded max connections per ip")
      else .ok ()

def onConnect (g : SecurityGuard) (peer : SocketAddr) : SecurityGuard :=
  if !g.policy.enabled || g.policy.maxConnectionsPerIp = 0 then g
  else { g with ipCounter := g.ipCounter.inc peer.ip }

def onDisconnect (g : SecurityGuard) (peer : SocketAddr) (clientId : Option String) :
    SecurityGuard :=
  let g := if g.policy.enabled && 0 < g.policy.maxConnectionsPerIp then
      { g with ipCounter := g.ipCounter.dec peer.ip }
    else g
  match clientId with
  | some clientId => { g with rateLimiter := g.rateLimiter.remove clientId }
  | none => g

/-- The check on an inbound publication: size, then rate. -/
def checkPublish (g : SecurityGuard) (now : Instant) (clientId : String)
    (payloadLen brokerMaxPacket : Nat) : BrokerResult Unit × SecurityGuard :=
  if !g.policy.enabled then (.ok (), g)
  else
    let max := if 0 < g.policy.maxPayloadBytes then g.policy.maxPayloadBytes else brokerMaxPacket
    if max < payloadLen then (.error (.packetTooLarge payloadLen max), g)
    else if g.policy.publishRatePerSecond = 0 then (.ok (), g)
    else
      let (ok, rateLimiter) := g.rateLimiter.tryConsume now clientId
      let g := { g with rateLimiter }
      if ok then (.ok (), g)
      else (.error (.rateLimited s!"client {clientId} publish rate exceeded"), g)

end SecurityGuard

end LumenMQ
