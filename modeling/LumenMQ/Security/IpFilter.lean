import LumenMQ.Config.Settings

set_option autoImplicit false

/-! # IP lists

Rules are networks in CIDR form. They are compiled into a binary trie for each address family, which
is walked from the highest bit of an address down. -/

namespace LumenMQ

/-- A rule: a network address, already masked, and the number of bits that count. -/
structure IpRule where
  network : IpAddr
  prefixLen : Nat
deriving DecidableEq, Repr

/-- Clear all but the first bits of an address. -/
def applyMask : IpAddr → Nat → IpAddr
  | .v4 bits, prefixLen =>
    .v4 (bits &&& if prefixLen = 0 then 0 else BitVec.allOnes 32 <<< (32 - min prefixLen 32))
  | .v6 bits, prefixLen =>
    .v6 (bits &&& if prefixLen = 0 then 0 else BitVec.allOnes 128 <<< (128 - min prefixLen 128))

/-- The number of bits of an address of this family. -/
def IpAddr.maxBits : IpAddr → Nat
  | .v4 _ => 32
  | .v6 _ => 128

/-- `IpRule::parse`; an address without a prefix length stands for itself. -/
def IpRule.parse (s : IpEntry) : BrokerResult IpRule :=
  match s.prefixLen with
  | some none => .error (.config s!"invalid CIDR prefix in '{s.text}'")
  | given =>
    match s.addr with
    | none => .error (.config s!"invalid IP address in '{s.text}'")
    | some addr =>
      let prefixLen := ((given.getD none).map UInt8.toNat).getD addr.maxBits
      if addr.maxBits < prefixLen then
        .error (.config s!"CIDR prefix {prefixLen} exceeds max {addr.maxBits} for '{s.text}'")
      else .ok ⟨applyMask addr prefixLen, prefixLen⟩

/-- A node of the trie; `terminal` ends a rule. -/
inductive TrieNode where
  | mk (zero one : Option TrieNode) (terminal : Bool)

namespace TrieNode

def empty : TrieNode := mk none none false

def terminal : TrieNode → Bool
  | mk _ _ terminal => terminal

def child : TrieNode → Bool → Option TrieNode
  | mk zero _ _, false => zero
  | mk _ one _, true => one

def setChild : TrieNode → Bool → TrieNode → TrieNode
  | mk _ one terminal, false, c => mk (some c) one terminal
  | mk zero _ terminal, true, c => mk zero (some c) terminal

/-- Walk down the bits, creating missing nodes, and end a rule there. -/
def insert : List Bool → TrieNode → TrieNode
  | [], mk zero one _ => mk zero one true
  | bit :: bits, n => n.setChild bit (insert bits ((n.child bit).getD empty))

/-- Whether a rule ends on the way down the bits. -/
def contains : List Bool → TrieNode → Bool
  | [], n => n.terminal
  | bit :: bits, n =>
    if n.terminal then true
    else match n.child bit with
      | some c => contains bits c
      | none => false

end TrieNode

/-- The bits of an address, highest first. -/
def IpAddr.bits : IpAddr → List Bool
  | .v4 bits => (List.range 32).map bits.getMsbD
  | .v6 bits => (List.range 128).map bits.getMsbD

structure IpFilter where
  v4Trie : TrieNode := .empty
  v6Trie : TrieNode := .empty
  ruleCount : Nat := 0

namespace IpFilter

def addRule (f : IpFilter) (rule : IpRule) : IpFilter :=
  let bits := rule.network.bits.take rule.prefixLen
  match rule.network with
  | .v4 _ => { f with v4Trie := f.v4Trie.insert bits, ruleCount := f.ruleCount + 1 }
  | .v6 _ => { f with v6Trie := f.v6Trie.insert bits, ruleCount := f.ruleCount + 1 }

/-- `IpFilter::new`: the first entry that does not parse is reported. -/
def new (entries : List IpEntry) : BrokerResult IpFilter :=
  entries.foldlM (fun f e => (IpRule.parse e).map f.addRule) {}

def isEmpty (f : IpFilter) : Bool := f.ruleCount = 0

def contains (f : IpFilter) (ip : IpAddr) : Bool :=
  match ip with
  | .v4 _ => f.v4Trie.contains ip.bits
  | .v6 _ => f.v6Trie.contains ip.bits

end IpFilter

inductive IpVerdict where
  | allow
  | blacklisted
  | notWhitelisted
deriving DecidableEq, Repr

structure IpAcl where
  blacklist : IpFilter := {}
  whitelist : IpFilter := {}

/-- The blacklist first; a whitelist with rules must contain the address. -/
def IpAcl.check (acl : IpAcl) (ip : IpAddr) : IpVerdict :=
  if acl.blacklist.contains ip then .blacklisted
  else if !acl.whitelist.isEmpty && !acl.whitelist.contains ip then .notWhitelisted
  else .allow

end LumenMQ
