import LumenMQ.Config.Settings
import LumenMQ.Codec.Reader
import LumenMQ.Plugin.TopicAcl

set_option autoImplicit false

/-! # The plugin guard

The checks on what a message says: the topic ACL and a keyword filter on the payload. The hook that
forwards accepted messages over HTTP does not touch the broker's state and is left out. -/

namespace LumenMQ

/-! ## Payload keywords -/

inductive PayloadVerdict where
  | allow
  | deniedByBlacklist
  | deniedByWhitelist
deriving DecidableEq, Repr

structure PayloadFilter where
  blacklist : List Bytes := []
  whitelist : List Bytes := []
deriving DecidableEq, Repr

/-- Whether a byte string occurs in another; the empty one always does. -/
def containsSubslice (haystack needle : Bytes) : Bool :=
  if needle = [] then true
  else if haystack.length < needle.length then false
  else haystack.tails.any (fun t => t.take needle.length == needle)

namespace PayloadFilter

def fromConfig (cfg : PayloadFilterConfig) : PayloadFilter :=
  { blacklist := cfg.blacklistKeywords.map stringBytes
    whitelist := cfg.whitelistKeywords.map stringBytes }

def isEmpty (f : PayloadFilter) : Bool := f.blacklist.isEmpty && f.whitelist.isEmpty

def check (f : PayloadFilter) (payload : Bytes) : PayloadVerdict :=
  if f.blacklist.any (containsSubslice payload) then .deniedByBlacklist
  else if f.whitelist.isEmpty then .allow
  else if f.whitelist.any (containsSubslice payload) then .allow
  else .deniedByWhitelist

end PayloadFilter

/-! ## The guard -/

structure PluginPolicy where
  enabled : Bool := false
  topicAcl : TopicAcl := {}
  payloadFilter : PayloadFilter := {}
deriving DecidableEq, Repr

/-- The guard is its current policy; a reload replaces it as a whole. -/
structure PluginGuard where
  policy : PluginPolicy := {}
deriving DecidableEq, Repr

def TopicAcl.fromConfig (cfg : TopicAclConfig) : TopicAcl :=
  { publishBlacklist := cfg.publishBlacklist
    publishWhitelist := cfg.publishWhitelist
    subscribeBlacklist := cfg.subscribeBlacklist
    subscribeWhitelist := cfg.subscribeWhitelist }

namespace PluginGuard

def buildPolicy (cfg : PluginConfig) : PluginPolicy :=
  { enabled := cfg.enabled
    topicAcl := .fromConfig cfg.topicAcl
    payloadFilter := if cfg.payloadFilter.enabled then .fromConfig cfg.payloadFilter else {} }

def new (cfg : PluginConfig) : PluginGuard := { policy := buildPolicy cfg }

def reload (_g : PluginGuard) (cfg : PluginConfig) : PluginGuard := { policy := buildPolicy cfg }

/-- The payload half of `checkPublish`. -/
def checkPayload (policy : PluginPolicy) (topic : String) (payload : Bytes) : BrokerResult Unit :=
  if policy.payloadFilter.isEmpty then .ok ()
  else match policy.payloadFilter.check payload with
    | .allow => .ok ()
    | .deniedByBlacklist => .error (.other s!"payload of '{topic}' denied by blacklist keyword")
    | .deniedByWhitelist => .error (.other s!"payload of '{topic}' denied by whitelist keyword")

/-- The check on an inbound publication: the topic first, then the payload. -/
def checkPublish (g : PluginGuard) (topic : String) (payload : Bytes) : BrokerResult Unit :=
  if !g.policy.enabled then .ok ()
  else match g.policy.topicAcl.checkPublish topic with
    | .allow => checkPayload g.policy topic payload
    | .deniedByBlacklist => .error (.invalidTopic s!"topic '{topic}' denied by publish blacklist")
    | .deniedByWhitelist => .error (.invalidTopic s!"topic '{topic}' not in publish whitelist")

def checkSubscribe (g : PluginGuard) (filter : String) : BrokerResult Unit :=
  if !g.policy.enabled then .ok ()
  else match g.policy.topicAcl.checkSubscribe filter with
    | .allow => .ok ()
    | .deniedByBlacklist =>
      .error (.invalidTopic s!"filter '{filter}' denied by subscribe blacklist")
    | .deniedByWhitelist =>
      .error (.invalidTopic s!"filter '{filter}' not in subscribe whitelist")

end PluginGuard

end LumenMQ
