import LumenMQ.Broker.Subscription

set_option autoImplicit false

/-! # The topic ACL

Rules are topic filters. The blacklist is looked at first; a whitelist that is not empty must have
an entry that matches. The same decision serves publishing, where it is given a topic, and
subscribing, where it is given the subscriber's filter. -/

namespace LumenMQ

inductive AclVerdict where
  | allow
  | deniedByBlacklist
  | deniedByWhitelist
deriving DecidableEq, Repr

/-- The compiled rules; a reload replaces them as a whole. -/
structure TopicAcl where
  publishBlacklist : List String := []
  publishWhitelist : List String := []
  subscribeBlacklist : List String := []
  subscribeWhitelist : List String := []
deriving DecidableEq, Repr

namespace TopicAcl

/-- The decision on one topic. The source walks both lists and returns at the first match. -/
def decide (topic : String) (blacklist whitelist : List String) : AclVerdict :=
  if blacklist.any (topicMatchesFilter topic) then .deniedByBlacklist
  else if whitelist.isEmpty then .allow
  else if whitelist.any (topicMatchesFilter topic) then .allow
  else .deniedByWhitelist

def checkPublish (acl : TopicAcl) (topic : String) : AclVerdict :=
  decide topic acl.publishBlacklist acl.publishWhitelist

def checkSubscribe (acl : TopicAcl) (filter : String) : AclVerdict :=
  decide filter acl.subscribeBlacklist acl.subscribeWhitelist

/-- What the rules say about one topic. -/
def Permits (blacklist whitelist : List String) (topic : String) : Prop :=
  (∀ rule ∈ blacklist, topicMatchesFilter topic rule = false) ∧
    (whitelist ≠ [] → ∃ rule ∈ whitelist, topicMatchesFilter topic rule = true)

end TopicAcl

end LumenMQ
