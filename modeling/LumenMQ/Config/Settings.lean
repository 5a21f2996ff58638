import LumenMQ.Utils.Error

set_option autoImplicit false

/-! # Settings

The configuration of the broker. The node's name, the default keep-alive, the paths of the CA and of
the storage, logging, monitoring and the access lists of the users are left out: nothing that is
modelled reads them. -/

namespace LumenMQ

/-! ## Addresses -/

/-- An IP address, as its bits. -/
inductive IpAddr where
  | v4 (bits : BitVec 32)
  | v6 (bits : BitVec 128)
deriving DecidableEq, Repr

structure SocketAddr where
  ip : IpAddr
  port : UInt16
deriving DecidableEq, Repr

/-! ## Sections of the configuration -/

structure BrokerConfig where
  maxConnections : Nat := 100000
  maxPacketSize : Nat := 1024 * 1024
  maxSubscriptionsPerClient : Nat := 256
  maxInflight : Nat := 1024
  /-- Seconds between two retransmissions. -/
  retryIntervalSecs : Option Nat := some 10
  maxRetries : Option Nat := some 3
deriving DecidableEq, Repr

inductive AuthMode where
  | anonymous
  | usernamePassword
  | token
deriving DecidableEq, Repr

/-- The address of a listener, as its text and what the standard parser makes of it. -/
structure BindAddr where
  text : String := ""
  addr : Option SocketAddr := none
deriving DecidableEq, Repr

/-- A bind to all addresses of the host, which is how the defaults are written. -/
def BindAddr.any (text : String) (port : UInt16) : BindAddr :=
  { text, addr := some { ip := .v4 0, port } }

structure TcpConfig where
  enabled : Bool := true
  bind : BindAddr := .any "0.0.0.0:1883" 1883
deriving DecidableEq, Repr

structure TlsConfig where
  enabled : Bool := false
  bind : BindAddr := {}
  /-- A path, as `key`. -/
  cert : String := ""
  key : String := ""
deriving DecidableEq, Repr

structure WebSocketConfig where
  enabled : Bool := false
  bind : BindAddr := .any "0.0.0.0:8083" 8083
deriving DecidableEq, Repr

structure MqttSnConfig where
  enabled : Bool := false
  bind : BindAddr := .any "0.0.0.0:1884" 1884
deriving DecidableEq, Repr

structure AdminConfig where
  enabled : Bool := false
  bind : BindAddr := {}
  token : String := ""
deriving DecidableEq, Repr

structure UserConfig where
  username : String
  password : String
deriving DecidableEq, Repr

structure AuthConfig where
  mode : AuthMode := .anonymous
  allowAnonymous : Bool := true
  users : List UserConfig := []
deriving DecidableEq, Repr

structure StorageConfig where
  enabled : Bool := false
  maxOfflineMessages : Nat := 1000
  /-- In seconds. -/
  offlineMessageTtl : Nat := 86400
deriving DecidableEq, Repr

/-- An entry of an IP list, as its text and what the standard parsers make of its two parts. -/
structure IpEntry where
  text : String
  addr : Option IpAddr
  /-- `none` without a `/`; `some none` when what follows it is no `u8`. -/
  prefixLen : Option (Option UInt8)
deriving DecidableEq, Repr

structure SecurityConfig where
  enabled : Bool := false
  ipBlacklist : List IpEntry := []
  ipWhitelist : List IpEntry := []
  /-- 0 is no limit. -/
  maxConnectionsPerIp : Nat := 0
  /-- 0 is no limit. -/
  publishRatePerSecond : UInt32 := 0
  /-- 0 stands for the broker's own packet limit. -/
  maxPayloadBytes : Nat := 0
deriving DecidableEq, Repr

structure TopicAclConfig where
  publishBlacklist : List String := []
  publishWhitelist : List String := []
  subscribeBlacklist : List String := []
  subscribeWhitelist : List String := []
deriving DecidableEq, Repr

structure PayloadFilterConfig where
  enabled : Bool := false
  blacklistKeywords : List String := []
  whitelistKeywords : List String := []
deriving DecidableEq, Repr

/-- The target of the HTTP forwarding hook, as its text and what the standard parser of addresses
    makes of its host. -/
structure ForwardUrl where
  text : String := ""
  hostAddr : Option IpAddr := none
deriving DecidableEq, Repr

structure ForwardConfig where
  enabled : Bool := false
  url : ForwardUrl := {}
  /-- Empty for all topics. -/
  topicFilter : String := ""
  /-- 0 stands for 1024. -/
  maxQueue : Nat := 0
  allowPrivateNetwork : Bool := false
deriving DecidableEq, Repr

structure PluginConfig where
  enabled : Bool := false
  topicAcl : TopicAclConfig := {}
  payloadFilter : PayloadFilterConfig := {}
  forward : ForwardConfig := {}
deriving DecidableEq, Repr

structure Settings where
  broker : BrokerConfig := {}
  tcp : TcpConfig := {}
  tls : TlsConfig := {}
  websocket : WebSocketConfig := {}
  mqttSn : MqttSnConfig := {}
  admin : AdminConfig := {}
  auth : AuthConfig := {}
  storage : StorageConfig := {}
  security : SecurityConfig := {}
  plugin : PluginConfig := {}
deriving DecidableEq, Repr

end LumenMQ
