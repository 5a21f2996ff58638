import LumenMQ.Config.Settings

set_option autoImplicit false

/-! # Checking the configuration

`validate` stands between the configuration files and the broker. It stops at the first rule that is
broken, and every rule has a text of its own. -/

namespace LumenMQ

/-! ## Rules -/

/-- A rule that is broken under a condition. -/
def refuseIf (broken : Bool) (text : String) : BrokerResult Unit :=
  if broken then .error (.config text) else .ok ()

/-- Rules for a part that may be switched off. -/
def ifEnabled (enabled : Bool) (rules : BrokerResult Unit) : BrokerResult Unit :=
  if enabled then rules else .ok ()

/-! ## Addresses -/

/-- `Ipv4Addr::is_loopback` and `Ipv6Addr::is_loopback`. -/
def IpAddr.isLoopback : IpAddr → Bool
  | .v4 bits => bits >>> 24 = 127
  | .v6 bits => bits = 1

def validateBind (bind : BindAddr) (name : String) : BrokerResult Unit :=
  match bind.addr with
  | none => .error (.config s!"{name}.bind invalid: '{bind.text}'")
  | some addr => refuseIf (addr.port = 0) s!"{name}.bind port must not be 0"

def isLoopbackBind (bind : BindAddr) : Bool := bind.addr.any (fun addr => addr.ip.isLoopback)

/-! ## The rules -/

def validate (s : Settings) : BrokerResult Unit := do
  validateBind s.tcp.bind "tcp"
  ifEnabled s.tls.enabled do
    validateBind s.tls.bind "tls"
    refuseIf (s.tls.cert = "" || s.tls.key = "") "tls.cert / tls.key must be set when tls enabled"
  ifEnabled s.websocket.enabled (validateBind s.websocket.bind "websocket")
  ifEnabled s.mqttSn.enabled (validateBind s.mqttSn.bind "mqtt_sn")
  ifEnabled s.admin.enabled do
    validateBind s.admin.bind "admin"
    refuseIf (s.admin.token = "" && !isLoopbackBind s.admin.bind)
      "admin.token must be set when admin.bind is not loopback (non-127.0.0.1/::1)"
  refuseIf (s.broker.maxConnections = 0) "broker.max_connections must be > 0"
  refuseIf (s.broker.maxPacketSize < 16) "broker.max_packet_size too small (<16)"
  refuseIf (s.broker.maxInflight = 0) "broker.max_inflight must be > 0"
  refuseIf (!s.auth.allowAnonymous && s.auth.mode = .anonymous)
    "auth.mode=anonymous but allow_anonymous=false"
  refuseIf (!s.auth.allowAnonymous && s.auth.users.isEmpty)
    "no auth.users configured and anonymous disabled"

example : validate {} = .ok () := rfl

end LumenMQ
