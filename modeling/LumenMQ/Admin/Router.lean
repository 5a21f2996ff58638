import LumenMQ.Admin
import LumenMQ.Archive
import LumenMQ.Broker.Auth
import LumenMQ.Broker.SubscriptionRefinement
import LumenMQ.Config.Validate

set_option autoImplicit false

/-! # The router of the admin interface

The requests reach the broker by their path and method, behind a check of the admin token that looks
at these two as well. Every route that changes the broker's state is one that the check covers. -/

namespace LumenMQ

open Option List

inductive Method where
  | get
  | head
  | post
  | delete
  | other
deriving DecidableEq, Repr

structure Request where
  method : Method
  path : String
  /-- The header of this name, if it is there and is text. -/
  authorization : Option String := none
  /-- What the body is as the argument of each of the routes that have one. -/
  security : Option SecurityConfig := none
  plugin : Option PluginConfig := none
  publish : Option ManualPublishRequest := none

inductive Answer where
  | action (r : ActionResponse)
  /-- A page or a query, which leaves the state as it is. -/
  | page
  /-- There is no such route, or its arguments cannot be read. -/
  | refused
deriving DecidableEq, Repr

/-! ## Routes -/

inductive Endpoint where
  | page
  | session (segment : String)
  | reloadSecurity
  | reloadPlugin
  | publish
deriving DecidableEq, Repr

/-- The routes; the parameter of a path is not empty. -/
def Endpoint.ofPath (path : String) : Option Endpoint :=
  match split path with
  | ["", name] => if name ∈ ["dashboard", "health", "metrics"] then some .page else none
  | "" :: "api" :: "v1" :: rest =>
    match rest with
    | ["ws"] | ["sessions"] => some .page
    | ["sessions", segment] => if segment = "" then none else some (.session segment)
    | ["reload", "security"] => some .reloadSecurity
    | ["reload", "plugin"] => some .reloadPlugin
    | ["publish"] => some .publish
    | _ => none
  | _ => none

section

-- how the framework reads the parameter of a path
variable (percentDecode : String → Option String)

/-- Call a handler with its argument, if there is one. -/
def withArgument {α : Type} (arg : Option α) (b : BrokerState)
    (handler : α → Option (ActionResponse × BrokerState)) : Option (Answer × BrokerState) :=
  match arg with
  | some a => (handler a).map (fun (r, b) => (.action r, b))
  | none => some (.refused, b)

/-- `build_router`, without the check in front of it. -/
def dispatch (b : BrokerState) (req : Request) : Option (Answer × BrokerState) :=
  match req.method, Endpoint.ofPath req.path with
  | .get, some .page | .head, some .page => some (.page, b)
  | .delete, some (.session segment) =>
    withArgument (percentDecode segment) b (fun clientId => some (b.deleteSession clientId))
  | .post, some .reloadSecurity => withArgument req.security b (fun cfg =>
    match b.reloadSecurity cfg with
    | (.ok (), b) => some ({ message := "security config reloaded" }, b)
    | (.error e, b) => some ({ status := 400, ok := false, message := "reload failed: "
                               cause := some e }, b))
  | .post, some .reloadPlugin => withArgument req.plugin b (fun cfg =>
    some ({ message := "plugin config reloaded" }, b.reloadPlugin cfg))
  | .post, some .publish => withArgument req.publish b b.manualPublish
  | _, _ => some (.refused, b)

def Request.isProtected (req : Request) : Bool :=
  "/api/v1/".toList.isPrefixOf req.path.toList && (req.method = .post || req.method = .delete)

def Request.authOk (req : Request) (token : String) : Bool :=
  (req.authorization.bind (fun s => (stringBytes s).dropPrefix? (stringBytes "Bearer "))).any
    (fun provided => constantTimeEq provided (stringBytes token))

/-- `admin_token_auth`. -/
def adminTokenAuth (token : String) (b : BrokerState) (req : Request) :
    Option (Answer × BrokerState) :=
  if token = "" then dispatch percentDecode b req
  else if !req.isProtected then dispatch percentDecode b req
  else if !req.authOk token then
    some (.action { status := 401, ok := false, message := "missing or invalid admin token" }, b)
  else dispatch percentDecode b req

/-- The state after some requests. -/
def serveRequests (token : String) (b : BrokerState) (reqs : List Request) : Option BrokerState :=
  reqs.foldlM (fun b req => (adminTokenAuth percentDecode token b req).map Prod.snd) b

/-! ## The check covers the routes -/

/-- A path below `/api/v1`. -/
theorem isPrefixOf_of_split {path : String} {rest : List String}
    (h : split path = "" :: "api" :: "v1" :: rest) (hrest : rest ≠ []) :
    "/api/v1/".toList.isPrefixOf path.toList = true := by
  obtain ⟨x, xs, rfl⟩ := exists_cons_of_ne_nil hrest
  rw [ isPrefixOf_iff_prefix, ← join_split path, h]
  exact ⟨['/'].intercalate ((x :: xs).map String.toList), by simp [join, intercalate]⟩

/-- A route that the check does not cover leaves the state as it is. -/
theorem dispatch_unprotected {req : Request} (h : req.isProtected = false) (b : BrokerState) :
    (dispatch percentDecode b req).map Prod.snd = some b := by
  have hmethod : ∀ ep, Endpoint.ofPath req.path = some ep → ep ≠ .page →
      req.method ≠ .post ∧ req.method ≠ .delete := by
    intro ep hep hne
    have hpath : "/api/v1/".toList.isPrefixOf req.path.toList = true := by
      unfold Endpoint.ofPath at hep
      split at hep
      · split_ifs at hep
        exact absurd (some.inj hep).symm hne
      · next rest hsplit =>
        refine isPrefixOf_of_split hsplit ?_
        rintro rfl
        cases hep
      · cases hep
    rwa [Request.isProtected, hpath, Bool.true_and, Bool.or_eq_false_iff, decide_eq_false_iff_not,
      decide_eq_false_iff_not] at h
  unfold dispatch
  split
  · rfl
  · rfl
  · next hm hep => exact absurd hm (hmethod _ hep (by simp)).2
  · next hm hep => exact absurd hm (hmethod _ hep (by simp)).1
  · next hm hep => exact absurd hm (hmethod _ hep (by simp)).1
  · next hm hep => exact absurd hm (hmethod _ hep (by simp)).1
  · rfl

/-- The check looks for the token itself. -/
theorem Request.authOk_iff (req : Request) (token : String) :
    req.authOk token = true ↔ req.authorization = some ("Bearer " ++ token) := by
  have happend : stringBytes ("Bearer " ++ token) = stringBytes "Bearer " ++ stringBytes token := by
    simp [stringBytes]
  unfold authOk
  rw [Option.any_eq_true]
  constructor
  · rintro ⟨provided, hprov, heq⟩
    obtain ⟨s, hs, hdrop⟩ := bind_eq_some_iff.1 hprov
    obtain ⟨pre, hsplit, hpre⟩ := dropPrefix?_eq_some_iff.1 hdrop
    rw [constantTimeEq_iff] at heq
    rw [hs, some_inj]
    apply stringBytes_injective
    rw [happend, hsplit, eq_of_beq hpre, heq]
  · intro h
    refine ⟨stringBytes token, ?_, (constantTimeEq_iff _ _).2 rfl⟩
    rw [h, bind_some, happend]
    exact dropPrefix?_eq_some_iff.2 ⟨_, rfl, beq_self_eq_true _⟩

theorem token_ne_empty {config : Settings} (hvalid : validate config = .ok ())
    (henabled : config.admin.enabled = true) (hexposed : isLoopbackBind config.admin.bind = false) :
    config.admin.token ≠ "" := by
  have hseq : ∀ (x : BrokerResult Unit) (f : Unit → BrokerResult Unit),
      (x >>= f) = .ok () ↔ x = .ok () ∧ f () = .ok () := by
    intro x f
    cases x <;> simp [bind, Except.bind]
  intro htoken
  simp [validate, hseq, ifEnabled, refuseIf, henabled, htoken, hexposed] at hvalid

/-- **An admin interface that others can reach obeys the token only.** If the settings were accepted
    and the interface is not bound to the loopback, then of any requests those that do not carry the
    token leave no mark: the state is what the others alone would have made of it. -/
theorem exposed_admin_mediated {config : Settings} (hvalid : validate config = .ok ())
    (henabled : config.admin.enabled = true) (hexposed : isLoopbackBind config.admin.bind = false)
    (b : BrokerState) (reqs : List Request) :
    serveRequests percentDecode config.admin.token b reqs =
      serveRequests percentDecode config.admin.token b
        (reqs.filter (fun req => req.authorization = some ("Bearer " ++ config.admin.token))) := by
  have htoken := token_ne_empty hvalid henabled hexposed
  have hone : ∀ b req, ¬ req.authorization = some ("Bearer " ++ config.admin.token) →
      (adminTokenAuth percentDecode config.admin.token b req).map Prod.snd = some b := by
    intro b req hun
    rw [← req.authOk_iff, Bool.not_eq_true] at hun
    rw [adminTokenAuth, if_neg htoken, hun]
    cases hprot : req.isProtected with
    | true => rfl
    | false => exact dispatch_unprotected percentDecode hprot b
  induction reqs generalizing b with
  | nil => rfl
  | cons req reqs ih =>
    by_cases hreq : req.authorization = some ("Bearer " ++ config.admin.token)
    · rw [filter_cons_of_pos (by simpa using hreq), serveRequests, serveRequests, foldlM_cons,
        foldlM_cons]
      exact congrArg _ (funext ih)
    · rw [filter_cons_of_neg (by simpa using hreq), ← ih b, serveRequests, foldlM_cons,
        hone b req hreq]
      rfl

end

theorem exposed_admin_mediated_unauthorised : ∃ req : Request, req.isProtected = true ∧
    ∀ b, serveRequests some "k" b [req] = some b := by
  refine ⟨{ method := .delete, path := "/api/v1/sessions/a" }, by decide +kernel, fun b => ?_⟩
  have hvalid : validate { admin := { enabled := true, bind := .any "0.0.0.0:18083" 18083
                                      token := "k" } } = .ok () := rfl
  exact exposed_admin_mediated some hvalid rfl rfl b _

end LumenMQ
