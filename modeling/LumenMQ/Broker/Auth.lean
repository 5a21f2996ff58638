import LumenMQ.Config.Settings
import LumenMQ.Codec.Reader

set_option autoImplicit false

/-! # Authentication

Credentials of a CONNECT packet against the configured accounts, and the will a connection leaves
with its session. -/

namespace LumenMQ

structure AuthIdentity where
  username : Option String
deriving DecidableEq, Repr

/-- Byte strings of one length are compared without an early exit; the result is their equality. -/
def constantTimeEq (a b : Bytes) : Bool :=
  if a.length ≠ b.length then false
  else (a.zip b).foldl (fun diff p => diff ||| (p.1 ^^^ p.2)) (0 : UInt8) == 0

/-- The account of a user name: the first one configured. -/
def AuthConfig.findUser (cfg : AuthConfig) (username : String) : Option UserConfig :=
  cfg.users.find? (fun u => u.username = username)

/-- Check a password against an account; an account with an empty password is never open. -/
def checkPassword (user : UserConfig) (username : String) (password : Bytes) :
    Except AuthError AuthIdentity :=
  if user.password = "" then .error .badCredentials
  else if constantTimeEq (stringBytes user.password) password then .ok ⟨some username⟩
  else .error .badCredentials

def AuthConfig.authenticate (cfg : AuthConfig) (clientId : String) (username : Option String)
    (password : Option Bytes) : Except AuthError AuthIdentity :=
  if 65535 < (stringBytes clientId).length then .error .unauthorizedClientId
  else match cfg.mode with
    | .anonymous => if cfg.allowAnonymous then .ok ⟨none⟩ else .error .anonymousForbidden
    | .usernamePassword | .token =>
      match username with
      | none => if cfg.allowAnonymous then .ok ⟨none⟩ else .error .badCredentials
      | some username =>
        match cfg.findUser username with
        | none => .error .badCredentials
        | some user => checkPassword user username (password.getD [])

/-! ## What is accepted -/

/-- The differences add up to zero exactly if there is none. -/
theorem foldl_diff_eq_zero {a b : Bytes} (hlen : a.length = b.length) (diff : UInt8) :
    (a.zip b).foldl (fun diff p => diff ||| (p.1 ^^^ p.2)) diff = 0 ↔ diff = 0 ∧ a = b := by
  induction a generalizing b diff with
  | nil => simp [List.length_eq_zero_iff.1 hlen.symm]
  | cons x a ih =>
    cases b with
    | nil => simp at hlen
    | cons y b =>
      rw [List.zip_cons_cons, List.foldl_cons, ih (Nat.succ.inj hlen), UInt8.or_eq_zero_iff,
        UInt8.xor_eq_zero_iff, List.cons.injEq, and_assoc]

theorem constantTimeEq_iff (a b : Bytes) : constantTimeEq a b = true ↔ a = b := by
  unfold constantTimeEq
  by_cases hlen : a.length = b.length
  · rw [if_neg (not_not.2 hlen), beq_iff_eq, foldl_diff_eq_zero hlen]
    exact and_iff_right rfl
  · rw [if_pos hlen]
    exact iff_of_false (by simp) (fun h => hlen (congrArg List.length h))

theorem checkPassword_ok_iff {user : UserConfig} {username : String} {password : Bytes}
    {identity : AuthIdentity} : checkPassword user username password = .ok identity ↔
      identity = ⟨some username⟩ ∧ user.password ≠ "" ∧ stringBytes user.password = password := by
  unfold checkPassword
  split_ifs with hempty heq
  · simp [hempty]
  · simp [hempty, (constantTimeEq_iff _ _).1 heq, eq_comm]
  · simp [← constantTimeEq_iff, heq]

namespace AuthConfig

theorem authenticate_ok_iff {cfg : AuthConfig} {clientId : String} {username : Option String}
    {password : Option Bytes} (hid : (stringBytes clientId).length ≤ 65535)
    (identity : AuthIdentity) : cfg.authenticate clientId username password = .ok identity ↔
      (identity = ⟨none⟩ ∧ cfg.allowAnonymous = true ∧ (cfg.mode = .anonymous ∨ username = none)) ∨
      ∃ u user, identity = ⟨some u⟩ ∧ (cfg.mode = .usernamePassword ∨ cfg.mode = .token) ∧
        username = some u ∧ cfg.findUser u = some user ∧ user.password ≠ "" ∧
        stringBytes user.password = password.getD [] := by
  have hlong : ¬ 65535 < (stringBytes clientId).length := Nat.not_lt.2 hid
  unfold authenticate
  rw [if_neg hlong]
  cases cfg.mode with
  | anonymous => cases cfg.allowAnonymous <;> simp [@eq_comm _ identity]
  | usernamePassword | token =>
    cases username with
    | none => cases cfg.allowAnonymous <;> simp [@eq_comm _ identity]
    | some u =>
      cases husername : cfg.findUser u with
      | none => simp [husername]
      | some user => simp [husername, checkPassword_ok_iff]

/-- **Credentials are checked exactly.** A user is let in under a name if accounts are in use, the
    name is the one that was given, and the first account of that name has a password, which is the
    given one. A client is let in without a name if that is allowed, and no accounts are in use or
    no name was given. Nobody else is let in. Two byte strings are found equal if they are. -/
theorem authenticate_exact (cfg : AuthConfig) (clientId : String) (username : Option String)
    (password : Option Bytes) (hid : (stringBytes clientId).length ≤ 65535) :
    (∀ u, cfg.authenticate clientId username password = .ok ⟨some u⟩ ↔
      (cfg.mode = .usernamePassword ∨ cfg.mode = .token) ∧ username = some u ∧
        ∃ user, cfg.findUser u = some user ∧ user.password ≠ "" ∧
          stringBytes user.password = password.getD []) ∧
    (cfg.authenticate clientId username password = .ok ⟨none⟩ ↔
      cfg.allowAnonymous = true ∧ (cfg.mode = .anonymous ∨ username = none)) ∧
    ∀ a b, constantTimeEq a b = true ↔ a = b := by
  refine ⟨fun u => ?_, ?_, constantTimeEq_iff⟩
  · rw [authenticate_ok_iff hid]
    constructor
    · rintro (⟨h, -⟩ | ⟨u', user, h, hmode, hname, haccount⟩)
      · cases h
      · cases h
        exact ⟨hmode, hname, user, haccount⟩
    · rintro ⟨hmode, hname, user, haccount⟩
      exact .inr ⟨u, user, rfl, hmode, hname, haccount⟩
  · rw [authenticate_ok_iff hid]
    constructor
    · rintro (⟨-, h⟩ | ⟨u', user, h, -⟩)
      · exact h
      · cases h
    · exact fun h => .inl ⟨rfl, h⟩

theorem authenticate_exact_login :
    (stringBytes "c").length ≤ 65535 ∧
    authenticate { mode := .token, users := [{ username := "u", password := "p" }] } "c" (some "u")
      (some [0x70]) = .ok ⟨some "u"⟩ := by
  refine ⟨by decide, ((authenticate_exact _ "c" _ _ (by decide)).1 "u").2 ⟨.inr rfl, rfl, ?_⟩⟩
  exact ⟨_, rfl, by decide, by decide⟩

end AuthConfig

/-- The will kept with a session. -/
structure WillMessage where
  topic : String
  message : Bytes
  qos : QoS
  retain : Bool
deriving DecidableEq, Repr

def WillMessage.ofLastWill (w : LastWill) : WillMessage :=
  { topic := w.topic, message := w.message, qos := w.qos, retain := w.retain }

end LumenMQ
