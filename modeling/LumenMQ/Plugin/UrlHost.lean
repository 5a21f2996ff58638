import Mathlib.Data.List.TakeWhile
import LumenMQ.Plugin.Forwarder

set_option autoImplicit false

/-! # The host of a forward URL

The check on a forward URL takes the host out of the text by itself and reads it with the address
parser of the standard library. The HTTP client follows the URL Standard, which also ends the
authority at a backslash and reads IPv4 addresses in other bases and with fewer parts. This file says
where the two agree. The client's parser is not part of the broker: it is a parameter, and only two
of its rules are relied on. What it makes of percent signs, blanks, tabs and letters beyond ASCII,
which it decodes, removes or maps, is left open. -/

namespace LumenMQ

open Option

/-! ## IPv4 addresses -/

/-- The value of a digit, up to base 16. -/
def digitValue (c : Char) : Nat :=
  if c.isDigit then c.toNat - 48
  else if 'a' ≤ c ∧ c ≤ 'f' then c.toNat - 87
  else if 'A' ≤ c ∧ c ≤ 'F' then c.toNat - 55
  else 16

/-- A number in a base; no digits are 0. -/
def readDigits (base : Nat) (digits : List Char) : Option Nat :=
  if digits.all (fun c => digitValue c < base) then
    some (digits.foldl (fun n c => n * base + digitValue c) 0)
  else none

/-- A part of an IPv4 address for the standard library: at most three decimal digits, without
    leading zeros. -/
def parseOctet (part : List Char) : Option Nat :=
  if part = [] ∨ 3 < part.length ∨ (1 < part.length ∧ part.head? = some '0') then none
  else (readDigits 10 part).filter (· ≤ 255)

/-- `Ipv4Addr::from_str`. -/
def parseV4 (host : List Char) : Option (BitVec 32) := do
  let [a, b, c, d] ← (host.splitOn '.').mapM parseOctet | none
  return BitVec.ofNat 32 (a <<< 24 + (b <<< 16 + (c <<< 8 + d)))

/-- A part of an IPv4 address in the URL Standard. -/
def parseNumber : List Char → Option Nat
  | [] => none
  | '0' :: 'x' :: digits | '0' :: 'X' :: digits => readDigits 16 digits
  | '0' :: c :: digits => readDigits 8 (c :: digits)
  | digits => readDigits 10 digits

/-- The last number stands for all the bytes that are left. -/
def joinNumbers : Nat → List Nat → Option Nat
  | n + 1, [last] => if last >>> (8 * (n + 1)) = 0 then some last else none
  | n + 1, a :: rest =>
    if a ≤ 255 then (joinNumbers n rest).map (a <<< (8 * n) + ·) else none
  | _, _ => none

/-- The IPv4 parser of the URL Standard. A final dot is allowed. -/
def standardV4 (host : List Char) : Option (BitVec 32) := do
  let parts := host.splitOn '.'
  let parts := if 1 < parts.length ∧ parts.getLast? = some [] then parts.dropLast else parts
  let numbers ← parts.mapM parseNumber
  return BitVec.ofNat 32 (← joinNumbers 4 numbers)

/-- What the standard library takes for an octet has the same value in the URL Standard. -/
theorem parseNumber_of_parseOctet {part : List Char} {n : Nat} (h : parseOctet part = some n) :
    parseNumber part = some n ∧ part ≠ [] ∧ n ≤ 255 := by
  unfold parseOctet at h
  split_ifs at h with hform
  obtain ⟨hread, hle⟩ := filter_eq_some_iff.1 h
  refine ⟨?_, fun hnil => hform (.inl hnil), of_decide_eq_true hle⟩
  -- a leading zero is the only digit, so the part is read in base 10
  unfold parseNumber
  split
  · exact absurd rfl fun hnil => hform (.inl hnil)
  · exact absurd (.inr (.inr ⟨by simp, rfl⟩)) hform
  · exact absurd (.inr (.inr ⟨by simp, rfl⟩)) hform
  · exact absurd (.inr (.inr ⟨by simp, rfl⟩)) hform
  · exact hread

theorem mapM_parseNumber {parts : List (List Char)} {ns : List Nat}
    (h : parts.mapM parseOctet = some ns) :
    parts.mapM parseNumber = some ns ∧ [] ∉ parts ∧ ∀ n ∈ ns, n ≤ 255 := by
  induction parts generalizing ns with
  | nil =>
    cases h
    simp
  | cons part rest ih =>
    rw [List.mapM_cons] at h
    obtain ⟨n, hn, h⟩ := bind_eq_some_iff.1 h
    obtain ⟨ns', hns, h⟩ := bind_eq_some_iff.1 h
    cases h
    obtain ⟨hnum, hne, hle⟩ := parseNumber_of_parseOctet hn
    obtain ⟨hrest, hnil, hall⟩ := ih hns
    refine ⟨by simp [List.mapM_cons, hnum, hrest], ?_, by simpa using ⟨hle, hall⟩⟩
    rw [List.mem_cons, not_or]
    exact ⟨hne.symm, hnil⟩

/-- An address that the standard library reads is the same in the URL Standard. -/
theorem standardV4_of_parseV4 {host : List Char} {bits : BitVec 32}
    (h : parseV4 host = some bits) : standardV4 host = some bits := by
  unfold parseV4 at h
  obtain ⟨ns, hns, h⟩ := bind_eq_some_iff.1 h
  obtain ⟨hnum, hnil, hle⟩ := mapM_parseNumber hns
  have hlast : (host.splitOn '.').getLast? ≠ some [] := fun hl => hnil (List.mem_of_getLast? hl)
  split at h
  · next a b c d =>
    cases h
    simp only [List.forall_mem_cons] at hle
    obtain ⟨ha, hb, hc, hd, -⟩ := hle
    have hd8 : d >>> 8 = 0 := by
      rw [Nat.shiftRight_eq_div_pow]
      omega
    simp [standardV4, hlast, hnum, joinNumbers, ha, hb, hc, hd8]
  · cases h

example : standardV4 "0x7f.1".toList = some 0x7F000001 := by decide +kernel

/-! ## Hosts -/

inductive UrlHost where
  | domain (name : String)
  | addr (ip : IpAddr)
deriving DecidableEq, Repr

/-- Neither this host by name nor an address that must not be reached. -/
def UrlHost.Permitted : UrlHost → Prop
  | .domain name => name ≠ "localhost"
  | .addr ip => isForbiddenIp ip = false

/-- What stands before the path, as the check on the URL sees it. -/
def checkedAuthority (rest : List Char) : List Char :=
  rest.takeWhile (fun c => c ≠ '/' && c ≠ '?' && c ≠ '#')

def standardAuthority (rest : List Char) : List Char :=
  rest.takeWhile (fun c => c ≠ '/' && c ≠ '\\' && c ≠ '?' && c ≠ '#')

/-- What stands between the user info and the path of an `http` or `https` URL in the URL
    Standard. -/
def standardHostPort (url : String) : Option (List Char) :=
  (afterScheme url.toList).map (fun rest =>
    let authority := standardAuthority rest
    (authority.splitOn '@').getLastD authority)

/-- A character that the URL Standard neither removes nor decodes nor maps, but for its case. -/
def isPlainChar (c : Char) : Bool := '!' ≤ c && c ≤ '~' && c ≠ '%'

section

-- both sides read IPv6 literals in the same way
variable (parseV6 : String → Option (BitVec 128))

/-- `IpAddr::from_str`. Only IPv6 literals have a colon. -/
def parseIpAddr (host : String) : Option IpAddr :=
  if ':' ∈ host.toList then (parseV6 host).map .v6 else (parseV4 host.toList).map .v4

/-- The host that plain characters stand for in the URL Standard. -/
def readHost (text : List Char) : Option UrlHost :=
  match text with
  | '[' :: literal =>
    if ']' ∈ literal then
      match parseIpAddr parseV6 (String.ofList (literal.takeWhile (· ≠ ']'))) with
      | some (.v6 bits) => some (.addr (.v6 bits))
      | _ => none
    else none
  | _ =>
    let name := text.takeWhile (· ≠ ':')
    match standardV4 name with
    | some bits => some (.addr (.v4 bits))
    | none => some (.domain (String.ofList name).toLower)

/-- The URL parser of the HTTP client, with what is relied on. Nothing is said of hosts with other
    characters, which it may decode, map or refuse. -/
structure UrlParser where
  host : String → Option UrlHost
  /-- A host of plain characters is read as it stands, if the URL is accepted. -/
  plain : ∀ url text h, standardHostPort url = some text → text ≠ [] →
    text.all isPlainChar = true → host url = some h → readHost parseV6 text = some h
  /-- A host that consists of numbers is an IPv4 address. -/
  numbers : ∀ url text, standardHostPort url = some text → (standardV4 text).isSome = true →
    host url = readHost parseV6 text

/-- The parser that knows no other rules. -/
def UrlParser.byRules : UrlParser parseV6 where
  host url := (standardHostPort url).bind (readHost parseV6)
  plain url text h htext _ _ hhost := by rwa [htext] at hhost
  numbers url text htext _ := by rw [htext, bind_some]

/-- The check takes the same text for the host, and reads the same address out of it. -/
def readsAlike (url : String) : Bool :=
  (afterScheme url.toList).all (fun rest => '\\' ∉ checkedAuthority rest) &&
    (extractHost url).all (fun host =>
      (standardV4 host.toList).isNone || (parseV4 host.toList).isSome)

/-- A forbidden host, in a URL that the check and the parser read in different ways. -/
def Evades (url : String) : Prop :=
  readsAlike url = false ∧
    ∃ text host, standardHostPort url = some text ∧ readHost parseV6 text = some host ∧
      ¬ host.Permitted

theorem standardAuthority_eq {rest : List Char} (h : '\\' ∉ checkedAuthority rest) :
    standardAuthority rest = checkedAuthority rest := by
  induction rest with
  | nil => rfl
  | cons c rest ih =>
    unfold checkedAuthority standardAuthority at *
    rw [List.takeWhile_cons] at h ⊢
    rw [List.takeWhile_cons]
    by_cases hend : (c ≠ '/' && c ≠ '?' && c ≠ '#') = true
    · rw [if_pos hend, List.mem_cons, not_or] at h
      have hgo : (c ≠ '/' && c ≠ '\\' && c ≠ '?' && c ≠ '#') = true := by
        simp only [Bool.and_eq_true, decide_eq_true_eq] at hend ⊢
        exact ⟨⟨⟨hend.1.1, Ne.symm h.1⟩, hend.1.2⟩, hend.2⟩
      rw [if_pos hend, if_pos hgo, ih h.2]
    · have hstop : ¬ (c ≠ '/' && c ≠ '\\' && c ≠ '?' && c ≠ '#') = true := by
        simp only [Bool.and_eq_true, decide_eq_true_eq] at hend ⊢
        exact fun hgo => hend ⟨⟨hgo.1.1.1, hgo.1.2⟩, hgo.2⟩
      rw [if_neg hend, if_neg hstop]

/-- Where both read alike, the host of the standard is the one that was checked. -/
theorem readHost_of_alike {url name : String} {text : List Char} {host : UrlHost}
    (halike : readsAlike url = true) (hname : extractHost url = some name)
    (htext : standardHostPort url = some text) (hread : readHost parseV6 text = some host) :
    (∃ ip, host = .addr ip ∧ parseIpAddr parseV6 name = some ip) ∨ host = .domain name.toLower := by
  unfold readsAlike at halike
  rw [Bool.and_eq_true, hname, all_some] at halike
  obtain ⟨hslash, hnum⟩ := halike
  obtain ⟨rest, hrest, rfl⟩ := map_eq_some_iff.1 htext
  rw [hrest, all_some, decide_eq_true_eq] at hslash
  simp only [standardAuthority_eq hslash] at hread
  simp only [extractHost, hrest, bind_eq_bind, bind_some] at hname
  unfold checkedAuthority at hread
  generalize (List.splitOn '@' _).getLastD _ = hostPort at hread hname
  unfold readHost at hread
  split at hread
  · next literal =>
    split_ifs at hread with hclose
    obtain rfl := some.inj ((if_pos hclose).symm.trans hname)
    left
    split at hread
    · next bits hip => exact ⟨_, (some.inj hread).symm, hip⟩
    · cases hread
  · next hopen =>
    have hcolon : ':' ∉ hostPort.takeWhile (· ≠ ':') := fun hmem => by
      simpa using List.mem_takeWhile_imp hmem
    split at hname
    · exact (hopen _ rfl).elim
    split_ifs at hname with hempty
    obtain rfl := some.inj hname
    rw [String.toList_ofList, Bool.or_eq_true] at hnum
    dsimp only at hread
    generalize hostPort.takeWhile (· ≠ ':') = label at hread hnum hcolon ⊢
    cases hstd : standardV4 label with
    | none =>
      rw [hstd] at hread
      exact .inr (some.inj hread).symm
    | some bits =>
      rw [hstd] at hread hnum
      obtain ⟨bits', hbits⟩ := isSome_iff_exists.1 (hnum.resolve_left (by simp))
      have heq : some bits = some bits' := hstd.symm.trans (standardV4_of_parseV4 hbits)
      refine .inl ⟨_, (some.inj hread).symm, ?_⟩
      simp [parseIpAddr, hcolon, hbits, some.inj heq]

end

/-- A URL that passes the check, and leads the client to this host whatever its parser is. -/
def ReachesLoopback (text : String) : Prop :=
  (extractHost text).bind (parseIpAddr (fun _ => none)) = none ∧
    (HttpForwarder.new { enabled := true, url := { text } } (.ok ())).1 =
      .ok { queue := some 1024 } ∧
    ∀ parser : UrlParser (fun _ => none), parser.host text = some (.addr (.v4 0x7F000001))

end LumenMQ
