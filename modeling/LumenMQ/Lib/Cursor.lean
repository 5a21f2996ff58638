import Mathlib.Data.List.Basic

set_option autoImplicit false

/-! # Cursors over a buffer, and rules for parsers that read from one

A `Cursor` is a buffer with a read position that cannot lie past the end. Parsers are state
transformers over a cursor that may fail, so they are written in `do` notation.

Two judgements describe what a parser does with bytes it is meant to accept, and a third one what
bytes it accepts at all:

* `Reads p bs a`: wherever the unread part starts with `bs`, `p` returns `a` and moves past exactly
  `bs`, whatever follows;
* `Finishes p bs a`: where the unread part is exactly `bs`, `p` returns `a`;
* `Consumes p Q`: whenever `p` succeeds with `a`, it has moved past some `bs` with `Q bs a`.

The rules `Reads.bind`, `Reads.bind_finishes` and `Consumes.bind` chain them, so each is proved by
following the parser's own `do` block. -/

variable {α ε β γ : Type}

/-- A buffer and a read position inside it. -/
@[ext]
structure Cursor (α : Type) where
  buf : List α
  pos : Nat
  /-- The position never passes the end, so `remaining` below does not underflow. -/
  pos_le : pos ≤ buf.length

namespace Cursor

/-- The cursor at the start of a buffer. -/
def start (buf : List α) : Cursor α := ⟨buf, 0, Nat.zero_le _⟩

/-- The number of unread elements. -/
def remaining (c : Cursor α) : Nat := c.buf.length - c.pos

/-- The unread elements. -/
def rest (c : Cursor α) : List α := c.buf.drop c.pos

/-- Move past `n` elements, which must be there. -/
def advance (c : Cursor α) (n : Nat) (h : n ≤ c.remaining) : Cursor α :=
  ⟨c.buf, c.pos + n, by have := c.pos_le; unfold remaining at h; omega⟩

@[simp] theorem rest_start (buf : List α) : (start buf).rest = buf := rfl

theorem length_rest (c : Cursor α) : c.rest.length = c.remaining := by
  simp [rest, remaining]

@[simp] theorem advance_pos (c : Cursor α) (n : Nat) (h : n ≤ c.remaining) :
    (c.advance n h).pos = c.pos + n := rfl

@[simp] theorem advance_rest (c : Cursor α) (n : Nat) (h : n ≤ c.remaining) :
    (c.advance n h).rest = c.rest.drop n := by
  simp [rest, advance, List.drop_drop]

theorem remaining_advance (c : Cursor α) (n : Nat) (h : n ≤ c.remaining) :
    (c.advance n h).remaining = c.remaining - n := by
  simp only [remaining, advance]
  omega

theorem advance_advance (c : Cursor α) (m n : Nat) (hm : m ≤ c.remaining)
    (hn : n ≤ (c.advance m hm).remaining) :
    (c.advance m hm).advance n hn
      = c.advance (m + n) (by rw [remaining_advance] at hn; omega) := by
  simp [advance, Nat.add_assoc]

theorem le_remaining_of_rest {c : Cursor α} {bs rest : List α} (h : c.rest = bs ++ rest) :
    bs.length ≤ c.remaining := by
  rw [← length_rest, h, List.length_append]
  omega

end Cursor

/-- Parsers over a cursor that may fail with an `ε`. -/
abbrev CursorParser (α ε β : Type) := StateT (Cursor α) (Except ε) β

/-- A sequence that succeeds: the first part does, and then the second one. -/
theorem CursorParser.run_bind_eq_ok {p : CursorParser α ε β} {f : β → CursorParser α ε γ}
    {c c' : Cursor α} {b : γ} (h : (p >>= f).run c = .ok (b, c')) :
    ∃ a c1, p.run c = .ok (a, c1) ∧ (f a).run c1 = .ok (b, c') := by
  rw [StateT.run_bind] at h
  cases hrun : p.run c with
  | error e =>
    rw [hrun] at h
    exact nomatch h
  | ok r =>
    rw [hrun] at h
    exact ⟨r.1, r.2, rfl, h⟩

/-- A result that can be computed comes from a run. -/
theorem CursorParser.exists_run {p : CursorParser α ε β} {c : Cursor α} {a : β}
    (h : (p.run c).toOption.map Prod.fst = some a) : ∃ c', p.run c = .ok (a, c') := by
  cases hrun : p.run c with
  | error e =>
    rw [hrun] at h
    cases h
  | ok r =>
    rw [hrun] at h
    cases h
    exact ⟨r.2, rfl⟩

theorem CursorParser.run_bind_of_ok {p : CursorParser α ε β} {f : β → CursorParser α ε γ}
    {c c1 : Cursor α} {a : β} (h : p.run c = .ok (a, c1)) : (p >>= f).run c = (f a).run c1 := by
  rw [StateT.run_bind, h]
  rfl

/-- `p` returns `a` from any position where `bs` comes next, having read exactly `bs`. -/
def Reads (p : CursorParser α ε β) (bs : List α) (a : β) : Prop :=
  ∀ (c : Cursor α) (rest : List α) (h : c.rest = bs ++ rest),
    p.run c = .ok (a, c.advance bs.length (Cursor.le_remaining_of_rest h))

/-- `p` returns `a` from any position where exactly `bs` is left. -/
def Finishes (p : CursorParser α ε β) (bs : List α) (a : β) : Prop :=
  ∀ c : Cursor α, c.rest = bs → ∃ c', p.run c = .ok (a, c')

namespace Reads

theorem pure (a : β) : Reads (pure a : CursorParser α ε β) [] a := fun _ _ _ => rfl

theorem bind {p : CursorParser α ε β} {f : β → CursorParser α ε γ} {bs cs : List α} {a : β}
    {b : γ} (hp : Reads p bs a) (hf : Reads (f a) cs b) : Reads (p >>= f) (bs ++ cs) b := by
  intro c rest h
  rw [List.append_assoc] at h
  have hrest : (c.advance bs.length (Cursor.le_remaining_of_rest h)).rest = cs ++ rest := by
    rw [Cursor.advance_rest, h, List.drop_left]
  rw [StateT.run_bind, hp c (cs ++ rest) h]
  refine (hf _ rest hrest).trans ?_
  rw [Cursor.advance_advance]
  simp only [List.length_append]

/-- A continuation that reads nothing. -/
theorem bind_nil {p : CursorParser α ε β} {f : β → CursorParser α ε γ} {bs : List α} {a : β}
    {b : γ} (hp : Reads p bs a) (hf : Reads (f a) [] b) : Reads (p >>= f) bs b := by
  have h := hp.bind hf
  rwa [List.append_nil] at h

/-- A first part that reads nothing. -/
theorem nil_bind {p : CursorParser α ε β} {f : β → CursorParser α ε γ} {cs : List α} {a : β}
    {b : γ} (hp : Reads p [] a) (hf : Reads (f a) cs b) : Reads (p >>= f) cs b :=
  hp.bind hf

/-- A first part that reads one element. -/
theorem cons_bind {p : CursorParser α ε β} {f : β → CursorParser α ε γ} {x : α} {cs : List α}
    {a : β} {b : γ} (hp : Reads p [x] a) (hf : Reads (f a) cs b) : Reads (p >>= f) (x :: cs) b :=
  hp.bind hf

theorem bind_finishes {p : CursorParser α ε β} {f : β → CursorParser α ε γ} {bs cs : List α}
    {a : β} {b : γ} (hp : Reads p bs a) (hf : Finishes (f a) cs b) :
    Finishes (p >>= f) (bs ++ cs) b := by
  intro c h
  have hrest : (c.advance bs.length (Cursor.le_remaining_of_rest h)).rest = cs := by
    rw [Cursor.advance_rest, h, List.drop_left]
  obtain ⟨c', hc'⟩ := hf _ hrest
  refine ⟨c', ?_⟩
  rw [StateT.run_bind, hp c cs h]
  exact hc'

theorem nil_bind_finishes {p : CursorParser α ε β} {f : β → CursorParser α ε γ} {cs : List α}
    {a : β} {b : γ} (hp : Reads p [] a) (hf : Finishes (f a) cs b) : Finishes (p >>= f) cs b :=
  hp.bind_finishes hf

theorem cons_bind_finishes {p : CursorParser α ε β} {f : β → CursorParser α ε γ} {x : α}
    {cs : List α} {a : β} {b : γ} (hp : Reads p [x] a) (hf : Finishes (f a) cs b) :
    Finishes (p >>= f) (x :: cs) b :=
  hp.bind_finishes hf

/-- A parser that read exactly `bs` also finishes on exactly `bs`. -/
theorem finishes {p : CursorParser α ε β} {bs : List α} {a : β} (hp : Reads p bs a) :
    Finishes p bs a :=
  fun c h => ⟨_, hp c [] (by rw [h, List.append_nil])⟩

/-- Mapping the value a parser returns reads the same bytes. -/
theorem map {p : CursorParser α ε β} {bs : List α} {a : β} (g : β → γ) (hp : Reads p bs a) :
    Reads (g <$> p) bs (g a) := by
  intro c rest h
  rw [StateT.run_map, hp c rest h]
  rfl

end Reads

/-- A continuation that wants nothing of what is left. -/
theorem Finishes.bind {p : CursorParser α ε β} {f : β → CursorParser α ε γ} {bs : List α}
    {a : β} {b : γ} (hp : Finishes p bs a) (hf : ∀ c, ∃ c', (f a).run c = .ok (b, c')) :
    Finishes (p >>= f) bs b := by
  intro c h
  obtain ⟨c1, hc1⟩ := hp c h
  obtain ⟨c2, hc2⟩ := hf c1
  exact ⟨c2, by rw [StateT.run_bind, hc1]; exact hc2⟩

/-- Whenever `p` succeeds with `a`, it has moved past some `bs` with `Q bs a`. -/
def Consumes (p : CursorParser α ε β) (Q : List α → β → Prop) : Prop :=
  ∀ (c : Cursor α) (a : β) (c' : Cursor α), p.run c = .ok (a, c') →
    ∃ bs : List α, Q bs a ∧ c.rest = bs ++ c'.rest ∧ c'.buf = c.buf ∧ c'.pos = c.pos + bs.length

namespace Consumes

theorem pure (a : β) : Consumes (pure a : CursorParser α ε β) (fun bs b => bs = [] ∧ b = a) := by
  intro c b c' h
  change Except.ok (a, c) = Except.ok (b, c') at h
  cases h
  exact ⟨[], ⟨rfl, rfl⟩, rfl, rfl, rfl⟩

theorem throw (e : ε) (Q : List α → β → Prop) :
    Consumes (throw e : CursorParser α ε β) Q :=
  fun _ _ _ h => nomatch h

theorem get : Consumes (get : CursorParser α ε (Cursor α)) (fun bs _ => bs = []) := by
  intro c a c' h
  change Except.ok (c, c) = Except.ok (a, c') at h
  cases h
  exact ⟨[], rfl, rfl, rfl, rfl⟩

theorem mono {p : CursorParser α ε β} {Q R : List α → β → Prop} (hp : Consumes p Q)
    (hQR : ∀ bs a, Q bs a → R bs a) : Consumes p R := by
  intro c a c' h
  obtain ⟨bs, hQ, hrest⟩ := hp c a c' h
  exact ⟨bs, hQR bs a hQ, hrest⟩

/-- The rule for a sequence in the direction of the goal: what the first part has read is known when
    the second one starts. -/
theorem andThen {p : CursorParser α ε β} {f : β → CursorParser α ε γ} {Q : List α → β → Prop}
    {R : List α → γ → Prop} (hp : Consumes p Q)
    (hf : ∀ a bs1, Q bs1 a → Consumes (f a) (fun bs b => R (bs1 ++ bs) b)) :
    Consumes (p >>= f) R := by
  intro c b c' h
  obtain ⟨a, c1, hrun, h⟩ := CursorParser.run_bind_eq_ok h
  obtain ⟨bs1, hQ, hrest1, hbuf1, hpos1⟩ := hp c a c1 hrun
  obtain ⟨bs2, hR, hrest2, hbuf2, hpos2⟩ := hf a bs1 hQ c1 b c' h
  refine ⟨bs1 ++ bs2, hR, ?_, hbuf2.trans hbuf1, ?_⟩
  · rw [hrest1, hrest2, List.append_assoc]
  · rw [hpos2, hpos1, List.length_append, Nat.add_assoc]

theorem bind {p : CursorParser α ε β} {f : β → CursorParser α ε γ} {Q : List α → β → Prop}
    {R : β → List α → γ → Prop} (hp : Consumes p Q) (hf : ∀ a, Consumes (f a) (R a)) :
    Consumes (p >>= f)
      (fun bs b => ∃ a bs1 bs2, bs = bs1 ++ bs2 ∧ Q bs1 a ∧ R a bs2 b) :=
  hp.andThen fun a bs1 hQ => (hf a).mono fun bs2 _ hR => ⟨a, bs1, bs2, rfl, hQ, hR⟩

theorem map {p : CursorParser α ε β} {Q : List α → β → Prop} (g : β → γ) (hp : Consumes p Q) :
    Consumes (g <$> p) (fun bs b => ∃ a, b = g a ∧ Q bs a) := by
  rw [map_eq_pure_bind]
  refine (hp.bind fun a => Consumes.pure (g a)).mono ?_
  rintro _ _ ⟨a, bs, _, rfl, hQ, rfl, rfl⟩
  exact ⟨a, rfl, by rwa [List.append_nil]⟩

end Consumes

/-- What `p` has read decides what it returns: it would read the same bytes to the same result from
    any other buffer. -/
def Rereads (p : CursorParser α ε β) : Prop := Consumes p (fun bs a => Reads p bs a)

namespace Rereads

theorem pure (a : β) : Rereads (pure a : CursorParser α ε β) := by
  refine (Consumes.pure a).mono ?_
  rintro _ _ ⟨rfl, rfl⟩
  exact Reads.pure _

theorem bind {p : CursorParser α ε β} {f : β → CursorParser α ε γ} (hp : Rereads p)
    (hf : ∀ a, Rereads (f a)) : Rereads (p >>= f) :=
  Consumes.andThen hp fun a _ hread => Consumes.mono (hf a) fun _ _ hread' => hread.bind hread'

end Rereads

/-- Whenever `p` succeeds with `a`, then `Q a`. -/
def Returns (p : CursorParser α ε β) (Q : β → Prop) : Prop :=
  ∀ (c : Cursor α) (a : β) (c' : Cursor α), p.run c = .ok (a, c') → Q a

namespace Returns

theorem pure {Q : β → Prop} {a : β} (h : Q a) : Returns (pure a : CursorParser α ε β) Q := by
  intro c b c' hrun
  change Except.ok (a, c) = Except.ok (b, c') at hrun
  cases hrun
  exact h

/-- The result of the first part does not matter. -/
theorem bind_any {p : CursorParser α ε β} {f : β → CursorParser α ε γ} {R : γ → Prop}
    (hf : ∀ a, Returns (f a) R) : Returns (p >>= f) R := by
  intro c b c' hrun
  obtain ⟨a, c1, -, hrun⟩ := CursorParser.run_bind_eq_ok hrun
  exact hf a c1 b c' hrun

end Returns

/-! ## Reading until the end

`collectToEnd body` is the loop `while remaining > 0 { push(body) }`. The recursion is on a bound
for the number of rounds; the number of unread elements is enough, since every round reads one. -/

/-- Run `body` while anything is left, at most `fuel` times, and collect what it returns. -/
def collectFor (body : CursorParser α ε β) : Nat → CursorParser α ε (List β)
  | 0 => pure []
  | fuel + 1 => do
    let c ← get
    if c.remaining > 0 then
      let a ← body
      let as ← collectFor body fuel
      pure (a :: as)
    else
      pure []

/-- Run `body` until nothing is left and collect what it returns. -/
def collectToEnd (body : CursorParser α ε β) : CursorParser α ε (List β) := do
  let c ← get
  collectFor body c.remaining

theorem collectFor_succ (body : CursorParser α ε β) (fuel : Nat) (c : Cursor α) :
    (collectFor body (fuel + 1)).run c =
      if c.remaining > 0 then
        (do let a ← body; let as ← collectFor body fuel; pure (a :: as)).run c
      else .ok ([], c) := by
  rw [collectFor, StateT.run_bind, StateT.run_get, pure_bind]
  split <;> rfl

theorem collectFor_finishes {ι : Type} {body : CursorParser α ε β} {f : ι → List α} {g : ι → β}
    (hne : ∀ x, f x ≠ []) (xs : List ι) (hread : ∀ x ∈ xs, Reads body (f x) (g x)) (fuel : Nat)
    (hfuel : (xs.flatMap f).length ≤ fuel) :
    Finishes (collectFor body fuel) (xs.flatMap f) (xs.map g) := by
  induction xs generalizing fuel with
  | nil =>
    intro c h
    refine ⟨c, ?_⟩
    cases fuel with
    | zero => rfl
    | succ fuel =>
      have hrem : ¬ c.remaining > 0 := by
        rw [← Cursor.length_rest, h]
        simp
      rw [collectFor_succ, if_neg hrem]
      rfl
  | cons x xs ih =>
    intro c h
    rw [List.flatMap_cons] at h hfuel
    have hpos : 0 < (f x).length := List.length_pos_of_ne_nil (hne x)
    rw [List.length_append] at hfuel
    obtain ⟨k, rfl⟩ : ∃ k, fuel = k + 1 := ⟨fuel - 1, by omega⟩
    have hrem : c.remaining > 0 := by
      rw [← Cursor.length_rest, h, List.length_append]
      omega
    -- one round reads `f x` and leaves the rest to the induction hypothesis
    have htail : Finishes (do let as ← collectFor body k; pure (g x :: as)) (xs.flatMap f)
        ((x :: xs).map g) := by
      intro c1 h1
      obtain ⟨c2, h2⟩ := ih (fun y hy => hread y (List.mem_cons_of_mem _ hy)) k (by omega) c1 h1
      exact ⟨c2, by rw [StateT.run_bind, h2]; rfl⟩
    obtain ⟨c', hc'⟩ := Reads.bind_finishes
      (f := fun a => do let as ← collectFor body k; pure (a :: as))
      (hread x List.mem_cons_self) htail c h
    exact ⟨c', by rw [collectFor_succ, if_pos hrem]; exact hc'⟩

/-- The loop reads a list of entries, each written by `f` and read back as `g` says. -/
theorem collectToEnd_finishes {ι : Type} {body : CursorParser α ε β} {f : ι → List α} {g : ι → β}
    (hne : ∀ x, f x ≠ []) (xs : List ι) (hread : ∀ x ∈ xs, Reads body (f x) (g x)) :
    Finishes (collectToEnd body) (xs.flatMap f) (xs.map g) := by
  intro c h
  refine collectFor_finishes hne xs hread c.remaining ?_ c h
  rw [← h]
  exact Nat.le_of_eq c.length_rest

/-- What a successful loop has read: as many elements as its entries take when each is written by
    `f`, if every round reads as many as `f` writes. -/
theorem collectFor_consumes {body : CursorParser α ε β} {f : β → List α} {P : β → Prop}
    (hbody : Consumes body (fun bs a => P a ∧ bs.length = (f a).length)) (fuel : Nat) :
    Consumes (collectFor body fuel)
      (fun bs as => (∀ a ∈ as, P a) ∧ bs.length = (as.flatMap f).length) := by
  have hnil : Consumes (pure [] : CursorParser α ε (List β))
      (fun bs as => (∀ a ∈ as, P a) ∧ bs.length = (as.flatMap f).length) := by
    refine (Consumes.pure []).mono ?_
    rintro _ _ ⟨rfl, rfl⟩
    exact ⟨by simp, rfl⟩
  induction fuel with
  | zero => exact hnil
  | succ fuel ih =>
    refine Consumes.get.andThen ?_
    rintro c _ rfl
    show Consumes (ite _ _ _) _
    split
    · refine hbody.andThen ?_
      rintro a bs1 ⟨ha, hlen1⟩
      refine ih.andThen ?_
      rintro as bs2 ⟨has, hlen2⟩
      refine (Consumes.pure (a :: as)).mono ?_
      rintro _ _ ⟨rfl, rfl⟩
      refine ⟨by simpa using ⟨ha, has⟩, ?_⟩
      simp only [List.flatMap_cons, List.length_append, List.length_nil]
      omega
    · exact hnil

theorem collectToEnd_consumes {body : CursorParser α ε β} {f : β → List α} {P : β → Prop}
    (hbody : Consumes body (fun bs a => P a ∧ bs.length = (f a).length)) :
    Consumes (collectToEnd body)
      (fun bs as => (∀ a ∈ as, P a) ∧ bs.length = (as.flatMap f).length) := by
  refine Consumes.get.andThen ?_
  rintro c _ rfl
  exact collectFor_consumes hbody c.remaining

theorem Consumes.remaining_lt {p : CursorParser α ε β} {c c' : Cursor α} {a : β}
    (hp : Consumes p (fun bs _ => bs ≠ [])) (hrun : p.run c = .ok (a, c')) :
    c'.remaining < c.remaining := by
  obtain ⟨bs, hbs, hrest, -⟩ := hp c a c' hrun
  have hpos := List.length_pos_of_ne_nil hbs
  rw [← Cursor.length_rest, ← Cursor.length_rest, hrest, List.length_append]
  omega

/-- As many rounds as there are unread elements are enough, if every round reads something. -/
theorem collectFor_fuel {body : CursorParser α ε β} (hbody : Consumes body (fun bs _ => bs ≠ []))
    (fuel : Nat) (c : Cursor α) (hflag : c.remaining ≤ fuel) :
    (collectFor body (fuel + 1)).run c = (collectFor body fuel).run c := by
  induction fuel generalizing c with
  | zero =>
    rw [collectFor_succ, if_neg (by omega)]
    rfl
  | succ fuel ih =>
    rw [collectFor_succ, collectFor_succ]
    split
    · rw [StateT.run_bind, StateT.run_bind]
      cases hrun : body.run c with
      | error e => rfl
      | ok r =>
        have hlen := hbody.remaining_lt hrun
        have hrest := ih r.2 (by omega)
        simp only [Bind.bind, Except.bind, StateT.bind, StateT.run] at hrest ⊢
        rw [hrest]
    · rfl

/-- The loop leaves nothing unread, if every round reads something. -/
theorem collectFor_exhausts {body : CursorParser α ε β}
    (hbody : Consumes body (fun bs _ => bs ≠ [])) (fuel : Nat) (c : Cursor α) (as : List β)
    (c' : Cursor α) (hfuel : c.remaining ≤ fuel)
    (hrun : (collectFor body fuel).run c = .ok (as, c')) : c'.rest = [] := by
  have hdone : ∀ c : Cursor α, c.remaining = 0 → c.rest = [] := fun c h =>
    List.length_eq_zero_iff.mp (c.length_rest.trans h)
  induction fuel generalizing c as with
  | zero =>
    change Except.ok ([], c) = Except.ok (as, c') at hrun
    cases hrun
    exact hdone _ (by omega)
  | succ fuel ih =>
    rw [collectFor_succ] at hrun
    by_cases hrem : c.remaining > 0
    · rw [if_pos hrem] at hrun
      obtain ⟨a, c1, hone, hrun⟩ := CursorParser.run_bind_eq_ok hrun
      obtain ⟨as', c2, htail, hlast⟩ := CursorParser.run_bind_eq_ok hrun
      have hlen := hbody.remaining_lt hone
      cases hlast
      exact ih c1 as' (by omega) htail
    · rw [if_neg hrem] at hrun
      cases hrun
      exact hdone _ (by omega)

/-- Whenever `p` succeeds, nothing is left unread. -/
def Exhausts (p : CursorParser α ε β) : Prop :=
  ∀ (c : Cursor α) (a : β) (c' : Cursor α), p.run c = .ok (a, c') → c'.rest = []

theorem Exhausts.after {p : CursorParser α ε β} {f : β → CursorParser α ε γ}
    (hf : ∀ a, Exhausts (f a)) : Exhausts (p >>= f) := by
  intro c b c' hrun
  obtain ⟨a, c1, -, hrun⟩ := CursorParser.run_bind_eq_ok hrun
  exact hf a c1 b c' hrun

/-- A continuation has nothing left to read. -/
theorem Exhausts.bind {p : CursorParser α ε β} {f : β → CursorParser α ε γ}
    {Q : β → List α → γ → Prop} (hp : Exhausts p) (hf : ∀ a, Consumes (f a) (Q a)) :
    Exhausts (p >>= f) := by
  intro c b c' hrun
  obtain ⟨a, c1, hone, hrun⟩ := CursorParser.run_bind_eq_ok hrun
  obtain ⟨bs, -, hrest, -⟩ := hf a c1 b c' hrun
  rw [hp c a c1 hone] at hrest
  exact (List.append_eq_nil_iff.mp hrest.symm).2

theorem collectToEnd_exhausts {body : CursorParser α ε β}
    (hbody : Consumes body (fun bs _ => bs ≠ [])) : Exhausts (collectToEnd body) :=
  fun c as c' hrun => collectFor_exhausts hbody c.remaining c as c' (Nat.le_refl _) hrun
