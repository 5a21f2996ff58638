import Mathlib.Data.List.Basic
import Mathlib.Tactic.SplitIfs

set_option autoImplicit false

/-! # Wildcard patterns over words

A pattern is a list of levels, each a letter, `one` (any one letter) or `many` (whatever is left). A
`many` at the very end also accepts an empty rest; one that is followed by more levels, which no
well-formed pattern has, accepts any non-empty rest.

Two questions about patterns are decided here:

* whether two patterns accept a common word (`common`, which also gives one), and
* whether every word of one pattern is accepted by one of a list of patterns, by looking only at its
  *generic* words, in which a letter that no pattern of the list mentions stands for the wildcards. -/

/-- A level of a pattern. -/
inductive Level (α : Type) where
  | lit (a : α)
  | one
  | many
deriving DecidableEq, Repr

namespace Wildcard

variable {α : Type} [DecidableEq α]

/-- Whether a word matches a pattern. -/
def accepts : List (Level α) → List α → Bool
  | [], w => w.isEmpty
  | .many :: ps, [] => ps.isEmpty
  | .many :: _, _ :: _ => true
  | .one :: _, [] => false
  | .one :: ps, _ :: w => accepts ps w
  | .lit _ :: _, [] => false
  | .lit a :: ps, b :: w => a = b && accepts ps w

/-- A `many` stands only at the end. -/
def ManyLast : List (Level α) → Prop
  | [] => True
  | p :: ps => (p = .many → ps = []) ∧ ManyLast ps

/-- Whether a level stands for a single letter and that letter may be `a`. -/
def covers (a : α) : Level α → Bool
  | .lit b => b = a
  | .one => true
  | .many => false

theorem accepts_cons {p : Level α} (hp : p ≠ .many) (ps : List (Level α)) (a : α) (w : List α) :
    accepts (p :: ps) (a :: w) = (covers a p && accepts ps w) := by
  cases p with
  | many => exact absurd rfl hp
  | one => simp [accepts, covers]
  | lit b => simp [accepts, covers]

theorem accepts_nil {p : Level α} (hp : p ≠ .many) (ps : List (Level α)) :
    accepts (p :: ps) [] = false := by
  cases p with
  | many => exact absurd rfl hp
  | one => rfl
  | lit b => rfl

theorem accepts_many (w : List α) : accepts [.many] w = true := by
  cases w <;> rfl

/-- A non-empty word that begins with a covered letter. -/
theorem exists_cons_of_accepts {p : Level α} (hp : p ≠ .many) {ps : List (Level α)} {w : List α}
    (h : accepts (p :: ps) w = true) :
    ∃ a v, w = a :: v ∧ covers a p = true ∧ accepts ps v = true := by
  cases w with
  | nil => simp [accepts_nil hp] at h
  | cons a v =>
    rw [accepts_cons hp, Bool.and_eq_true] at h
    exact ⟨a, v, rfl, h.1, h.2⟩

/-! ## A common word -/

section Common

variable (good : α → Bool) (z : α)

/-- An admissible letter that two levels cover; `z` is taken where any letter would do. -/
def meet : Level α → Level α → Option α
  | .one, .one => some z
  | .one, .lit b => if good b then some b else none
  | .lit a, .one => if good a then some a else none
  | .lit a, .lit b => if a = b ∧ good a = true then some a else none
  | _, _ => none

/-- A word of admissible letters that a pattern accepts. -/
def sample : List (Level α) → Option (List α)
  | [] => some []
  | .many :: _ => some [z]
  | p :: ps => (meet good z p .one).bind (fun a => (sample ps).map (a :: ·))

/-- A word of admissible letters that two patterns accept. -/
def common : List (Level α) → List (Level α) → Option (List α)
  | .many :: _, qs => sample good z qs
  | [], [] => some []
  | [], [.many] => some []
  | [], _ :: _ => none
  | p :: ps, .many :: _ => sample good z (p :: ps)
  | _ :: _, [] => none
  | p :: ps, q :: qs => (meet good z p q).bind (fun a => (common ps qs).map (a :: ·))

variable {good z}

theorem meet_sound (hz : good z = true) {p q : Level α} {a : α} (h : meet good z p q = some a) :
    good a = true ∧ covers a p = true ∧ covers a q = true := by
  cases p <;> cases q <;> simp only [meet] at h <;> try split_ifs at h with hab
  all_goals simp_all [covers]
  exact hab.1 ▸ hab.2

theorem meet_complete {p q : Level α} {a : α} (ha : good a = true) (hp : covers a p = true)
    (hq : covers a q = true) : (meet good z p q).isSome = true := by
  cases p <;> cases q <;> simp_all [meet, covers]

/-- A letter other than `z` was forced by one of the levels. -/
theorem meet_unique {p q : Level α} {a b : α} (h : meet good z p q = some a) (hne : a ≠ z)
    (hp : covers b p = true) (hq : covers b q = true) : b = a := by
  cases p <;> cases q <;> simp only [meet] at h <;> try split_ifs at h
  all_goals simp_all [covers]

theorem sample_cons {p : Level α} (hp : p ≠ .many) (ps : List (Level α)) :
    sample good z (p :: ps) =
      (meet good z p .one).bind (fun a => (sample good z ps).map (a :: ·)) := by
  cases p with
  | many => exact absurd rfl hp
  | one => rfl
  | lit a => rfl

theorem common_cons {p q : Level α} (hp : p ≠ .many) (hq : q ≠ .many) (ps qs : List (Level α)) :
    common good z (p :: ps) (q :: qs) =
      (meet good z p q).bind (fun a => (common good z ps qs).map (a :: ·)) := by
  cases p <;> cases q <;> first | exact absurd rfl hp | exact absurd rfl hq | rfl

theorem common_many {p : Level α} (ps qs : List (Level α)) :
    common good z (p :: ps) (.many :: qs) =
      if p = .many then some [z] else sample good z (p :: ps) := by
  cases p <;> rfl

theorem common_nil {p : Level α} (hp : p ≠ .many) (ps : List (Level α)) :
    common good z (p :: ps) [] = none := by
  cases p with
  | many => exact absurd rfl hp
  | one => rfl
  | lit a => rfl

omit [DecidableEq α] in
/-- The head and the tail of a result. -/
theorem bind_map_cons_eq_some {o : Option α} {t : Option (List α)} {w : List α} :
    o.bind (fun a => t.map (a :: ·)) = some w ↔
      ∃ a v, o = some a ∧ t = some v ∧ w = a :: v := by
  cases o <;> cases t <;> simp [eq_comm]

theorem sample_ne_nil {p : Level α} {ps : List (Level α)} {w : List α}
    (h : sample good z (p :: ps) = some w) : w ≠ [] := by
  by_cases hp : p = .many
  · subst hp
    simp only [sample, Option.some.injEq] at h
    simp [← h]
  · rw [sample_cons hp, bind_map_cons_eq_some] at h
    obtain ⟨a, v, -, -, rfl⟩ := h
    simp

/-- A sample is a word of admissible letters that the pattern accepts. -/
theorem sample_sound (hz : good z = true) {ps : List (Level α)} {w : List α}
    (h : sample good z ps = some w) : (∀ a ∈ w, good a = true) ∧ accepts ps w = true := by
  induction ps generalizing w with
  | nil =>
    simp only [sample, Option.some.injEq] at h
    subst h
    simp [accepts]
  | cons p ps ih =>
    by_cases hp : p = .many
    · subst hp
      simp only [sample, Option.some.injEq] at h
      subst h
      simp [accepts, hz]
    · rw [sample_cons hp, bind_map_cons_eq_some] at h
      obtain ⟨a, v, hmeet, hv, rfl⟩ := h
      obtain ⟨ha, hcov, -⟩ := meet_sound hz hmeet
      obtain ⟨hgood, hacc⟩ := ih hv
      exact ⟨List.forall_mem_cons.2 ⟨ha, hgood⟩, by simp [accepts_cons hp, hcov, hacc]⟩

/-- A pattern that accepts an admissible word has a sample. -/
theorem sample_complete {ps : List (Level α)} {w : List α} (hgood : ∀ a ∈ w, good a = true)
    (hacc : accepts ps w = true) : ∃ v, sample good z ps = some v := by
  induction ps generalizing w with
  | nil => exact ⟨[], rfl⟩
  | cons p ps ih =>
    by_cases hp : p = .many
    · subst hp
      exact ⟨[z], rfl⟩
    · obtain ⟨a, v, rfl, hcov, hv⟩ := exists_cons_of_accepts hp hacc
      rw [List.forall_mem_cons] at hgood
      obtain ⟨b, hb⟩ := Option.isSome_iff_exists.1
        (meet_complete (z := z) hgood.1 hcov (q := .one) rfl)
      obtain ⟨u, hu⟩ := ih hgood.2 hv
      exact ⟨b :: u, by rw [sample_cons hp, hb, hu]; rfl⟩

/-- Only a single letter has a one-letter sample other than `z`. -/
theorem eq_of_sample_singleton {ps : List (Level α)} {a : α} (hne : a ≠ z)
    (h : sample good z ps = some [a]) {w : List α} (hw : accepts ps w = true) : w = [a] := by
  cases ps with
  | nil => simp [sample] at h
  | cons p ps =>
    by_cases hp : p = .many
    · subst hp
      simp [sample, hne.symm] at h
    · rw [sample_cons hp, bind_map_cons_eq_some] at h
      obtain ⟨b, v, hmeet, hv, heq⟩ := h
      simp only [List.cons.injEq] at heq
      obtain ⟨rfl, rfl⟩ := heq
      obtain ⟨c, u, rfl, hcov, hu⟩ := exists_cons_of_accepts hp hw
      obtain rfl := meet_unique hmeet hne hcov rfl
      cases ps with
      | nil => simpa [accepts] using hu
      | cons q qs => exact absurd rfl (sample_ne_nil hv)

/-- What `common` returns is a word of admissible letters that both patterns accept. -/
theorem common_sound (hz : good z = true) {ps qs : List (Level α)} (hlast : ManyLast ps)
    {w : List α} (h : common good z ps qs = some w) :
    (∀ a ∈ w, good a = true) ∧ accepts ps w = true ∧ accepts qs w = true := by
  induction ps generalizing qs w with
  | nil =>
    have hw : w = [] ∧ (qs = [] ∨ qs = [.many]) := by
      unfold common at h
      split at h <;> simp_all
    obtain ⟨rfl, rfl | rfl⟩ := hw <;> simp [accepts]
  | cons p ps ih =>
    by_cases hp : p = .many
    · subst hp
      obtain rfl := hlast.1 rfl
      obtain ⟨hgood, hacc⟩ := sample_sound hz (by simpa [common] using h)
      exact ⟨hgood, accepts_many w, hacc⟩
    · cases qs with
      | nil => simp [common_nil hp] at h
      | cons q qs =>
        by_cases hq : q = .many
        · subst hq
          rw [common_many, if_neg hp] at h
          obtain ⟨hgood, hacc⟩ := sample_sound hz h
          have hne := sample_ne_nil h
          refine ⟨hgood, hacc, ?_⟩
          cases w with
          | nil => exact absurd rfl hne
          | cons b w => rfl
        · rw [common_cons hp hq, bind_map_cons_eq_some] at h
          obtain ⟨a, v, hmeet, hv, rfl⟩ := h
          obtain ⟨ha, hcovp, hcovq⟩ := meet_sound hz hmeet
          obtain ⟨hgood, haccp, haccq⟩ := ih hlast.2 hv
          refine ⟨List.forall_mem_cons.2 ⟨ha, hgood⟩, ?_, ?_⟩
          · simp [accepts_cons hp, hcovp, haccp]
          · simp [accepts_cons hq, hcovq, haccq]

/-- Patterns that accept a common admissible word have a common word. -/
theorem common_complete {ps qs : List (Level α)} {w : List α} (hgood : ∀ a ∈ w, good a = true)
    (hps : accepts ps w = true) (hqs : accepts qs w = true) :
    ∃ v, common good z ps qs = some v := by
  induction ps generalizing qs w with
  | nil =>
    obtain rfl : w = [] := by simpa [accepts] using hps
    cases qs with
    | nil => exact ⟨[], rfl⟩
    | cons q qs =>
      by_cases hq : q = .many
      · subst hq
        obtain rfl : qs = [] := by simpa [accepts] using hqs
        exact ⟨[], rfl⟩
      · simp [accepts_nil hq] at hqs
  | cons p ps ih =>
    by_cases hp : p = .many
    · subst hp
      exact sample_complete hgood hqs
    · cases qs with
      | nil =>
        obtain rfl : w = [] := by simpa [accepts] using hqs
        simp [accepts_nil hp] at hps
      | cons q qs =>
        by_cases hq : q = .many
        · subst hq
          rw [common_many, if_neg hp]
          exact sample_complete hgood hps
        · obtain ⟨a, v, rfl, hcovp, hv⟩ := exists_cons_of_accepts hp hps
          rw [accepts_cons hq, Bool.and_eq_true] at hqs
          rw [List.forall_mem_cons] at hgood
          obtain ⟨b, hb⟩ := Option.isSome_iff_exists.1
            (meet_complete (z := z) hgood.1 hcovp hqs.1)
          obtain ⟨u, hu⟩ := ih hgood.2 hv hqs.2
          exact ⟨b :: u, by rw [common_cons hp hq, hb, hu]; rfl⟩

/-- If the common word found is empty, there is no other. -/
theorem eq_nil_of_common_nil {ps qs : List (Level α)} (h : common good z ps qs = some [])
    {w : List α} (hps : accepts ps w = true) (hqs : accepts qs w = true) : w = [] := by
  cases ps with
  | nil => simpa [accepts] using hps
  | cons p ps =>
    by_cases hp : p = .many
    · subst hp
      cases qs with
      | nil => simpa [accepts] using hqs
      | cons q qs => exact absurd rfl (sample_ne_nil (by simpa [common] using h))
    · cases qs with
      | nil => simpa [accepts] using hqs
      | cons q qs =>
        by_cases hq : q = .many
        · subst hq
          rw [common_many, if_neg hp] at h
          exact absurd rfl (sample_ne_nil h)
        · rw [common_cons hp hq, bind_map_cons_eq_some] at h
          obtain ⟨a, v, -, -, heq⟩ := h
          simp at heq

/-- If the common word found is one letter other than `z`, there is no other. -/
theorem eq_of_common_singleton {ps qs : List (Level α)} {a : α} (hne : a ≠ z)
    (hlast : ManyLast ps) (h : common good z ps qs = some [a]) {w : List α}
    (hps : accepts ps w = true) (hqs : accepts qs w = true) : w = [a] := by
  cases ps with
  | nil =>
    unfold common at h
    split at h <;> simp_all
  | cons p ps =>
    by_cases hp : p = .many
    · subst hp
      exact eq_of_sample_singleton hne (by simpa [common] using h) hqs
    · cases qs with
      | nil => simp [common_nil hp] at h
      | cons q qs =>
        by_cases hq : q = .many
        · subst hq
          rw [common_many, if_neg hp] at h
          exact eq_of_sample_singleton hne h hps
        · rw [common_cons hp hq, bind_map_cons_eq_some] at h
          obtain ⟨b, v, hmeet, hv, heq⟩ := h
          simp only [List.cons.injEq] at heq
          obtain ⟨rfl, rfl⟩ := heq
          obtain ⟨c, u, rfl, hcovp, hu⟩ := exists_cons_of_accepts hp hps
          rw [accepts_cons hq, Bool.and_eq_true] at hqs
          obtain rfl := meet_unique hmeet hne hcovp hqs.1
          rw [eq_nil_of_common_nil hv hu hqs.2]

/-- A word that is empty or the single letter `a`. -/
def Bare (a : α) (w : List α) : Prop := w = [] ∨ w = [a]

/-- **`common` decides whether two patterns share a word that is not bare.** -/
theorem common_bare_iff (hz : good z = true) {a : α} (ha : a ≠ z) {ps qs : List (Level α)}
    (hlast : ManyLast ps) :
    (∀ w, common good z ps qs = some w → Bare a w) ↔
      ∀ w, (∀ b ∈ w, good b = true) → accepts ps w = true → accepts qs w = true → Bare a w := by
  constructor
  · intro h w hgood hps hqs
    obtain ⟨v, hv⟩ := common_complete (z := z) hgood hps hqs
    rcases h v hv with rfl | rfl
    · exact .inl (eq_nil_of_common_nil hv hps hqs)
    · exact .inr (eq_of_common_singleton ha hlast hv hps hqs)
  · intro h w hw
    obtain ⟨hgood, hps, hqs⟩ := common_sound hz hlast hw
    exact h w hgood hps hqs

end Common

/-! ## Generic words -/

section Generic

variable (z : α)

/-- The word of a pattern in which `z` stands for the wildcards, `k` times for a `many`. -/
def generic (k : Nat) : List (Level α) → List α
  | [] => []
  | .many :: _ => List.replicate k z
  | .one :: ps => z :: generic k ps
  | .lit a :: ps => a :: generic k ps

/-- `g` is `w` with some letters replaced by `z`. -/
def Blurs (g w : List α) : Prop := List.Forall₂ (fun b a => b = z ∨ b = a) g w

variable {z}

omit [DecidableEq α] in
theorem mem_generic {k : Nat} {ps : List (Level α)} {a : α} (h : a ∈ generic z k ps) :
    a = z ∨ Level.lit a ∈ ps := by
  induction ps with
  | nil => simp [generic] at h
  | cons p ps ih =>
    cases p with
    | many => exact .inl (List.eq_of_mem_replicate (by simpa [generic] using h))
    | one =>
      rcases List.mem_cons.1 (by simpa only [generic] using h) with rfl | h
      · exact .inl rfl
      · exact (ih h).imp_right (List.mem_cons_of_mem _)
    | lit b =>
      rcases List.mem_cons.1 (by simpa only [generic] using h) with rfl | h
      · exact .inr List.mem_cons_self
      · exact (ih h).imp_right (List.mem_cons_of_mem _)

theorem accepts_generic {ps : List (Level α)} (hlast : ManyLast ps) (k : Nat) :
    accepts ps (generic z k ps) = true := by
  induction ps with
  | nil => rfl
  | cons p ps ih =>
    cases p with
    | many =>
      obtain rfl := hlast.1 rfl
      exact accepts_many _
    | one => simpa [generic, accepts] using ih hlast.2
    | lit a => simpa [generic, accepts] using ih hlast.2

omit [DecidableEq α] in
theorem blurs_replicate (w : List α) : Blurs z (List.replicate w.length z) w := by
  induction w with
  | nil => exact List.Forall₂.nil
  | cons a w ih => exact List.Forall₂.cons (.inl rfl) ih

/-- Every word of a pattern is blurred to one of its generic words. -/
theorem exists_generic_blurs {ps : List (Level α)} {w : List α} (h : accepts ps w = true) :
    ∃ k, Blurs z (generic z k ps) w := by
  induction ps generalizing w with
  | nil =>
    obtain rfl : w = [] := by simpa [accepts] using h
    exact ⟨0, List.Forall₂.nil⟩
  | cons p ps ih =>
    by_cases hp : p = .many
    · subst hp
      exact ⟨w.length, blurs_replicate w⟩
    · obtain ⟨a, v, rfl, hcov, hv⟩ := exists_cons_of_accepts hp h
      obtain ⟨k, hk⟩ := ih hv
      refine ⟨k, ?_⟩
      cases p with
      | many => exact absurd rfl hp
      | one => exact List.Forall₂.cons (.inl rfl) hk
      | lit b => exact List.Forall₂.cons (.inr (by simpa [covers] using hcov)) hk

/-- A pattern that does not mention `z` cannot tell a blurred word from the word. -/
theorem accepts_of_blurs {e : List (Level α)} (hfresh : Level.lit z ∉ e) {g w : List α}
    (hblur : Blurs z g w) (h : accepts e g = true) : accepts e w = true := by
  induction e generalizing g w with
  | nil =>
    obtain rfl : g = [] := by simpa [accepts] using h
    cases hblur
    rfl
  | cons p e ih =>
    rw [List.mem_cons, not_or] at hfresh
    by_cases hp : p = .many
    · subst hp
      cases hblur with
      | nil => exact h
      | cons _ _ => rfl
    · obtain ⟨b, v, rfl, hcov, hv⟩ := exists_cons_of_accepts hp h
      cases hblur with
      | cons hba htail =>
        rw [accepts_cons hp, ih hfresh.2 htail hv, Bool.and_true]
        rcases hba with rfl | rfl
        · cases p with
          | many => exact absurd rfl hp
          | one => rfl
          | lit c =>
            obtain rfl : c = b := by simpa [covers] using hcov
            exact absurd rfl hfresh.1
        · exact hcov

omit [DecidableEq α] in
/-- A word without `z` blurs only itself. -/
theorem eq_of_blurs {g w : List α} (hblur : Blurs z g w) (hg : z ∉ g) : g = w := by
  induction hblur with
  | nil => rfl
  | cons hba _ ih =>
    rw [List.mem_cons, not_or] at hg
    rcases hba with rfl | rfl
    · exact absurd rfl hg.1
    · rw [ih hg.2]

/-- A pattern shorter than a word it accepts accepts every extension of that word. -/
theorem accepts_append {e : List (Level α)} {w : List α} (h : accepts e w = true)
    (hlen : e.length < w.length) (v : List α) : accepts e (w ++ v) = true := by
  induction e generalizing w with
  | nil =>
    obtain rfl : w = [] := by simpa [accepts] using h
    simp at hlen
  | cons p e ih =>
    cases w with
    | nil => simp at hlen
    | cons a w =>
      by_cases hp : p = .many
      · subst hp
        rfl
      · rw [accepts_cons hp, Bool.and_eq_true] at h
        rw [List.cons_append, accepts_cons hp, h.1, Bool.true_and]
        exact ih h.2 (by simpa using hlen)

omit [DecidableEq α] in
/-- Past any bound a generic word is the same, or a long one that only grows. -/
theorem generic_of_le {n k : Nat} (hle : n ≤ k) (ps : List (Level α)) :
    generic z k ps = generic z n ps ∨
      n ≤ (generic z n ps).length ∧ ∃ v, generic z k ps = generic z n ps ++ v := by
  induction ps with
  | nil => exact .inl rfl
  | cons p ps ih =>
    have hcons : ∀ a : α, a :: generic z k ps = a :: generic z n ps ∨
        n ≤ (a :: generic z n ps).length ∧
          ∃ v, a :: generic z k ps = a :: generic z n ps ++ v := by
      intro a
      rcases ih with h | ⟨hlen, v, hv⟩
      · exact .inl (by rw [h])
      · exact .inr ⟨Nat.le_succ_of_le hlen, v, by rw [hv, List.cons_append]⟩
    cases p with
    | many =>
      refine .inr ⟨by simp [generic], List.replicate (k - n) z, ?_⟩
      rw [generic, generic, List.replicate_append_replicate, Nat.add_sub_cancel' hle]
    | one => exact hcons z
    | lit a => exact hcons a

/-- **Coverage by a list of patterns is decided by finitely many generic words**: those with at most
`n` copies of a letter that the patterns do not mention, `n` longer than each of them. -/
theorem generic_covered_iff (good : α → Bool) (hz : good z = true) {a : α} (ha : a ≠ z)
    {ps : List (Level α)} (hlast : ManyLast ps) (hlts : ∀ b, Level.lit b ∈ ps → good b = true)
    {es : List (List (Level α))} (hfresh : ∀ e ∈ es, Level.lit z ∉ e) {n : Nat} (hn : 1 < n)
    (hlen : ∀ e ∈ es, e.length < n) :
    (∀ k ≤ n, Bare a (generic z k ps) ∨ ∃ e ∈ es, accepts e (generic z k ps) = true) ↔
      ∀ w, (∀ b ∈ w, good b = true) → accepts ps w = true →
        Bare a w ∨ ∃ e ∈ es, accepts e w = true := by
  constructor
  · intro h w _ hw
    obtain ⟨k, hk⟩ := exists_generic_blurs (z := z) hw
    have hcov : Bare a (generic z k ps) ∨ ∃ e ∈ es, accepts e (generic z k ps) = true := by
      rcases Nat.le_total k n with hle | hle
      · exact h k hle
      · rcases generic_of_le hle ps with heq | ⟨hlong, v, hv⟩
        · rw [heq]
          exact h n (Nat.le_refl n)
        · rcases h n (Nat.le_refl n) with (hnil | hone) | ⟨e, he, hacc⟩
          · rw [hnil] at hlong
            simp at hlong
            omega
          · rw [hone] at hlong
            simp at hlong
            omega
          · refine .inr ⟨e, he, ?_⟩
            rw [hv]
            exact accepts_append hacc (Nat.lt_of_lt_of_le (hlen e he) hlong) v
    rcases hcov with hbare | ⟨e, he, hacc⟩
    · refine .inl ?_
      have hzg : z ∉ generic z k ps := by
        rcases hbare with hnil | hone
        · simp [hnil]
        · simp [hone, ha.symm]
      rwa [← eq_of_blurs hk hzg]
    · exact .inr ⟨e, he, accepts_of_blurs (hfresh e he) hk hacc⟩
  · intro h k _
    refine h _ ?_ (accepts_generic hlast k)
    intro b hb
    rcases mem_generic hb with rfl | hlit
    · exact hz
    · exact hlts b hlit

end Generic

end Wildcard
