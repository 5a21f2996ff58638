import LumenMQ.Broker.Subscription

set_option autoImplicit false

/-! # Filters and the topics they match

`FilterMatches` states wildcard matching by rules over levels, and `WholeWildcards` where wildcards
may stand. The source compares level by level with separate cases for the end of the topic, the end
of the filter and a trailing `#`; on the filters it accepts, this is the relation of the rules. -/

namespace LumenMQ

/-- The rules of wildcard matching, on the levels of a topic and of a filter. -/
inductive FilterMatches : List String → List String → Prop where
  | nil : FilterMatches [] []
  | level {t f : String} {ts fs : List String} (hhash : f ≠ "#") (hlevel : f = "+" ∨ f = t)
      (hrest : FilterMatches ts fs) : FilterMatches (t :: ts) (f :: fs)
  | hash (ts : List String) : FilterMatches ts ["#"]

/-- A `#` occurs only as a whole last level, and a `+` only as a whole level. -/
def WholeWildcards (levels : List String) : Prop :=
  ∀ before seg after, levels = before ++ seg :: after →
    ('#' ∈ seg.toList → seg = "#" ∧ after = []) ∧ ('+' ∈ seg.toList → seg = "+")

theorem wholeWildcards_nil : WholeWildcards [] := by
  intro before seg after h
  simp at h

theorem wholeWildcards_cons (seg : String) (rest : List String) :
    WholeWildcards (seg :: rest) ↔
      (('#' ∈ seg.toList → seg = "#" ∧ rest = []) ∧ ('+' ∈ seg.toList → seg = "+")) ∧
        WholeWildcards rest := by
  constructor
  · intro h
    refine ⟨h [] seg rest rfl, fun before s after hrest => ?_⟩
    exact h (seg :: before) s after (by rw [hrest, List.cons_append])
  · rintro ⟨hseg, hrest⟩ before s after h
    cases before with
    | nil =>
      obtain ⟨rfl, rfl⟩ := List.cons.inj h
      exact hseg
    | cons b before => exact hrest before s after (List.cons.inj h).2

/-- The loop over the levels accepts exactly those with wildcards in their places. -/
theorem validateLevels_ok_iff (filter : String) (levels : List String) :
    validateLevels filter levels = .ok () ↔ WholeWildcards levels := by
  induction levels with
  | nil => exact ⟨fun _ => wholeWildcards_nil, fun _ => rfl⟩
  | cons seg rest ih =>
    have hself : seg = "#" → '#' ∈ seg.toList := by
      rintro rfl
      decide
    rw [wholeWildcards_cons, ← ih, validateLevels]
    split_ifs with h1 h2 h3
    · exact ⟨fun h => (nomatch h), fun h => absurd (h.1.1 h1.1).1 h1.2⟩
    · exact ⟨fun h => (nomatch h), fun h => absurd (h.1.1 (hself h2.1)).2 h2.2⟩
    · exact ⟨fun h => (nomatch h), fun h => absurd (h.1.2 h3.1) h3.2⟩
    · tauto

theorem validateFilter_ok_iff (filter : String) :
    validateFilter filter = .ok () ↔ filter ≠ "" ∧ WholeWildcards (split filter) := by
  rw [validateFilter, ← validateLevels_ok_iff filter]
  split_ifs with h
  · exact ⟨fun h => (nomatch h), fun hne => absurd h hne.1⟩
  · exact ⟨fun hv => ⟨h, hv⟩, fun hv => hv.2⟩

/-- Over levels with wildcards in their places, the loop decides the relation of the rules. -/
theorem topicMatchesLevels_iff {fs : List String} (hfs : WholeWildcards fs) (ts : List String) :
    topicMatchesLevels ts fs = true ↔ FilterMatches ts fs := by
  induction fs generalizing ts with
  | nil =>
    cases ts with
    | nil => exact ⟨fun _ => .nil, fun _ => rfl⟩
    | cons t ts =>
      refine ⟨fun h => ?_, fun h => ?_⟩
      · cases h
      · cases h
  | cons f fs ih =>
    obtain ⟨⟨hlast, -⟩, hrest⟩ := (wholeWildcards_cons f fs).mp hfs
    by_cases hf : f = "#"
    · subst hf
      obtain rfl := (hlast (by decide)).2
      refine ⟨fun _ => .hash ts, fun _ => ?_⟩
      cases ts with
      | nil => rfl
      | cons t ts => simp [topicMatchesLevels]
    · cases ts with
      | nil =>
        refine ⟨fun h => ?_, fun h => ?_⟩
        · simp [topicMatchesLevels, hf] at h
        · cases h with
          | hash => exact absurd rfl hf
      | cons t ts =>
        rw [topicMatchesLevels, if_neg hf]
        split_ifs with hlevel
        · rw [ih hrest ts]
          refine ⟨fun h => .level hf hlevel h, fun h => ?_⟩
          cases h with
          | level _ _ h => exact h
          | hash => exact absurd rfl hf
        · refine ⟨fun h => (nomatch h), fun h => ?_⟩
          cases h with
          | level _ h _ => exact absurd h hlevel
          | hash => exact absurd rfl hf

/-- **Matching is wildcard matching.** `validateFilter` accepts exactly the non-empty filters whose
    wildcards stand in their places, and on those `topicMatchesFilter` decides the relation of the
    rules for every non-empty topic. -/
theorem topicMatchesFilter_iff (topic filter : String) :
    (validateFilter filter = .ok () ↔ filter ≠ "" ∧ WholeWildcards (split filter)) ∧
    (topic ≠ "" → validateFilter filter = .ok () →
      (topicMatchesFilter topic filter = true ↔ FilterMatches (split topic) (split filter))) := by
  refine ⟨validateFilter_ok_iff filter, fun ht hvalid => ?_⟩
  obtain ⟨hne, hwhole⟩ := (validateFilter_ok_iff filter).mp hvalid
  rw [topicMatchesFilter, if_neg (by tauto)]
  exact topicMatchesLevels_iff hwhole (split topic)

theorem topicMatchesFilter_iff_trailing :
    FilterMatches (split "a/b") (split "a/b/#") :=
  ((topicMatchesFilter_iff "a/b" "a/b/#").2 (by decide) (by decide +kernel)).mp (by decide +kernel)

end LumenMQ
