import Mathlib.Algebra.Order.BigOperators.Group.List
import Mathlib.Algebra.Order.Group.Nat
import LumenMQ.Lib.Wildcard
import LumenMQ.Broker.SubscriptionRefinement
import LumenMQ.Plugin.TopicAcl

set_option autoImplicit false

/-! # What the subscribe ACL guarantees

A subscription is a set of topics, and the ACL is asked about the filter that denotes it as if the
filter were a topic. That is right for a filter without wildcards; in general it is right exactly
when the topics of the filter avoid the blacklist and stay inside the whitelist, which
`subscribeSafe` decides. -/

namespace LumenMQ

open List

variable {topic filter seg : String} {levels : List String}

open Wildcard

/-! ## Filters as patterns -/

/-- A level of a filter as a level of a pattern. -/
def levelOf (seg : String) : Level String :=
  if seg = "#" then .many else if seg = "+" then .one else .lit seg

/-- The pattern of a filter. -/
def pattern (filter : String) : List (Level String) := (split filter).map levelOf

/-- A level that a concrete topic can have. -/
def plainLevel (seg : String) : Bool :=
  seg.toList.all (fun c => c ≠ '+' && c ≠ '#' && c ≠ '/')

/-- A topic one can publish to: not empty and without wildcards. -/
def Concrete (topic : String) : Prop := topic ≠ "" ∧ '+' ∉ topic.toList ∧ '#' ∉ topic.toList

theorem topicMatchesLevels_eq_accepts (ts fs : List String) :
    topicMatchesLevels ts fs = accepts (fs.map levelOf) ts := by
  induction fs generalizing ts with
  | nil => cases ts <;> simp [topicMatchesLevels, accepts]
  | cons f fs ih =>
    rw [map_cons, levelOf]
    cases ts with
    | nil =>
      by_cases hhash : f = "#"
      · cases fs <;> simp [topicMatchesLevels, accepts, hhash]
      · by_cases hplus : f = "+" <;> simp [topicMatchesLevels, accepts, hhash, hplus]
    | cons t ts =>
      by_cases hhash : f = "#"
      · simp [topicMatchesLevels, accepts, hhash]
      · by_cases hplus : f = "+"
        · simp [topicMatchesLevels, accepts, hplus, ih]
        · rw [if_neg hhash, if_neg hplus]
          by_cases heq : f = t
          · subst heq
            simp [topicMatchesLevels, accepts, hhash, ih]
          · simp [topicMatchesLevels, accepts, hhash, hplus, heq]

theorem topicMatchesFilter_eq_accepts (ht : topic ≠ "") : topicMatchesFilter topic filter = true ↔
      filter ≠ "" ∧ accepts (pattern filter) (split topic) = true := by
  unfold topicMatchesFilter pattern
  by_cases hf : filter = ""
  · simp [hf]
  · simp [ht, hf, topicMatchesLevels_eq_accepts]

/-! ## Topics as words -/

theorem not_mem_of_mem_splitOn {seg cs : List Char} (h : seg ∈ cs.splitOn '/') : '/' ∉ seg := by
  induction cs generalizing seg with
  | nil =>
    obtain rfl : seg = [] := by simpa using h
    simp
  | cons c cs ih =>
    rw [splitOn_cons_eq_if_modifyHead] at h
    by_cases hc : (c == '/') = true
    · rw [if_pos hc] at h
      rcases mem_cons.1 h with rfl | h
      · simp
      · exact ih h
    · rw [if_neg hc] at h
      cases hcs : cs.splitOn '/' with
      | nil => exact absurd hcs (by simp)
      | cons first rest =>
        rw [hcs] at h ih
        rcases mem_cons.1 (by simpa using h) with rfl | h
        · have hfirst := ih mem_cons_self
          simp only [mem_cons, not_or]
          exact ⟨fun heq => hc (by simp [← heq]), hfirst⟩
        · exact ih (mem_cons_of_mem _ h)

theorem not_mem_of_mem_split {s : String} (h : seg ∈ split s) : '/' ∉ seg.toList := by
  unfold split at h
  obtain ⟨cs, hcs, rfl⟩ := mem_map.1 h
  simpa using not_mem_of_mem_splitOn hcs

theorem split_join (hne : levels ≠ []) (h : ∀ seg ∈ levels, '/' ∉ seg.toList) :
    split (join levels) = levels := by
  unfold split join
  rw [String.toList_ofList, splitOn_intercalate]
  · simp
  · intro l hl
    obtain ⟨seg, hseg, rfl⟩ := mem_map.1 hl
    exact h seg hseg
  · simpa using hne

theorem plainLevel_iff :
    plainLevel seg = true ↔ '+' ∉ seg.toList ∧ '#' ∉ seg.toList ∧ '/' ∉ seg.toList := by
  unfold plainLevel
  rw [all_eq_true]
  constructor
  · intro h
    refine ⟨?_, ?_, ?_⟩ <;> intro hc <;> simpa using h _ hc
  · intro ⟨hplus, hhash, hslash⟩ c hc
    have hne : ∀ d, d ∉ seg.toList → c ≠ d := fun d hd heq => hd (heq ▸ hc)
    simp [hne _ hplus, hne _ hhash, hne _ hslash]

theorem sublist_intercalate (sep : List Char) {ls : List (List Char)} {l : List Char}
    (hl : l ∈ ls) : l.Sublist (sep.intercalate ls) := by
  induction ls with
  | nil => simp at hl
  | cons first rest ih =>
    cases rest with
    | nil =>
      obtain rfl : l = first := by simpa using hl
      simp
    | cons second rest =>
      rw [intercalate_cons_cons]
      rcases mem_cons.1 hl with rfl | hl
      · exact (sublist_append_left _ _).trans (sublist_append_left _ _)
      · exact (ih hl).trans (sublist_append_right _ _)

theorem mem_intercalate {sep : List Char} {c : Char} {ls : List (List Char)}
    (h : c ∈ sep.intercalate ls) : c ∈ sep ∨ ∃ l ∈ ls, c ∈ l := by
  induction ls with
  | nil => simp at h
  | cons first rest ih =>
    cases rest with
    | nil => exact .inr ⟨first, by simp, by simpa using h⟩
    | cons second rest =>
      rw [intercalate_cons_cons, mem_append, mem_append] at h
      rcases h with (h | h) | h
      · exact .inr ⟨first, by simp, h⟩
      · exact .inl h
      · exact (ih h).imp_right (fun ⟨l, hl, hc⟩ => ⟨l, mem_cons_of_mem _ hl, hc⟩)

/-- A level is part of the string it was split from. -/
theorem sublist_of_mem_split {s : String} (h : seg ∈ split s) : seg.toList.Sublist s.toList := by
  have hsub := sublist_intercalate ['/'] (mem_map_of_mem (f := String.toList) h)
  have hjoin := congrArg String.toList (join_split s)
  rw [join, String.toList_ofList] at hjoin
  rwa [hjoin] at hsub

/-- The levels of a concrete topic are plain. -/
theorem Concrete.plainLevel (h : Concrete topic) : ∀ seg ∈ split topic, plainLevel seg = true := by
  intro seg hseg
  have hsub := sublist_of_mem_split hseg
  exact plainLevel_iff.2
    ⟨fun hc => h.2.1 (hsub.mem hc), fun hc => h.2.2 (hsub.mem hc), not_mem_of_mem_split hseg⟩

theorem not_bare_split (h : topic ≠ "") : ¬ Bare "" (split topic) := by
  intro hbare
  rcases hbare with hnil | hone
  · exact split_ne_nil topic hnil
  · have hempty : split topic = split "" := by
      rw [hone]
      decide
    exact h (split_injective hempty)

/-- The empty rule matches no topic. -/
theorem bare_of_accepts_empty {w : List String} (h : accepts (pattern "") w = true) :
    Bare "" w := by
  obtain ⟨a, v, rfl, hcov, hv⟩ := exists_cons_of_accepts (p := .lit "") (by simp) h
  refine .inr ?_
  simp_all [covers, accepts]

/-- A word of plain levels that is not bare is a concrete topic. -/
theorem exists_topic (hplain : ∀ seg ∈ levels, plainLevel seg = true) (hbare : ¬ Bare "" levels) :
    ∃ topic, Concrete topic ∧ split topic = levels := by
  have hne : levels ≠ [] := fun h => hbare (.inl h)
  have hsplit : split (join levels) = levels :=
    split_join hne (fun seg hseg => (plainLevel_iff.1 (hplain seg hseg)).2.2)
  have hchar : ∀ c ∈ (join levels).toList, c = '/' ∨ ∃ seg ∈ levels, c ∈ seg.toList := by
    intro c hc
    rw [join, String.toList_ofList] at hc
    rcases mem_intercalate hc with hc | ⟨l, hl, hc⟩
    · exact .inl (by simpa using hc)
    · obtain ⟨seg, hseg, rfl⟩ := mem_map.1 hl
      exact .inr ⟨seg, hseg, hc⟩
  refine ⟨join levels, ⟨?_, ?_, ?_⟩, hsplit⟩
  · intro hempty
    rw [hempty] at hsplit
    exact hbare (.inr (hsplit.symm.trans (by decide)))
  · intro hc
    rcases hchar _ hc with h | ⟨seg, hseg, h⟩
    · exact absurd h (by decide)
    · exact (plainLevel_iff.1 (hplain seg hseg)).1 h
  · intro hc
    rcases hchar _ hc with h | ⟨seg, hseg, h⟩
    · exact absurd h (by decide)
    · exact (plainLevel_iff.1 (hplain seg hseg)).2.1 h

/-! ## The exact check -/

/-- The filter that is matched against topics: a shared subscription without its prefix. -/
def realFilter (filter : String) : String :=
  match parseSharedFilter filter with
  | some (_, realFilter) => realFilter
  | none => filter

/-- The subscription matches no topic that the rule matches. -/
def avoids (filter rule : String) : Bool :=
  match common plainLevel "x" (pattern filter) (pattern rule) with
  | some levels => levels = [] || levels = [""]
  | none => true

/-- A level that is longer than every rule. -/
def freshLevel (rules : List String) : String :=
  String.ofList (List.replicate ((rules.map String.length).sum + 1) 'x')

/-- More levels than any rule has. -/
def depth (rules : List String) : Nat := (rules.map (fun rule => (pattern rule).length)).sum + 2

/-- Every topic of the filter is matched by some rule: the generic topics are. -/
def coveredBy (filter : String) (rules : List String) : Bool :=
  (List.range (depth rules + 1)).all (fun k =>
    let levels := generic (freshLevel rules) k (pattern filter)
    levels = [] || levels = [""] || rules.any (fun rule => accepts (pattern rule) levels))

/-- The question `checkSubscribe` should have answered. -/
def TopicAcl.subscribeSafe (acl : TopicAcl) (filter : String) : Bool :=
  acl.subscribeBlacklist.all (avoids (realFilter filter)) &&
    (acl.subscribeWhitelist.isEmpty || coveredBy (realFilter filter) acl.subscribeWhitelist)

/-! ## Accepted filters -/

theorem validateFilter_realFilter {t : SubscriptionTree} {c : String} {q : QoS}
    (h : (t.subscribe c filter q).1 = .ok ()) : validateFilter (realFilter filter) = .ok () := by
  unfold SubscriptionTree.subscribe at h
  unfold realFilter
  cases hshared : parseSharedFilter filter with
  | none =>
    rw [hshared] at h
    cases hvalid : validateFilter filter with
    | error e => simp [hvalid] at h
    | ok u => rfl
  | some key =>
    obtain ⟨group, real⟩ := key
    rw [hshared] at h
    cases hvalid : validateFilter real with
    | error e => simp [hvalid] at h
    | ok u => rfl

theorem manyLast_of_hashLast (h : HashLast levels) : ManyLast (levels.map levelOf) := by
  induction levels with
  | nil => exact trivial
  | cons seg rest ih =>
    refine ⟨?_, ih h.2⟩
    intro hmany
    have hseg : seg = "#" := by
      unfold levelOf at hmany
      split_ifs at hmany with hhash
      exact hhash
    simp [h.1 hseg]

theorem mem_pattern_lit (h : Level.lit seg ∈ pattern filter) :
    seg ∈ split filter ∧ seg ≠ "#" ∧ seg ≠ "+" := by
  obtain ⟨s, hs, hlevel⟩ := mem_map.1 h
  unfold levelOf at hlevel
  split_ifs at hlevel with hhash hplus
  obtain rfl := Level.lit.inj hlevel
  exact ⟨hs, hhash, hplus⟩

/-- A level of a valid filter with a wildcard in it is that wildcard. -/
theorem wildcards_of_validateLevels (h : validateLevels filter levels = .ok ()) :
    ∀ seg ∈ levels, ('#' ∈ seg.toList → seg = "#") ∧ ('+' ∈ seg.toList → seg = "+") := by
  induction levels with
  | nil => simp
  | cons seg rest ih =>
    rw [validateLevels] at h
    split_ifs at h with h1 h2 h3
    intro s hs
    rcases mem_cons.1 hs with rfl | hs
    · exact ⟨fun hc => by_contra fun hne => h1 ⟨hc, hne⟩,
        fun hc => by_contra fun hne => h3 ⟨hc, hne⟩⟩
    · exact ih h s hs

theorem plainLevel_of_mem_pattern (h : validateFilter filter = .ok ())
    (hseg : Level.lit seg ∈ pattern filter) : plainLevel seg = true := by
  rw [validateFilter] at h
  split_ifs at h
  obtain ⟨hmem, hhash, hplus⟩ := mem_pattern_lit hseg
  obtain ⟨himp, himpP⟩ := wildcards_of_validateLevels h seg hmem
  exact plainLevel_iff.2
    ⟨fun hc => hplus (himpP hc), fun hc => hhash (himp hc), not_mem_of_mem_split hmem⟩

/-! ## The fresh level -/

theorem plainLevel_freshLevel (rules : List String) : plainLevel (freshLevel rules) = true := by
  rw [plainLevel_iff, freshLevel, String.toList_ofList]
  refine ⟨?_, ?_, ?_⟩ <;> intro hc <;> exact absurd (eq_of_mem_replicate hc) (by decide)

theorem freshLevel_ne_empty (rules : List String) : freshLevel rules ≠ "" := by
  intro h
  have hlen := congrArg String.length h
  simp [freshLevel] at hlen

theorem freshLevel_not_mem (rules : List String) :
    ∀ e ∈ rules.map pattern, Level.lit (freshLevel rules) ∉ e := by
  intro e he hlit
  obtain ⟨rule, hrule, rfl⟩ := mem_map.1 he
  have hlevel := (sublist_of_mem_split (mem_pattern_lit hlit).1).length_le
  have hsum := le_sum_of_mem (mem_map_of_mem (f := String.length) hrule)
  rw [freshLevel, String.toList_ofList, length_replicate, String.length_toList] at hlevel
  omega

theorem length_lt_depth (rules : List String) :
    ∀ e ∈ rules.map pattern, e.length < depth rules := by
  intro e he
  obtain ⟨rule, hrule, rfl⟩ := mem_map.1 he
  have hsum := le_sum_of_mem
    (mem_map_of_mem (f := fun rule => (pattern rule).length) hrule)
  unfold depth
  omega

section Accepted

variable {filter : String} (hvalid : validateFilter filter = .ok ())

include hvalid

theorem ne_empty_of_validateFilter : filter ≠ "" := by
  intro hempty
  simp [validateFilter, hempty] at hvalid

theorem manyLast_pattern : ManyLast (pattern filter) :=
  manyLast_of_hashLast (hashLast_of_validateFilter hvalid)

/-- `avoids` decides whether a rule matches a topic of the filter. -/
theorem avoids_iff (rule : String) :
    avoids filter rule = true ↔
      ∀ topic, Concrete topic → topicMatchesFilter topic filter = true →
        topicMatchesFilter topic rule = false := by
  have hbare : avoids filter rule = true ↔
      ∀ w, common plainLevel "x" (pattern filter) (pattern rule) = some w → Bare "" w := by
    unfold avoids Bare
    cases common plainLevel "x" (pattern filter) (pattern rule) <;> simp
  rw [hbare, common_bare_iff (by decide) (by decide) (manyLast_pattern hvalid)]
  constructor
  · intro h topic htop hmatch
    rw [topicMatchesFilter_eq_accepts htop.1] at hmatch
    rw [← Bool.not_eq_true, topicMatchesFilter_eq_accepts htop.1]
    intro hrule
    exact not_bare_split htop.1 (h _ htop.plainLevel hmatch.2 hrule.2)
  · intro h w hplain hfilter hrule
    by_contra hnot
    obtain ⟨topic, htop, rfl⟩ := exists_topic hplain hnot
    have hmatch := (topicMatchesFilter_eq_accepts htop.1).2
      ⟨ne_empty_of_validateFilter hvalid, hfilter⟩
    have hrule' : rule ≠ "" := by
      intro hempty
      subst hempty
      exact hnot (bare_of_accepts_empty hrule)
    have hboth := (topicMatchesFilter_eq_accepts htop.1).2 ⟨hrule', hrule⟩
    rw [h topic htop hmatch] at hboth
    exact Bool.false_ne_true hboth

/-- `coveredBy` decides whether the rules together match every topic of the filter. -/
theorem coveredBy_iff (rules : List String) :
    coveredBy filter rules = true ↔
      ∀ topic, Concrete topic → topicMatchesFilter topic filter = true →
        ∃ rule ∈ rules, topicMatchesFilter topic rule = true := by
  have hgeneric := generic_covered_iff plainLevel (plainLevel_freshLevel rules)
    (freshLevel_ne_empty rules).symm (manyLast_pattern hvalid)
    (fun _ => plainLevel_of_mem_pattern hvalid) (freshLevel_not_mem rules)
    (Nat.le_add_left 2 _) (length_lt_depth rules)
  have hcheck : coveredBy filter rules = true ↔
      ∀ k ≤ depth rules, Bare "" (generic (freshLevel rules) k (pattern filter)) ∨
        ∃ e ∈ rules.map pattern,
          accepts e (generic (freshLevel rules) k (pattern filter)) = true := by
    simp only [coveredBy, List.all_eq_true, List.mem_range, Nat.lt_succ_iff]
    simp [Bare]
  rw [hcheck]
  refine hgeneric.trans ?_
  constructor
  · intro h topic htop hmatch
    rw [topicMatchesFilter_eq_accepts htop.1] at hmatch
    rcases h _ htop.plainLevel hmatch.2 with hbare | ⟨e, he, hacc⟩
    · exact absurd hbare (not_bare_split htop.1)
    · obtain ⟨rule, hrule, rfl⟩ := mem_map.1 he
      refine ⟨rule, hrule, (topicMatchesFilter_eq_accepts htop.1).2 ⟨?_, hacc⟩⟩
      intro hempty
      subst hempty
      exact not_bare_split htop.1 (bare_of_accepts_empty hacc)
  · intro h w hplain hfilter
    by_cases hbare : Bare "" w
    · exact .inl hbare
    · obtain ⟨topic, htop, rfl⟩ := exists_topic hplain hbare
      obtain ⟨rule, hrule, hmatch⟩ := h topic htop ((topicMatchesFilter_eq_accepts htop.1).2
        ⟨ne_empty_of_validateFilter hvalid, hfilter⟩)
      exact .inr ⟨pattern rule, mem_map_of_mem hrule,
        ((topicMatchesFilter_eq_accepts htop.1).1 hmatch).2⟩

end Accepted

/-! ## Soundness -/

/-- Every concrete topic that the subscription matches is permitted by the subscribe rules. -/
def TopicAcl.SubscribeSound (acl : TopicAcl) (filter : String) : Prop :=
  ∀ topic, Concrete topic → topicMatchesFilter topic (realFilter filter) = true →
    TopicAcl.Permits acl.subscribeBlacklist acl.subscribeWhitelist topic

theorem TopicAcl.subscribeSound_iff (acl : TopicAcl)
    (hvalid : validateFilter (realFilter filter) = .ok ()) :
    acl.SubscribeSound filter ↔ acl.subscribeSafe filter = true := by
  unfold SubscribeSound subscribeSafe Permits
  rw [Bool.and_eq_true, List.all_eq_true, Bool.or_eq_true, List.isEmpty_iff,
    coveredBy_iff hvalid]
  constructor
  · intro h
    refine ⟨?_, ?_⟩
    · intro rule hrule
      exact (avoids_iff hvalid rule).2 (fun topic htop hmatch => (h topic htop hmatch).1 rule hrule)
    · by_cases hwhite : acl.subscribeWhitelist = []
      · exact .inl hwhite
      · exact .inr (fun topic htop hmatch => (h topic htop hmatch).2 hwhite)
  · intro ⟨hblack, hwhite⟩ topic htop hmatch
    refine ⟨?_, ?_⟩
    · intro rule hrule
      exact (avoids_iff hvalid rule).1 (hblack rule hrule) topic htop hmatch
    · intro hne
      exact hwhite.resolve_left hne topic htop hmatch

/-- **When a subscription is confined to the permitted topics**, allowed or not: exactly when the
topics of the filter avoid the blacklist and are covered by the whitelist. -/
theorem TopicAcl.checkSubscribe_sound_iff (acl : TopicAcl) (t : SubscriptionTree)
    (c filter : String) (q : QoS) (hok : (t.subscribe c filter q).1 = .ok ()) :
    (∀ topic, Concrete topic → topicMatchesFilter topic (realFilter filter) = true →
      (∀ rule ∈ acl.subscribeBlacklist, topicMatchesFilter topic rule = false) ∧
        (acl.subscribeWhitelist ≠ [] →
          ∃ rule ∈ acl.subscribeWhitelist, topicMatchesFilter topic rule = true)) ↔
      acl.subscribeSafe filter = true :=
  acl.subscribeSound_iff (validateFilter_realFilter hok)

/-- An allowed subscription to the rooms of one building, inside the whitelist. -/
theorem TopicAcl.checkSubscribe_sound_iff_rooms :
    TopicAcl.checkSubscribe { subscribeWhitelist := ["building/#"] } "building/1/+" = .allow ∧
      ∀ topic, Concrete topic → topicMatchesFilter topic (realFilter "building/1/+") = true →
        (∀ rule ∈ [], topicMatchesFilter topic rule = false) ∧
          (["building/#"] ≠ [] →
            ∃ rule ∈ ["building/#"], topicMatchesFilter topic rule = true) :=
  ⟨by decide, (TopicAcl.checkSubscribe_sound_iff { subscribeWhitelist := ["building/#"] } {} "c"
    "building/1/+" .atMostOnce (by decide)).2 (by decide)⟩

/-- **A wildcard subscription gets past the blacklist.** The rule is not matched by the filter `#`
read as a topic, and the subscription then matches every topic of the rule. -/
theorem TopicAcl.checkSubscribe_hash_unsound :
    (SubscriptionTree.subscribe {} "c" "#" .atMostOnce).1 = .ok () ∧
      TopicAcl.checkSubscribe { subscribeBlacklist := ["secret/x"] } "#" = .allow ∧
      Concrete "secret/x" ∧ topicMatchesFilter "secret/x" (realFilter "#") = true ∧
      topicMatchesFilter "secret/x" "secret/x" = true := by
  refine ⟨by decide, by decide, ⟨by decide, by decide, by decide⟩, by decide, by decide⟩

end LumenMQ
