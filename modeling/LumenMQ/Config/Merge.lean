import LumenMQ.Lib.AssocList

set_option autoImplicit false

/-! # Merging configurations

The configuration is read from `default.toml`; a profile is laid over it. Tables are merged key by
key, everything else is replaced. -/

namespace LumenMQ

/-- A value of a configuration file. The entries of a table are those of a map, so no key occurs
    twice; floats are their bits, dates their text. -/
inductive Toml where
  | string (s : String)
  | integer (i : Int)
  | float (bits : UInt64)
  | boolean (b : Bool)
  | datetime (text : String)
  | array (items : List Toml)
  | table (entries : List (String × Toml))
deriving Repr

namespace Toml

variable {base overlay v : Toml} {k : String} {path : List String}
  {baseTbl overlayTbl : List (String × Toml)}

mutual

/-- Lay one value over another. -/
def deepMerge (base : Toml) : Toml → Toml
  | .table overlayTbl =>
    match base with
    | .table baseTbl => .table (mergeEntries baseTbl overlayTbl)
    | _ => .table overlayTbl
  | v => v

/-- The loop of `deepMerge` over the entries of a table. -/
def mergeEntries (baseTbl : List (String × Toml)) :
    List (String × Toml) → List (String × Toml)
  | [] => baseTbl
  | (k, v) :: rest =>
    let merged := match baseTbl.lookup k with
      | some existing => deepMerge existing v
      | none => v
    mergeEntries (setEntry k merged baseTbl) rest

end

/-- The value at a path of keys. -/
def valueAt : Toml → List String → Option Toml
  | v, [] => some v
  | .table entries, k :: path => (entries.lookup k).bind (fun v => v.valueAt path)
  | _, _ :: _ => none

def isTable : Toml → Bool
  | .table _ => true
  | _ => false

/-- No key occurs twice in a table, as in every file that was read. -/
inductive Distinct : Toml → Prop
  | leaf (v : Toml) : v.isTable = false → Distinct v
  | table (entries : List (String × Toml)) : (entries.map Prod.fst).Nodup →
      (∀ e ∈ entries, Distinct e.2) → Distinct (.table entries)

/-! ## One level -/

theorem deepMerge_of_not_table (h : base.isTable = false ∨ overlay.isTable = false) :
    deepMerge base overlay = overlay := by
  cases overlay with
  | table =>
    cases base with
    | table => simp [isTable] at h
    | _ => rfl
  | _ => rfl

/-- A value as it stands after an overlay's value for its key, if there is one. -/
def overlaid : Option Toml → Option Toml → Option Toml
  | old, none => old
  | some old, some v => some (deepMerge old v)
  | none, some v => some v

/-- The keys are merged independently of each other. -/
theorem lookup_mergeEntries (hkeys : (overlayTbl.map Prod.fst).Nodup) (k : String) :
    (mergeEntries baseTbl overlayTbl).lookup k =
      overlaid (baseTbl.lookup k) (overlayTbl.lookup k) := by
  induction overlayTbl generalizing baseTbl with
  | nil => rfl
  | cons e rest ih =>
    obtain ⟨k', v⟩ := e
    rw [List.map_cons, List.nodup_cons] at hkeys
    rw [mergeEntries, ih hkeys.2, lookup_setEntry, lookup_cons_eq_if]
    by_cases hk : k = k'
    · subst hk
      have hnone : rest.lookup k = none := by
        rw [Option.eq_none_iff_forall_ne_some]
        intro v' hget
        exact hkeys.1 (List.mem_map.2 ⟨_, (lookup_eq_some_iff_mem hkeys.2).1 hget, rfl⟩)
      rw [if_pos rfl, if_pos rfl, hnone]
      cases baseTbl.lookup k <;> rfl
    · rw [if_neg hk, if_neg hk]

theorem Distinct.lookup (h : (Toml.table overlayTbl).Distinct)
    (hget : overlayTbl.lookup k = some v) : v.Distinct := by
  cases h with
  | leaf _ hleaf => simp [isTable] at hleaf
  | table _ hkeys hall => exact hall _ ((lookup_eq_some_iff_mem hkeys).1 hget)

theorem Distinct.nodup (h : (Toml.table overlayTbl).Distinct) :
    (overlayTbl.map Prod.fst).Nodup := by
  cases h with
  | leaf _ hleaf => simp [isTable] at hleaf
  | table _ hkeys _ => exact hkeys

/-! ## Along a path -/

/-- Where the overlay has a value, it is laid over what the base has there. -/
theorem valueAt_deepMerge_of_some (hov : overlay.Distinct) (h : overlay.valueAt path = some v) :
    (deepMerge base overlay).valueAt path = overlaid (base.valueAt path) (some v) := by
  induction path generalizing base overlay with
  | nil =>
    cases h
    rfl
  | cons k path ih =>
    cases overlay with
    | table overlayTbl =>
      cases base with
      | table baseTbl =>
        obtain ⟨v', hget, hv'⟩ := Option.bind_eq_some_iff.1 h
        rw [deepMerge, valueAt, lookup_mergeEntries hov.nodup, hget, valueAt]
        cases baseTbl.lookup k with
        | none => exact hv'
        | some old => exact ih (hov.lookup hget) hv'
      | _ => exact h
    | _ => cases h

/-- Where the overlay has nothing, the base's value stays, as long as tables lead there. -/
theorem valueAt_deepMerge_of_none (hov : overlay.Distinct) (h : overlay.valueAt path = none)
    (hpre : ∀ q, q <+: path → q ≠ path → (overlay.valueAt q).isSome = true →
      (overlay.valueAt q).any isTable = true ∧ (base.valueAt q).any isTable = true) :
    (deepMerge base overlay).valueAt path = base.valueAt path := by
  induction path generalizing base overlay with
  | nil => cases h
  | cons k path ih =>
    obtain ⟨htov, htbase⟩ := hpre [] List.nil_prefix (by simp) rfl
    cases overlay with
    | table overlayTbl =>
      cases base with
      | table baseTbl =>
        rw [deepMerge, valueAt, lookup_mergeEntries hov.nodup, valueAt]
        cases hget : overlayTbl.lookup k with
        | none => cases baseTbl.lookup k <;> rfl
        | some v =>
          rw [valueAt, hget] at h
          have hne : path ≠ [] := by
            rintro rfl
            cases h
          -- the key itself leads to a table in both
          have hkey := hpre [k] (by simp) (by simpa using hne.symm) (by simp [valueAt, hget])
          cases hold : baseTbl.lookup k with
          | none => simp [valueAt, hold] at hkey
          | some old =>
            refine ih (hov.lookup hget) h (fun q hq hqne hsome => ?_)
            have hq' := hpre (k :: q) (by simpa using hq) (by simpa using hqne)
            simp only [valueAt, hget, hold, Option.bind_some] at hq'
            exact hq' hsome
      | _ => cases htbase
    | _ => cases htov

/-! ## Merging again -/

/-- A table that has taken in all entries does not change by them. -/
theorem mergeEntries_eq_self
    (h : ∀ e ∈ overlayTbl, ∃ old, baseTbl.lookup e.1 = some old ∧ deepMerge old e.2 = old) :
    mergeEntries baseTbl overlayTbl = baseTbl := by
  induction overlayTbl with
  | nil => rfl
  | cons e rest ih =>
    obtain ⟨k, v⟩ := e
    rw [List.forall_mem_cons] at h
    obtain ⟨⟨old, hget, hmerge⟩, hrest⟩ := h
    rw [mergeEntries, hget]
    simp only [hmerge]
    rw [setEntry_of_lookup hget, ih hrest]

theorem deepMerge_self (h : v.Distinct) : deepMerge v v = v := by
  induction h with
  | leaf v hleaf => exact deepMerge_of_not_table (.inl hleaf)
  | table entries hkeys _ ih =>
    rw [deepMerge, mergeEntries_eq_self]
    exact fun e he => ⟨e.2, (lookup_eq_some_iff_mem hkeys).2 he, ih e he⟩

theorem deepMerge_deepMerge (h : overlay.Distinct) (base : Toml) :
    deepMerge (deepMerge base overlay) overlay = deepMerge base overlay := by
  induction h generalizing base with
  | leaf v hleaf => rw [deepMerge_of_not_table (.inr hleaf), deepMerge_of_not_table (.inr hleaf)]
  | table entries hkeys hall ih =>
    cases base with
    | table baseTbl =>
      rw [deepMerge, deepMerge, mergeEntries_eq_self]
      intro e he
      rw [lookup_mergeEntries hkeys, (lookup_eq_some_iff_mem hkeys).2 he]
      cases baseTbl.lookup e.1 with
      | none => exact ⟨e.2, rfl, deepMerge_self (hall e he)⟩
      | some old => exact ⟨_, rfl, ih e he old⟩
    | _ => exact deepMerge_self (.table entries hkeys hall)

/-- **A profile overrides exactly what it sets**: its values that are no tables are there after the
    merge; what it does not mention stays; a table in it replaces what is no table; and merging it
    again changes nothing. -/
theorem deepMerge_overrides (base : Toml) (hov : overlay.Distinct) :
    (∀ path v, overlay.valueAt path = some v → v.isTable = false →
      (deepMerge base overlay).valueAt path = some v) ∧
    (∀ path, overlay.valueAt path = none →
      (∀ q, q <+: path → q ≠ path → (overlay.valueAt q).isSome = true →
        (overlay.valueAt q).any isTable = true ∧ (base.valueAt q).any isTable = true) →
      (deepMerge base overlay).valueAt path = base.valueAt path) ∧
    (∀ path v old, overlay.valueAt path = some v → v.isTable = true → base.valueAt path = some old →
      old.isTable = false → (deepMerge base overlay).valueAt path = some v) ∧
    deepMerge (deepMerge base overlay) overlay = deepMerge base overlay := by
  refine ⟨fun path v hv hleaf => ?_, fun path h hpre => valueAt_deepMerge_of_none hov h hpre,
    fun path v old hv _ hold hleaf => ?_, deepMerge_deepMerge hov base⟩
  · rw [valueAt_deepMerge_of_some hov hv]
    cases base.valueAt path with
    | none => rfl
    | some old => rw [overlaid, deepMerge_of_not_table (.inr hleaf)]
  · rw [valueAt_deepMerge_of_some hov hv, hold, overlaid, deepMerge_of_not_table (.inl hleaf)]

/-- A profile that lowers one limit and turns a switch into a section. -/
theorem deepMerge_overrides_profile :
    let base := table [("broker", table [("max_inflight", integer 64), ("node", string "a")]),
      ("plugin", boolean false)]
    let overlay := table [("broker", table [("max_inflight", integer 16)]),
      ("plugin", table [("enabled", boolean true)])]
    overlay.Distinct ∧
      (deepMerge base overlay).valueAt ["broker", "max_inflight"] = some (integer 16) ∧
      (deepMerge base overlay).valueAt ["broker", "node"] = some (string "a") ∧
      (deepMerge base overlay).valueAt ["plugin"] = some (table [("enabled", boolean true)]) ∧
      deepMerge (deepMerge base overlay) overlay = deepMerge base overlay := by
  intro base overlay
  have hsection : ∀ k i, isTable i = false → (table [(k, i)]).Distinct := fun k i hi =>
    .table _ (List.nodup_singleton k) (List.forall_mem_singleton.2 (.leaf i hi))
  have hdis : overlay.Distinct := .table _ (by decide) (List.forall_mem_cons.2
    ⟨hsection _ _ rfl, List.forall_mem_singleton.2 (hsection _ _ rfl)⟩)
  obtain ⟨hset, -, htable, hagain⟩ := deepMerge_overrides base hdis
  exact ⟨hdis, hset _ _ rfl rfl, rfl, htable _ _ _ rfl rfl rfl rfl, hagain⟩

/-! ## The environment -/

/-- The environment variables that override a value: `LUMENMQ_TCP_BIND`, `LUMENMQ_LOG_LEVEL` and
    `LUMENMQ_NODE_ID`. -/
structure Env where
  tcpBind : Option String := none
  logLevel : Option String := none
  nodeId : Option String := none
deriving DecidableEq, Repr

/-- Set a key of a section, which is made if it is missing; what is not a section stays. -/
def setIn (sec key : String) (tbl : List (String × Toml)) : Option String → List (String × Toml)
  | none => tbl
  | some s =>
    match tbl.lookup sec with
    | none => setEntry sec (.table [(key, .string s)]) tbl
    | some (.table sub) => setEntry sec (.table (setEntry key (.string s) sub)) tbl
    | some _ => tbl

def applyEnvOverrides (env : Env) : Toml → Toml
  | .table tbl =>
    let tbl := setIn "tcp" "bind" tbl env.tcpBind
    let tbl := setIn "log" "level" tbl env.logLevel
    .table (setIn "broker" "node_id" tbl env.nodeId)
  | v => v

/-- A variable as the table that sets the same. -/
def entryOf (sec key : String) (value : Option String) : List (String × Toml) :=
  (value.map (fun s => (sec, .table [(key, .string s)]))).toList

/-- The environment as a profile. -/
def Env.toProfile (env : Env) : Toml :=
  .table (entryOf "tcp" "bind" env.tcpBind ++ (entryOf "log" "level" env.logLevel ++
    entryOf "broker" "node_id" env.nodeId))

/-- Overriding one key is merging it, and the other sections stay. -/
theorem mergeEntries_entryOf {tbl : List (String × Toml)} {sec : String}
    (h : (tbl.lookup sec).all isTable = true) (key : String) (value : Option String)
    (rest : List (String × Toml)) :
    mergeEntries tbl (entryOf sec key value ++ rest) = mergeEntries (setIn sec key tbl value) rest ∧
      ∀ sec', sec' ≠ sec → (setIn sec key tbl value).lookup sec' = tbl.lookup sec' := by
  cases value with
  | none => exact ⟨rfl, fun _ _ => rfl⟩
  | some s =>
    have hset : ∀ v sec', sec' ≠ sec → (setEntry sec v tbl).lookup sec' = tbl.lookup sec' :=
      fun v sec' hne => by rw [lookup_setEntry, if_neg hne]
    cases hget : tbl.lookup sec with
    | none =>
      simp only [setIn, hget]
      exact ⟨by simp [entryOf, mergeEntries, hget], hset _⟩
    | some old =>
      cases old with
      | table sub =>
        simp only [setIn, hget]
        refine ⟨?_, hset _⟩
        simp only [entryOf, Option.map_some, Option.toList_some, List.singleton_append,
          mergeEntries, hget, deepMerge]
        cases sub.lookup key <;> rfl
      | _ => simp [hget, isTable] at h

/-- **The environment is one more profile**, laid over the files: the last word on its three keys,
    and without a say in anything else. -/
theorem applyEnvOverrides_eq_deepMerge {tbl : List (String × Toml)}
    (hsections : ∀ sec ∈ ["tcp", "log", "broker"], (tbl.lookup sec).all isTable = true) (env : Env) :
    applyEnvOverrides env (.table tbl) = deepMerge (.table tbl) env.toProfile := by
  rw [Env.toProfile, deepMerge]
  obtain ⟨htcp, hkeep⟩ := mergeEntries_entryOf (hsections "tcp" (by simp)) "bind" env.tcpBind
    (entryOf "log" "level" env.logLevel ++ entryOf "broker" "node_id" env.nodeId)
  have hlogs := hkeep "log" (by decide) ▸ hsections "log" (by simp)
  obtain ⟨hlog, hleave⟩ := mergeEntries_entryOf hlogs "level" env.logLevel
    (entryOf "broker" "node_id" env.nodeId)
  have hbrokers := (hleave "broker" (by decide)).trans (hkeep "broker" (by decide)) ▸
    hsections "broker" (by simp)
  have hbroker := (mergeEntries_entryOf hbrokers "node_id" env.nodeId []).1
  rw [List.append_nil] at hbroker
  rw [htcp, hlog, hbroker]
  rfl

theorem applyEnvOverrides_eq_deepMerge_nodeId :
    let files := table [("broker", table [("node_id", string "a"), ("max_inflight", integer 64)])]
    applyEnvOverrides { nodeId := some "b" } files =
      deepMerge files (table [("broker", table [("node_id", string "b")])]) :=
  applyEnvOverrides_eq_deepMerge (by decide) { nodeId := some "b" }

end Toml

end LumenMQ
