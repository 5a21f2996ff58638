import LumenMQ.Lib.RoundRobin
import LumenMQ.SharedGroups

set_option autoImplicit false

/-! # Shared groups take turns

`matches_shared` picks one member of every group whose filter matches the topic. Here one group is
followed through a sequence of calls: as long as its members stay, the calls that match its filter
pick its members round robin, whatever happens to the other groups in between. -/

namespace LumenMQ

open Option List FinMap SubscriptionTree

variable {entry : SharedEntry} {t : SubscriptionTree} {key : String × String}
  {members : FinMap String QoS}

namespace SharedEntry

variable {entry : SharedEntry} {members : FinMap String QoS}

theorem members_ne_nil (hsame : ∀ c, c ∈ entry.members.keys ↔ c ∈ members.keys)
    (hmem : members.entries ≠ []) : entry.members.entries ≠ [] := by
  have hlen := congrArg length (sorted_keys_congr hsame)
  rw [length_map, length_map, length_sorted, length_sorted] at hlen
  rw [← length_pos_iff, hlen, length_pos_iff]
  exact hmem

/-- The counter points into the names of the members in order. -/
theorem pick_name (hsame : ∀ c, c ∈ entry.members.keys ↔ c ∈ members.keys) :
    entry.pick.map Prod.fst = (members.sorted.map Prod.fst)[
      entry.rrCounter.toNat % (members.sorted.map Prod.fst).length]? := by
  rw [← sorted_keys_congr hsame, getElem?_map, length_map, length_sorted,
    pick_eq]

end SharedEntry

namespace SubscriptionTree

variable {t : SubscriptionTree} {topic : String} {key : String × String}

/-- What `matchesShared` picks, with the group each pick is for. -/
def selections (t : SubscriptionTree) (topic : String) : List Call :=
  t.shared.keys.filterMap (t.callFor topic)

/-- What `matchesShared` picks for one group. -/
def selectedFor (t : SubscriptionTree) (topic : String) (key : String × String) :
    List (String × QoS) :=
  ((t.selections topic).filter (fun call => call.onBehalf = some key)).map
    (fun call => (call.clientId, call.subQos))

theorem takesTurn_iff (hmem : entry.members.entries ≠ []) :
    TakesTurn topic key entry ↔ topicMatchesFilter topic key.2 = true := by
  refine ⟨fun h => h.2.1, fun h => ⟨?_, h, hmem⟩⟩
  rintro rfl
  simp [topicMatchesFilter] at h

/-- A group whose filter matches gets the member whose turn it is, any other group nothing. -/
theorem selectedFor_eq (hent : t.shared.get key = some entry)
    (hne : entry.members.entries ≠ []) : t.selectedFor topic key =
      if topicMatchesFilter topic key.2 then entry.pick.toList else [] := by
  have hmem : key ∈ t.shared.keys := by rw [FinMap.mem_keys, hent]; rfl
  rw [selectedFor, selections, filter_callFor t.shared.keys_nodup, if_pos hmem, callFor,
    hent, bind_some]
  simp only [takesTurn_iff hne]
  split_ifs
  · cases entry.pick <;> rfl
  · rfl

/-- A group is there and its members are those of the map. -/
def HasMembers (t : SubscriptionTree) (key : String × String) (members : FinMap String QoS) :
    Prop :=
  ∃ entry, t.shared.get key = some entry ∧ ∀ c, c ∈ entry.members.keys ↔ c ∈ members.keys

end SubscriptionTree

/-! ## Sequences of calls -/

/-- The calls on a tree: those that change it, and those that match a topic. -/
inductive TreeCall where
  | change (op : SubOp)
  | matchShared (topic : String)

namespace TreeCall

def onTree (t : SubscriptionTree) : TreeCall → SubscriptionTree
  | .change op => op.onTree t
  | .matchShared topic => (t.matchesShared topic).2

/-- The tree after a sequence of calls. -/
def run (t : SubscriptionTree) (calls : List TreeCall) : SubscriptionTree :=
  calls.foldl onTree t

/-- Whether a call matches a filter. -/
def hits (filter : String) : TreeCall → Bool
  | .change _ => false
  | .matchShared topic => topicMatchesFilter topic filter

/-- What a sequence of calls picks for one group, in order. -/
def turns (key : String × String) (t : SubscriptionTree) : List TreeCall → List (String × QoS)
  | [] => []
  | .change op :: calls => turns key (op.onTree t) calls
  | .matchShared topic :: calls =>
    t.selectedFor topic key ++ turns key (t.matchesShared topic).2 calls

end TreeCall

/-! ## The counter of a group -/

/-- A change of the tree leaves the counter of a group alone that is there before and after. -/
theorem SubOp.rrCounter_onTree {op : SubOp} {entry' : SharedEntry}
    (hent : t.shared.get key = some entry) (hent' : (op.onTree t).shared.get key = some entry') :
    entry'.rrCounter = entry.rrCounter := by
  -- an entry of the new tree comes from one of the old tree, with its counter
  suffices ∃ e, t.shared.get key = some e ∧ entry'.rrCounter = e.rrCounter by
    obtain ⟨e, he, hctr⟩ := this
    rw [hent] at he
    cases he
    exact hctr
  cases op with
  | subscribe c f q =>
    change (t.subscribe c f q).2.shared.get key = some entry' at hent'
    unfold SubscriptionTree.subscribe at hent'
    split at hent'
    · split at hent'
      · exact ⟨entry', hent', rfl⟩
      · rcases get_insert_cases hent' with ⟨hkey, rfl⟩ | ⟨-, hent'⟩
        · refine ⟨entry, hent, ?_⟩
          rw [← hkey, hent]
          rfl
        · exact ⟨entry', hent', rfl⟩
    · split at hent'
      · exact ⟨entry', hent', rfl⟩
      · exact ⟨entry', hent', rfl⟩
  | unsubscribe c f =>
    change (t.unsubscribe c f).2.shared.get key = some entry' at hent'
    unfold SubscriptionTree.unsubscribe at hent'
    split at hent'
    · split_ifs at hent'
      · rw [shared_unindexFilter] at hent'
        exact rrCounter_of_removeMember hent'
      · exact ⟨entry', hent', rfl⟩
    · dsimp only at hent'
      split_ifs at hent'
      · rw [shared_unindexFilter] at hent'
        exact ⟨entry', hent', rfl⟩
      · exact ⟨entry', hent', rfl⟩
  | unsubscribeAll c => exact rrCounter_of_foldl_removeMember _ hent'

namespace TreeCall

variable {key : String × String} {members : FinMap String QoS}

/-- A counter that is needed again after a turn has not wrapped around. -/
theorem turns_advance {l picked : List String} {counter : UInt64} {m : Nat}
    (hpick : (counter + 1).toNat + m ≤ 2 ^ 64 → picked = RoundRobin.picks l (counter + 1).toNat m)
    (hctr : counter.toNat + (m + 1) ≤ 2 ^ 64) :
    picked = RoundRobin.picks l (counter.toNat + 1) m := by
  have hadd : (counter + 1).toNat = (counter.toNat + 1) % 2 ^ 64 := UInt64.toNat_add counter 1
  by_cases hm : m = 0
  · subst hm
    exact hpick (by omega)
  · rw [Nat.mod_eq_of_lt (by omega)] at hadd
    rw [← hadd]
    exact hpick (by omega)

/-- **The turns of a group.** As long as its members stay and its counter does not wrap around, the
    calls that match its filter pick its members in the order of their names, from the counter
    on. -/
theorem turns_eq_picks (hmem : members.entries ≠ []) {calls : List TreeCall}
    (hent : t.shared.get key = some entry)
    (hstay : ∀ made, made <+: calls → (run t made).HasMembers key members)
    (hctr : entry.rrCounter.toNat + calls.countP (hits key.2) ≤ 2 ^ 64) :
    (turns key t calls).map Prod.fst =
      RoundRobin.picks (members.sorted.map Prod.fst) entry.rrCounter.toNat
        (calls.countP (hits key.2)) := by
  induction calls generalizing t entry with
  | nil => rfl
  | cons call calls ih =>
    have hhere : ∀ c, c ∈ entry.members.keys ↔ c ∈ members.keys := by
      obtain ⟨e, he, hsame⟩ := hstay [] nil_prefix
      cases hent.symm.trans he
      exact hsame
    have hlater : ∀ made, made <+: calls → (run (onTree t call) made).HasMembers key members :=
      fun made hmade => hstay (call :: made) ((prefix_cons_inj call).2 hmade)
    cases call with
    | change op =>
      obtain ⟨entry', hent', -⟩ := hlater [] nil_prefix
      have hsame : entry'.rrCounter = entry.rrCounter := SubOp.rrCounter_onTree hent hent'
      have hskip :
          (TreeCall.change op :: calls).countP (hits key.2) = calls.countP (hits key.2) :=
        countP_cons_of_neg (by simp [hits])
      rw [hskip] at hctr ⊢
      rw [← hsame] at hctr ⊢
      exact ih hent' hlater hctr
    | matchShared topic =>
      have hne := SharedEntry.members_ne_nil hhere hmem
      have hnext := matchesShared_get t topic key
      simp only [hent, map_some, takesTurn_iff hne] at hnext
      rw [turns, selectedFor_eq hent hne, map_append]
      by_cases hhit : topicMatchesFilter topic key.2 = true
      · -- the counter points to the member that is picked, and goes on
        obtain ⟨c, q, hpick⟩ := SharedEntry.exists_pick hne
        have hname := SharedEntry.pick_name hhere
        rw [hpick, map_some] at hname
        rw [countP_cons_of_pos (by exact hhit)] at hctr ⊢
        rw [if_pos hhit] at hnext
        rw [if_pos hhit, hpick, RoundRobin.picks_succ hname.symm]
        refine congrArg (c :: ·) ?_
        exact turns_advance (fun h => ih hnext hlater h) hctr
      · rw [countP_cons_of_neg (by exact hhit)] at hctr ⊢
        rw [if_neg hhit] at hnext
        rw [if_neg hhit]
        exact ih hnext hlater hctr

end TreeCall

/-! ## The result -/

/-- Matching a topic leaves the members of every group alone. -/
theorem SubscriptionTree.HasMembers.matchesShared (h : t.HasMembers key members) (topic : String) :
    (t.matchesShared topic).2.HasMembers key members := by
  obtain ⟨entry, hent, hsame⟩ := h
  have hnext := matchesShared_get t topic key
  rw [hent, map_some] at hnext
  refine ⟨_, hnext, ?_⟩
  split_ifs
  · exact hsame
  · exact hsame

/-- One call picks one member for a topic that matches, with the member's QoS, and none
    otherwise. -/
theorem SubscriptionTree.HasMembers.selectedFor (h : t.HasMembers key members)
    (hmem : members.entries ≠ []) (topic : String) :
    (t.selectedFor topic key).length = (if topicMatchesFilter topic key.2 then 1 else 0) ∧
      ∃ entry, t.shared.get key = some entry ∧
        ∀ m ∈ t.selectedFor topic key, entry.members.get m.1 = some m.2 := by
  obtain ⟨entry, hent, hsame⟩ := h
  have hne := SharedEntry.members_ne_nil hsame hmem
  obtain ⟨c, q, hpick⟩ := SharedEntry.exists_pick hne
  have hget := ((SharedEntry.pick_iff entry c q).1 hpick).2
  rw [selectedFor_eq hent hne, hpick]
  split_ifs
  · refine ⟨rfl, entry, hent, ?_⟩
    intro m hm
    cases mem_singleton.1 hm
    exact hget
  · refine ⟨rfl, entry, hent, ?_⟩
    intro m hm
    cases hm

namespace TreeCall

variable {key : String × String}

/-- **Shared groups are served round robin.** While the members of a group stay and its counter does
    not wrap around, a call picks one member for it if the topic matches its filter and none
    otherwise. The member comes with its own QoS, and as many matching calls in a row as there are
    members pick every member once. -/
theorem turns_fair {t : SubscriptionTree} {calls : List TreeCall} {entry : SharedEntry}
    (hentry : t.shared.get key = some entry) (hmembers : entry.members.entries ≠ [])
    (hstay : ∀ made, made <+: calls → (run t made).HasMembers key entry.members)
    (hcounter : entry.rrCounter.toNat + calls.countP (hits key.2) ≤ 2 ^ 64) :
    (∀ made topic later, calls = made ++ matchShared topic :: later →
      ((run t made).matchesShared topic).1 =
          ((run t made).selections topic).map (fun call => (call.clientId, call.subQos)) ∧
        ((run t made).selectedFor topic key).length =
            (if topicMatchesFilter topic key.2 then 1 else 0) ∧
          ∃ e, (run t made).shared.get key = some e ∧
            ∀ m ∈ (run t made).selectedFor topic key, e.members.get m.1 = some m.2) ∧
      ∀ i, i + entry.members.entries.length ≤ calls.countP (hits key.2) →
        ((((turns key t calls).drop i).take entry.members.entries.length).map Prod.fst).Perm
          entry.members.keys := by
  refine ⟨?_, ?_⟩
  · intro made topic later hcalls
    have hthere := hstay made (hcalls ▸ prefix_append made _)
    exact ⟨(run t made).matchesShared_fst topic, hthere.selectedFor hmembers topic⟩
  · intro i hi
    have hlength : entry.members.entries.length = (entry.members.sorted.map Prod.fst).length := by
      rw [length_map, length_sorted]
    have hnames : entry.members.sorted.map Prod.fst ≠ [] := by
      rw [← length_pos_iff, ← hlength, length_pos_iff]
      exact hmembers
    rw [map_take, map_drop, turns_eq_picks hmembers hentry hstay hcounter, hlength,
      RoundRobin.picks_window hnames (hlength ▸ hi)]
    exact (rotate_perm _ _).trans (sorted_keys_perm entry.members)

/-- The members of a group stay while topics are matched. -/
theorem hasMembers_run (h : t.HasMembers key members) (topics : List String) {made : List TreeCall}
    (hmade : made <+: topics.map matchShared) : (run t made).HasMembers key members := by
  induction topics generalizing t made with
  | nil => rwa [prefix_nil.1 hmade]
  | cons topic topics ih =>
    rcases prefix_cons_iff.1 hmade with rfl | ⟨made', rfl, hmade'⟩
    · exact h
    · exact ih (h.matchesShared topic) hmade'

/-- Three members of one group. -/
def workers : SubscriptionTree :=
  ["m1", "m2", "m3"].foldl (fun t c => (t.subscribe c "$share/g1/task/+" .atLeastOnce).2) {}

/-- Topics for the three of them, with another one in between. -/
def tasks : List TreeCall := ["task/w", "task/x", "done/x", "task/y", "task/z"].map matchShared

/-- The last three that match go to the three members. -/
theorem turns_fair_workers : ∃ entry, workers.shared.get ("g1", "task/+") = some entry ∧
    entry.members.keys.length = 3 ∧
      ((((turns ("g1", "task/+") workers tasks).drop 1).take
        entry.members.entries.length).map Prod.fst).Perm entry.members.keys := by
  obtain ⟨entry, hentry⟩ : ∃ entry, workers.shared.get ("g1", "task/+") = some entry :=
    isSome_iff_exists.1 (by decide +kernel)
  have hfacts : ∀ e, workers.shared.get ("g1", "task/+") = some e →
      e.members.keys.length = 3 ∧ e.members.entries.length = 3 ∧ e.rrCounter.toNat = 0 := by
    have hall : (workers.shared.get ("g1", "task/+")).all (fun e =>
        e.members.keys.length = 3 ∧ e.members.entries.length = 3 ∧ e.rrCounter.toNat = 0)
          = true := by
      decide +kernel
    intro e he
    rw [he] at hall
    exact of_decide_eq_true hall
  obtain ⟨hkeys, hentries, hcounter⟩ := hfacts entry hentry
  refine ⟨entry, hentry, hkeys, (turns_fair hentry ?_ ?_ ?_).2 1 ?_⟩
  · rw [← length_pos_iff, hentries]
    decide
  · intro made hmade
    exact hasMembers_run ⟨entry, hentry, fun c => Iff.rfl⟩ _ hmade
  · rw [hcounter]
    decide +kernel
  · rw [hentries]
    decide +kernel

end TreeCall

end LumenMQ
