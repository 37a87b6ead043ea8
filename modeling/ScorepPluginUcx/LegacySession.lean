import ScorepPluginUcx.Lib.Projection
import ScorepPluginUcx.LifeCycle
import ScorepPluginUcx.ScorepUpdate

/-!
# Sampling and renaming one list

The counters list of the plugin is filled and read by `ucx_statistics_current_value_get`, and
`ucx_counters_scorep_update` goes through it to rename its counters. A session is any order of
such calls. A renaming touches nothing that a reading looks at: with the flags cleared, the
session is a run of the sampling alone.

## Main definitions

* `LegacySession`, `LegacySession.step`: the list in both hands.
* `sampled`: the session as the sampling sees it.

## Main results

* `projects`: a session is a run of the sampling.
* `session_sampling`: the calls of the sampling, in every session.
* `session_renaming`: the updates, in every session.
-/

namespace ScorepPluginUcx

/-- A call of one of the two functions. The trees of the server have at most `10 ^ 9` counters,
whose numbers fit into a temporary name. -/
inductive SessionEvent where
  | sample (call : SampleCall) (small : (flat call.root.children).length ≤ 10 ^ 9)
  | update (metricNameUpdateFunc : ℕ) (ucxMetricName : Name) (nul_notMem : '\x00' ∉ ucxMetricName)

/-- What the sampling sees of a call. -/
def SessionEvent.sampleCall : SessionEvent → Option SampleCall
  | .sample call _ => some call
  | .update _ _ _ => none

/-- The sampling with its list and its history, and the calls of the rename function so far. -/
structure LegacySession where
  history : SampleHistory
  renames : List Rename

namespace LegacySession

/-- A process at its start. -/
def init : LegacySession := ⟨.init, []⟩

/-- The list, as `ucx_counters_scorep_update` finds it. -/
def backlog (s : LegacySession) : RenameState := ⟨s.history.list, s.renames⟩

/-- The session with the list, and the calls of the rename function, that an update has left. -/
def withBacklog (s : LegacySession) (b : RenameState) : LegacySession :=
  ⟨{ s.history with list := b.items }, b.log⟩

@[simp] theorem backlog_withBacklog (s : LegacySession) (b : RenameState) :
    (s.withBacklog b).backlog = b := rfl
@[simp] theorem withBacklog_backlog (s : LegacySession) : s.withBacklog s.backlog = s := rfl

/-- One call. `none` is a process that is caught in a call. -/
def step (s : Option LegacySession) (event : SessionEvent) : Option LegacySession :=
  s.bind fun s =>
    match event with
    | .sample call _ => some { s with history := s.history.step call }
    | .update func ucxMetricName _ =>
        (ucxCountersScorepUpdate func ucxMetricName s.backlog).map s.withBacklog

end LegacySession

/-! ## Renaming is invisible to the sampling -/

/-- An entry that is not renamed. -/
def clearFlag (e : ScorepCounterData) : ScorepCounterData :=
  { e with scorepMetricAlreadyRenamed := 0 }

/-- What a call leaves, with the flags of the list cleared. -/
def CurrentValue.clear (r : CurrentValue) : CurrentValue := { r with list := r.list.map clearFlag }

/-- A new entry is not renamed. -/
theorem map_clearFlag_freshEntries (n : ℕ) (ks : List (Name × StatsCounter)) :
    (freshEntries n ks).map clearFlag = freshEntries n ks := by
  ext j : 1
  simp only [freshEntries, List.getElem?_map, List.getElem?_mapIdx, Option.map_map]
  rfl

theorem clear_readCounter (index : ℕ) (scan : Option Bool) (s : CountersSampling)
    (list : List ScorepCounterData) :
    (readCounter index scan s list).clear = readCounter index scan s (list.map clearFlag) := by
  simp only [readCounter, List.getElem?_map]
  cases he : list[index]? with
  | none => rfl
  | some e =>
      have hcomm : ∀ e, clearFlag (keepPrevValue e) = keepPrevValue (clearFlag e) := fun _ => rfl
      have hmodify := Overwrite.map_modify hcomm index list
      simp only [Option.map_some, CurrentValue.clear, hmodify]
      rfl

/-- **A call of the sampling** does the same for a list with its flags cleared. -/
theorem ucxStatisticsCurrentValueGet_clear (root : StatsRoot) (roots : List StatsRoot)
    (index : ℕ) (s : CountersSampling) (list : List ScorepCounterData) :
    ucxStatisticsCurrentValueGet (root :: roots) index s (list.map clearFlag) =
      (ucxStatisticsCurrentValueGet (root :: roots) index s list).map CurrentValue.clear := by
  simp only [ucxStatisticsCurrentValueGet, ucxStatisticsAllCountersUpdate, List.length_map,
    scanCountersList_update, scanCountersList_init_eq, Option.map_some]
  by_cases hready : s.countersInitializedOnScorep ≠ 0
  · by_cases hindex : index = 0
    · simp only [if_pos hready, if_pos hindex, Option.map_some, clear_readCounter]
      have hcomm : ∀ v e, clearFlag (putValue v e) = putValue v (clearFlag e) := fun _ _ => rfl
      rw [Overwrite.map_overwrite putValue hcomm]
    · simp only [if_pos hready, if_neg hindex, Option.map_some, clear_readCounter]
  · by_cases hturn : list.length = 0 ∧ s.counter &&& 0xFF = 0
    · have hfresh : list.map clearFlag ++ freshEntries 0 (scannedCounters "cnt".toList
          root.children 0) = (list ++ freshEntries 0 (scannedCounters "cnt".toList
            root.children 0)).map clearFlag := by
        rw [List.map_append, map_clearFlag_freshEntries]
      simp only [if_neg hready, if_pos hturn, hfresh, List.length_map, Option.map_some]
      split <;> rfl
    · simp only [if_neg hready, if_neg hturn, Option.map_some]
      rfl

/-- The history of the sampling, with the flags of the list cleared. -/
def SampleHistory.clear (h : SampleHistory) : SampleHistory :=
  { h with list := h.list.map clearFlag }

theorem SampleHistory.call_clear (h : SampleHistory) (c : SampleCall) :
    h.clear.call c = (h.call c).map CurrentValue.clear :=
  ucxStatisticsCurrentValueGet_clear c.root c.roots c.index h.sampling h.list

theorem SampleHistory.step_clear (h : SampleHistory) (c : SampleCall) :
    h.clear.step c = (h.step c).clear := by
  rw [SampleHistory.step, h.call_clear c, SampleHistory.step]
  cases h.call c <;> rfl

/-! ## Sampling is invisible to the renaming -/

/-- What the renaming looks at in an entry. -/
def renameView (e : ScorepCounterData) : Name × ℕ := (e.name, e.scorepMetricAlreadyRenamed)

/-- What a call of the sampling makes of the list: an empty list is filled with entries that are
not renamed, and any other one keeps what the renaming looks at. -/
theorem call_renameView (h : SampleHistory) (c : SampleCall) :
    ∃ r, h.call c = some r ∧
      ((h.list = [] ∧ r.list = freshEntries 0 (scannedCounters "cnt".toList c.root.children 0)) ∨
        r.list.map renameView = h.list.map renameView) := by
  have hkeep : ∀ (list : List ScorepCounterData) (scan : Option Bool),
      (readCounter c.index scan h.sampling list).list.map renameView = list.map renameView := by
    intro list scan
    have hview : ∀ e, renameView (keepPrevValue e) = id (renameView e) := fun _ => rfl
    rw [readCounter]
    split
    · rw [Overwrite.map_modify hview, List.modify_id]
    · rfl
  have hput : ∀ v e, renameView (putValue v e) = renameView e := fun _ _ => rfl
  simp only [SampleHistory.call, ucxStatisticsCurrentValueGet, ucxStatisticsAllCountersUpdate,
    scanCountersList_update, scanCountersList_init_eq, Option.map_some]
  by_cases hready : h.sampling.countersInitializedOnScorep ≠ 0
  · by_cases hindex : c.index = 0
    · simp only [if_pos hready, if_pos hindex]
      refine ⟨_, rfl, .inr ?_⟩
      rw [← hindex, hkeep, Overwrite.map_overwrite_of_forall putValue hput]
    · simp only [if_pos hready, if_neg hindex]
      exact ⟨_, rfl, .inr (hkeep h.list none)⟩
  · by_cases hturn : h.list.length = 0 ∧ h.sampling.counter &&& 0xFF = 0
    · have hnil : h.list = [] := List.length_eq_zero_iff.mp hturn.1
      simp only [if_neg hready, if_pos hturn]
      refine ⟨_, rfl, .inl ⟨hnil, ?_⟩⟩
      rw [hnil, List.nil_append]
      split <;> rfl
    · simp only [if_neg hready, if_neg hturn]
      exact ⟨_, rfl, .inr rfl⟩

/-! ## Sessions -/

namespace LegacySession

/-- The list of a session between the calls: a front part is renamed, and every index fits into a
temporary name. -/
def Sound (s : Option LegacySession) : Prop :=
  ∃ s' n k, s = some s' ∧ RenamedTo n k s'.backlog ∧ n ≤ 10 ^ 9

theorem sound_init : Sound (some init) :=
  ⟨init, 0, 0, rfl, ⟨Backlog.handledTo_empty, rfl, Nat.zero_le _⟩, Nat.zero_le _⟩

variable {s : LegacySession} {n k : ℕ}

/-- A call of the sampling leaves the renamed entries what they are. -/
theorem sound_sample (h : RenamedTo n k s.backlog) (hn : n ≤ 10 ^ 9) (c : SampleCall)
    (hsmall : (flat c.root.children).length ≤ 10 ^ 9) :
    ∃ n', RenamedTo n' k { s with history := s.history.step c }.backlog ∧ n' ≤ 10 ^ 9 := by
  obtain ⟨r, hcall, ⟨hnil, hfresh⟩ | hsame⟩ := call_renameView s.history c
  · -- The entries are added to an empty list.
    have hadd : { s with history := s.history.step c }.backlog = s.backlog.add r.list := by
      rw [SampleHistory.step_of_call hcall]
      simp [backlog, Backlog.add, SampleHistory.after, hnil]
    have hpending : ∀ e ∈ r.list, isUnrenamed e := by
      intro e he
      rw [hfresh, freshEntries] at he
      obtain ⟨j, hj, rfl⟩ := List.mem_mapIdx.mp he
      rfl
    have hlength : r.list.length = (flat c.root.children).length := by
      rw [hfresh, freshEntries, List.length_mapIdx,
        ← map_snd_scannedCounters "cnt".toList c.root.children 0, List.length_map]
    have hzero : n = 0 := by
      rw [← h.length, backlog, hnil]
      rfl
    refine ⟨r.list.length, ?_, hlength ▸ hsmall⟩
    rw [hadd]
    refine ⟨h.handled.add hpending, ?_, h.le⟩
    rw [Backlog.add, List.length_append, h.length, hzero, Nat.zero_add]
  · have hlength : r.list.length = n := by
      have hmap := congrArg List.length hsame
      rw [List.length_map, List.length_map] at hmap
      exact hmap.trans h.length
    refine ⟨n, ?_, hn⟩
    rw [SampleHistory.step_of_call hcall]
    refine ⟨h.handled.of_map_eq hsame ?_ ?_, hlength, h.le⟩
    · intro e e' he
      have hflag := congrArg Prod.snd he
      simp only [renameView] at hflag
      rw [isUnrenamed, isUnrenamed, hflag]
    · intro e e' rename he hproper
      have hname := congrArg Prod.fst he
      simp only [renameView] at hname
      exact ⟨by rw [hname]; exact hproper.newName, hproper.currentName⟩

/-- An update is a pass over the list, or nothing when there is no rename function. -/
theorem update_eq (h : RenamedTo n k s.backlog) (hn : n ≤ 10 ^ 9) (func : ℕ)
    (ucxMetricName : Name) :
    ucxCountersScorepUpdate func ucxMetricName s.backlog = some (if func = 0 then s.backlog else
      s.backlog.pass isUnrenamed markRenamed (renameCounter ucxMetricName)) := by
  by_cases hfunc : func = 0
  · rw [if_pos hfunc]
    exact if_pos hfunc
  · rw [if_neg hfunc, h.update_eq hfunc ucxMetricName hn]

theorem step_update (h : RenamedTo n k s.backlog) (hn : n ≤ 10 ^ 9) (func : ℕ)
    (ucxMetricName : Name) (hnul : '\x00' ∉ ucxMetricName) :
    step (some s) (.update func ucxMetricName hnul) = some (if func = 0 then s else
      s.withBacklog (s.backlog.pass isUnrenamed markRenamed (renameCounter ucxMetricName))) := by
  have hstep : step (some s) (.update func ucxMetricName hnul) =
      (ucxCountersScorepUpdate func ucxMetricName s.backlog).map s.withBacklog := rfl
  rw [hstep, update_eq h hn, Option.map_some, apply_ite s.withBacklog, withBacklog_backlog]

/-- Every call keeps the list in order. -/
theorem Sound.step {s : Option LegacySession} (h : Sound s) (event : SessionEvent) :
    Sound (step s event) := by
  obtain ⟨s, n, k, rfl, hrenamed, hn⟩ := h
  cases event with
  | sample c hsmall =>
      obtain ⟨n', hrenamed', hn'⟩ := sound_sample hrenamed hn c hsmall
      exact ⟨_, n', k, rfl, hrenamed', hn'⟩
  | update func ucxMetricName hnul =>
      rw [step_update hrenamed hn]
      by_cases hfunc : func = 0
      · rw [if_pos hfunc]
        exact ⟨s, n, k, rfl, hrenamed, hn⟩
      · rw [if_neg hfunc]
        exact ⟨_, n, n, rfl, hrenamed.pass hnul hn, hn⟩

/-- What the sampling sees of a session. -/
def sampled (s : Option LegacySession) : SampleHistory := ((s.map history).getD .init).clear

/-- Renaming does nothing that the sampling sees. -/
theorem clear_withBacklog_pass (s : LegacySession) (entry : ℕ → ScorepCounterData → Rename) :
    (s.withBacklog (s.backlog.pass isUnrenamed markRenamed entry)).history.clear =
      s.history.clear := by
  have hitem : ∀ e, clearFlag (Backlog.settled isUnrenamed markRenamed e) = clearFlag e := by
    intro e
    rw [Backlog.settled]
    split <;> rfl
  have hlist : (s.history.list.map (Backlog.settled isUnrenamed markRenamed)).map clearFlag =
      s.history.list.map clearFlag := by
    rw [List.map_map]
    exact List.map_congr_left fun e _ => hitem e
  simp only [withBacklog, backlog, Backlog.pass, SampleHistory.clear, hlist]

/-- **A session is a run of the sampling**, over its calls of the sampling. -/
theorem projects : Run.Projects step SampleHistory.step sampled
    (fun _ event => event.sampleCall) Sound where
  keeps := fun _ event h => h.step event
  view_step := by
    intro s event h
    obtain ⟨s, n, k, rfl, hrenamed, hn⟩ := h
    cases event with
    | sample c hsmall => exact (s.history.step_clear c).symm
    | update func ucxMetricName hnul =>
        rw [step_update hrenamed hn]
        by_cases hfunc : func = 0
        · rw [if_pos hfunc]
          rfl
        · rw [if_neg hfunc]
          exact s.clear_withBacklog_pass _

/-- What a call of the sampling leaves in a session, its flags cleared. -/
def sampleResult (s : Option LegacySession) (event : SessionEvent) : Option (Option CurrentValue) :=
  s.bind fun s => event.sampleCall.map fun c => (s.history.call c).map CurrentValue.clear

/-- What an update is to do: it changes nothing when there is no rename function, and else every
counter in the list is renamed once. -/
def UpdatesRight (s : Option LegacySession) : SessionEvent → Prop
  | .sample _ _ => True
  | .update func ucxMetricName _ =>
      ∃ before after, s = some before ∧
        ucxCountersScorepUpdate func ucxMetricName before.backlog = some after ∧
        if func = 0 then after = before.backlog else RenamedOnce before.backlog after

end LegacySession

open LegacySession

/-- **Renaming is invisible to the sampling**: in every session the calls of the sampling leave,
flags aside, what they leave in a process that never renames. -/
theorem session_sampling (events : List SessionEvent) :
    (Run.trace LegacySession.step (some .init) events).filterMap
        (fun x => sampleResult x.1 x.2) =
      (Run.trace SampleHistory.step .init (events.filterMap SessionEvent.sampleCall)).map
        fun x => x.1.call x.2 := by
  have hseen := projects.trace_seen sound_init events
  rw [Run.seen_eq_filterMap] at hseen
  have hinit : sampled (some .init) = .init := rfl
  rw [← hinit, hseen, List.map_filterMap]
  apply List.filterMap_congr
  intro x hx
  obtain ⟨s, n, k, hs, hrenamed, hn⟩ := Run.trace_invariant Sound (fun _ event h => h.step event)
    sound_init events x hx
  rw [sampleResult, hs]
  cases x.2.sampleCall with
  | none => rfl
  | some c => exact congrArg some (s.history.call_clear c).symm

/-- **Sampling does not disturb the renaming**: in every session every update returns, and renames
every counter once, whatever the sampling has found between the updates. -/
theorem session_renaming (events : List SessionEvent) :
    ∀ x ∈ Run.trace LegacySession.step (some .init) events, UpdatesRight x.1 x.2 := by
  intro x hx
  obtain ⟨s, n, k, hs, hrenamed, hn⟩ := Run.trace_invariant Sound (fun _ event h => h.step event)
    sound_init events x hx
  cases hevent : x.2 with
  | sample c hsmall => trivial
  | update func ucxMetricName hnul =>
      refine ⟨s, _, hs, update_eq hrenamed hn func ucxMetricName, ?_⟩
      by_cases hfunc : func = 0
      · rw [if_pos hfunc, if_pos hfunc]
      · rw [if_neg hfunc, if_neg hfunc]
        exact hrenamed.renamedOnce hnul hn

/-- The first call of the sampling, which finds one counter. -/
def oneCounterSample : SampleCall where
  index := 0
  root := ⟨⟨"root".toList, []⟩, .node ⟨"ep".toList, [⟨"tx".toList, 5⟩]⟩ .nil .nil⟩
  roots := []

/-- The update behind the first sampling. -/
theorem session_renaming_one :
    UpdatesRight (LegacySession.step (some .init) (.sample oneCounterSample (by decide)))
      (.update 1 "UCX@1".toList (by decide)) :=
  session_renaming [.sample oneCounterSample (by decide), .update 1 "UCX@1".toList (by decide)] _
    (List.mem_cons_of_mem _ List.mem_cons_self)

end ScorepPluginUcx
