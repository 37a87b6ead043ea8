import ScorepPluginUcx.Answers

/-!
# Recording

Score-P records all metrics of a moment together: it reads the ids from 0 on, one after the
other, and writes what comes back into one row of the trace. The reads share one answer of
`ucs_stats_aggregate`, which the read of id 0 asks for. `Recorder` is this in its own terms: an
answer, if there is one, and the rows that are made of it.

## Main definitions

* `getCurrentValue`, `record`: the reads of a moment.
* `Recorder.step`, `Recorder.row`: the machine that a recording refines.

## Main results

* `record_spec`: one row.
* `recordings_refine`: enumerations and records, in every order.
* `recordings_row`: every row of a recording, from the answers before it.
-/

namespace ScorepPluginUcx

/-- `get_current_value`: what is written to the proxy, and the plugin afterwards.
`get_optional_value` has the same body. -/
def getCurrentValue (c : Context) (e : Environment) (id : ℤ) (p : Plugin) :
    Option UInt64 × Plugin :=
  currentValueGet c e id p

/-- A moment at which the metrics are read: what each read finds outside, the one of id 0 first.
MPI is not initialized between the reads, and an id is an `int32_t`. -/
structure Moment where
  first : Environment
  rest : List Environment
  sameFlag : ∀ e ∈ rest, e.mpiInitialized = first.mpiInitialized
  short : rest.length < 2 ^ 31

namespace Moment

/-- The answer that the read of id 0 would get. -/
def live (m : Moment) : AggregateResult := m.first.aggregateAtRead

end Moment

/-- The reads of the ids from `id` on. -/
def recordFrom (c : Context) : ℕ → List Environment → Plugin → List (Option UInt64) × Plugin
  | _, [], p => ([], p)
  | id, e :: es, p =>
      let read := getCurrentValue c e id p
      let others := recordFrom c (id + 1) es read.2
      (read.1 :: others.1, others.2)

/-- The row of a moment. -/
def record (c : Context) (m : Moment) (p : Plugin) : List (Option UInt64) × Plugin :=
  recordFrom c 0 (m.first :: m.rest) p

/-- What Score-P does with the plugin before and while it records. -/
inductive RecordEvent
  | enumerate (e : Environment) (metricName : Name)
  | record (m : Moment)

/-- The plugin after an event. -/
def Plugin.recordStep (c : Context) (p : Plugin) : RecordEvent → Plugin
  | .enumerate e metricName => p.step c (.getMetricProperties e metricName)
  | .record m => (ScorepPluginUcx.record c m p).2

/-- The row that an event writes, if it writes one. -/
def Plugin.recordedRow (c : Context) (p : Plugin) : RecordEvent → Option (List (Option UInt64))
  | .enumerate _ _ => none
  | .record m => some (ScorepPluginUcx.record c m p).1

namespace Recorder

/-- The values of an answer, in a row for the moment `m`. -/
def snapshot (m : Moment) (r : AggregateResult) : List UInt64 :=
  (List.range (m.rest.length + 1)).map r.entry

/-- The row of a moment, for the answer `r` that is there when it begins. An empty answer stays,
and one that becomes empty leaves its first value behind. -/
def rowFrom (m : Moment) (r : AggregateResult) : List UInt64 :=
  if r.size = 0 then snapshot m .empty
  else if m.live.size = 0 then r.entry 0 :: (snapshot m .empty).tail
  else snapshot m m.live

/-- The answer after a moment. -/
def answerFrom (m : Moment) (r : AggregateResult) : AggregateResult :=
  if r.size = 0 then r else m.live

/-- The row of a moment; it is zero as long as there is no answer. -/
def row (held : Option AggregateResult) (m : Moment) : List UInt64 :=
  (answerAtRead held m.first).elim (snapshot m .empty) (rowFrom m)

/-- The answer after an event. -/
def step (enabled : Bool) (held : Option AggregateResult) : RecordEvent → Option AggregateResult
  | .enumerate e metricName => answerAfter enabled held (.getMetricProperties e metricName)
  | .record m => (answerAtRead held m.first).map (answerFrom m)

/-- The row that an event writes. -/
def recordedRow (held : Option AggregateResult) : RecordEvent → Option (List UInt64)
  | .enumerate _ _ => none
  | .record m => some (row held m)

/-- A row has an entry for id 0 and one for each of the others. -/
theorem snapshot_eq_cons (m : Moment) (r : AggregateResult) :
    snapshot m r = r.entry 0 :: (List.range' 1 m.rest.length).map r.entry := by
  rw [snapshot, List.range_eq_range', List.range'_succ, List.map_cons]

theorem snapshot_of_empty (m : Moment) {r : AggregateResult} (h : r.size = 0) :
    snapshot m r = List.replicate (m.rest.length + 1) 0 := by
  refine List.eq_replicate_iff.mpr ⟨by simp [snapshot], ?_⟩
  intro v hv
  obtain ⟨k, _, rfl⟩ := List.mem_map.mp hv
  exact AggregateResult.entry_of_size_le (by omega)

/-- The first value of a row is that of the new answer when both have counters, and the others
are those of the answer that is kept. -/
theorem rowFrom_eq_cons (m : Moment) (r : AggregateResult) :
    rowFrom m r = (if 0 < r.size ∧ 0 < m.live.size then m.live.entry 0 else r.entry 0) ::
      (List.range' 1 m.rest.length).map (answerFrom m r).entry := by
  by_cases hempty : r.size = 0
  · have hrow := snapshot_eq_cons m r
    rw [snapshot_of_empty m hempty, ← snapshot_of_empty m (r := .empty) rfl] at hrow
    rw [rowFrom, answerFrom, if_pos hempty, if_pos hempty, if_neg (by omega), hrow]
  · by_cases hlive : m.live.size = 0
    · have hrow := snapshot_eq_cons m m.live
      rw [snapshot_of_empty m hlive, ← snapshot_of_empty m (r := .empty) rfl] at hrow
      rw [rowFrom, answerFrom, if_neg hempty, if_neg hempty, if_pos hlive, if_neg (by omega), hrow]
      rfl
    · rw [rowFrom, answerFrom, if_neg hempty, if_neg hempty, if_neg hlive, if_pos (by omega),
        snapshot_eq_cons]

end Recorder

/-! ## One row -/

variable {enabled : Bool} {p : Plugin} (commRank : ℤ)

/-- The reads behind the first one leave the answer and yield its entries. -/
theorem recordFrom_of_some {r : AggregateResult} (h : p.Tracks enabled (some r)) {k : ℕ}
    (hk : 0 < k) {es : List Environment} (hshort : k + es.length ≤ 2 ^ 31) :
    (recordFrom ⟨false, commRank⟩ k es p).1 =
        (List.range' k es.length).map (fun i => some (r.entry i)) ∧
      (recordFrom ⟨false, commRank⟩ k es p).2.Tracks enabled (some r) := by
  induction es generalizing k p with
  | nil => exact ⟨rfl, h⟩
  | cons e es ih =>
      rw [List.length_cons] at hshort
      have hlt : k < 2 ^ 31 := by omega
      have hvalue := currentValueGet_of_holds h.1 commRank e hlt
      have hnext := h.step ⟨false, commRank⟩ (.currentValueGet e k)
      have hindex : uint32 (k : ℤ) = k := uint32_natCast (by omega)
      have hne : ¬ (sizeT (k : ℤ) < r.size ∧ uint32 (k : ℤ) = 0) := by omega
      have hzero : ¬ (k = 0 ∧ 0 < r.size ∧ 0 < e.aggregateAtRead.size) := by omega
      simp only [answerAtRead, if_neg hzero] at hvalue
      simp only [answerAfter, answerAtRead, Option.map_some, if_neg hne] at hnext
      obtain ⟨hrow, htracks⟩ := ih hnext (Nat.succ_pos k) (by omega)
      refine ⟨?_, htracks⟩
      rw [List.length_cons, List.range'_succ, List.map_cons]
      exact congrArg₂ List.cons hvalue hrow

/-- As long as MPI is not initialized, the reads yield nothing and ask nothing. -/
theorem recordFrom_of_none (h : p.Tracks enabled none) {k : ℕ} {es : List Environment}
    (hes : ∀ e ∈ es, e.mpiInitialized = false) (hshort : k + es.length ≤ 2 ^ 31) :
    (recordFrom ⟨false, commRank⟩ k es p).1 = List.replicate es.length (some 0) ∧
      (recordFrom ⟨false, commRank⟩ k es p).2.Tracks enabled none := by
  induction es generalizing k p with
  | nil => exact ⟨rfl, h⟩
  | cons e es ih =>
      rw [List.forall_mem_cons] at hes
      rw [List.length_cons] at hshort
      have hlt : k < 2 ^ 31 := by omega
      have hvalue := currentValueGet_of_holds h.1 commRank e hlt
      have hnext := h.step ⟨false, commRank⟩ (.currentValueGet e k)
      simp only [answerAtRead, hes.1, Bool.false_eq_true, if_false] at hvalue
      simp only [answerAfter, answerAtRead, hes.1, Bool.false_eq_true, if_false,
        Option.map_none] at hnext
      obtain ⟨hrow, htracks⟩ := ih (k := k + 1) hnext hes.2 (by omega)
      exact ⟨congrArg₂ List.cons hvalue hrow, htracks⟩

/-- **One row** is the row of the answer that is there, whatever the reads behind the first one
would find. -/
theorem record_spec {held : Option AggregateResult} (h : p.Tracks enabled held) (m : Moment) :
    (record ⟨false, commRank⟩ m p).1 = (Recorder.row held m).map some ∧
      (record ⟨false, commRank⟩ m p).2.Tracks enabled (Recorder.step enabled held (.record m)) := by
  have hshort := m.short
  have hvalue := currentValueGet_of_holds h.1 commRank m.first (show 0 < 2 ^ 31 by decide)
  have hnext := h.step ⟨false, commRank⟩ (.currentValueGet m.first (0 : ℕ))
  have hrow : (record ⟨false, commRank⟩ m p).1 =
      (currentValueGet ⟨false, commRank⟩ m.first (0 : ℕ) p).1 ::
        (recordFrom ⟨false, commRank⟩ 1 m.rest (p.step ⟨false, commRank⟩
          (.currentValueGet m.first (0 : ℕ)))).1 := rfl
  have hplugin : (record ⟨false, commRank⟩ m p).2 =
      (recordFrom ⟨false, commRank⟩ 1 m.rest (p.step ⟨false, commRank⟩
          (.currentValueGet m.first (0 : ℕ)))).2 := rfl
  rw [hrow, hplugin, hvalue]
  have hlength : 1 + m.rest.length ≤ 2 ^ 31 := by omega
  cases hheld : answerAtRead held m.first with
  | none =>
      -- MPI is down.
      have hdown : m.first.mpiInitialized = false := by
        cases held with
        | some r => simp [answerAtRead] at hheld
        | none => simpa [answerAtRead] using hheld
      rw [answerAfter, hheld, Option.map_none] at hnext
      obtain ⟨hrest, htracks⟩ := recordFrom_of_none commRank hnext
        (fun e he => (m.sameFlag e he).trans hdown) hlength
      rw [hrest, Recorder.step, Recorder.row, hheld]
      rw [Option.elim_none, Recorder.snapshot_of_empty m rfl]
      exact ⟨by simp [List.replicate_succ], htracks⟩
  | some r =>
      have hanswer : answerAfter enabled held (.currentValueGet m.first (0 : ℕ)) =
          some (Recorder.answerFrom m r) := by
        by_cases hempty : r.size = 0
        · simp [answerAfter, hheld, Recorder.answerFrom, hempty]
        · have hsize : sizeT ((0 : ℕ) : ℤ) < r.size ∧ uint32 ((0 : ℕ) : ℤ) = 0 :=
            ⟨Nat.pos_of_ne_zero hempty, rfl⟩
          rw [answerAfter, hheld, Option.map_some, if_pos hsize, Recorder.answerFrom,
            if_neg hempty, Moment.live]
      rw [hanswer] at hnext
      obtain ⟨hrest, htracks⟩ := recordFrom_of_some commRank hnext Nat.one_pos hlength
      rw [hrest, Recorder.step, Recorder.row, hheld]
      rw [Option.elim_some, Recorder.rowFrom_eq_cons, List.map_cons, List.map_map]
      refine ⟨congrArg₂ List.cons ?_ rfl, htracks⟩
      simp only [true_and]
      exact (apply_ite some _ _ _).symm

/-! ## Recordings -/

/-- An event keeps the answer traced so far the one held. -/
theorem Plugin.Tracks.recordStep {held : Option AggregateResult} (h : p.Tracks enabled held)
    (event : RecordEvent) : (p.recordStep ⟨false, commRank⟩ event).Tracks enabled
      (Recorder.step enabled held event) := by
  cases event with
  | enumerate e metricName => exact h.step ⟨false, commRank⟩ (.getMetricProperties e metricName)
  | record m => exact (record_spec commRank h m).2

theorem recordedRow_eq {held : Option AggregateResult} (h : p.Tracks enabled held)
    (event : RecordEvent) : p.recordedRow ⟨false, commRank⟩ event =
      (Recorder.recordedRow held event).map (List.map some) := by
  cases event with
  | enumerate e metricName => rfl
  | record m => exact congrArg some (record_spec commRank h m).1

/-- **Recordings are runs of the recorder**: whatever is enumerated and recorded, the rows are
those that the recorder writes. -/
theorem recordings_refine {held : Option AggregateResult}
    (h : p.Tracks enabled held) (events : List RecordEvent) :
    (Run.trace (Plugin.recordStep ⟨false, commRank⟩) p events).filterMap
        (fun x => x.1.recordedRow ⟨false, commRank⟩ x.2) =
      ((Run.trace (Recorder.step enabled) held events).filterMap
        fun x => Recorder.recordedRow x.1 x.2).map (List.map some) := by
  induction events generalizing p held with
  | nil => rfl
  | cons event events ih =>
      rw [Run.trace_cons, Run.trace_cons, List.filterMap_cons, List.filterMap_cons,
        recordedRow_eq commRank h event]
      cases Recorder.recordedRow held event with
      | none => exact ih (h.recordStep commRank event)
      | some row => exact congrArg (List.cons _) (ih (h.recordStep commRank event))

namespace Recorder

/-- The answers that have been asked for when the moment `m` comes behind the moments `ms`. The
first moment that finds one starts with it, and every later one has asked for its own. -/
def asked (held : Option AggregateResult) (ms : List Moment) (m : Moment) : List AggregateResult :=
  let up := ms.dropWhile fun m => (answerAtRead held m.first).isNone
  (answerAtRead held (up.headD m).first).toList ++ up.map Moment.live

/-- The row of the moment `m` after the answers `as`: a snapshot of its own answer, unless there
was no answer before it or an empty one. -/
def rowAfter (as : List AggregateResult) (m : Moment) : List UInt64 :=
  if as = [] ∨ ∃ a ∈ as, a.size = 0 then snapshot m .empty
  else if m.live.size = 0 then
    (as.getLast?.elim 0 fun a => a.entry 0) :: (snapshot m .empty).tail
  else snapshot m m.live

theorem asked_of_some (r : AggregateResult) (ms : List Moment) (m : Moment) :
    asked (some r) ms m = r :: ms.map Moment.live := by
  have hup : ms.dropWhile (fun m => (answerAtRead (some r) m.first).isNone) = ms := by
    cases ms <;> simp [answerAtRead]
  rw [asked, hup]
  rfl

theorem rowAfter_singleton (r : AggregateResult) (m : Moment) : rowAfter [r] m = rowFrom m r := by
  simp [rowAfter, rowFrom]

/-- An answer with counters is superseded by the next one; an empty one is not. -/
theorem rowAfter_cons_cons (m₀ : Moment) (r : AggregateResult) (as : List AggregateResult)
    (m : Moment) :
    rowAfter (r :: m₀.live :: as) m = rowAfter (answerFrom m₀ r :: as) m := by
  by_cases hempty : r.size = 0
  · simp [rowAfter, answerFrom, hempty]
  · rw [answerFrom, if_neg hempty, rowAfter, rowAfter, List.getLast?_cons_cons]
    simp [hempty]

/-- The row behind moments that follow each other. -/
theorem row_final (enabled : Bool) (held : Option AggregateResult) (ms : List Moment)
    (m : Moment) :
    row (Run.final (step enabled) held (ms.map .record)) m = rowAfter (asked held ms m) m := by
  induction ms generalizing held with
  | nil =>
      rw [List.map_nil, Run.final_nil, row, asked]
      cases hheld : answerAtRead held m.first with
      | none => simp [hheld, rowAfter]
      | some r => simpa [hheld] using (rowAfter_singleton r m).symm
  | cons m₀ ms ih =>
      rw [List.map_cons, Run.final_cons, ih, step]
      cases hheld : answerAtRead held m₀.first with
      | none =>
          -- There is no answer yet, and the moment has not changed this.
          have heq : held = none := by
            cases held with
            | none => rfl
            | some r => simp [answerAtRead] at hheld
          subst heq
          simp [asked, hheld]
      | some r =>
          have hasked : asked held (m₀ :: ms) m = r :: m₀.live :: ms.map Moment.live := by
            simp [asked, hheld]
          rw [Option.map_some, asked_of_some, hasked, rowAfter_cons_cons]

end Recorder

/-- **Every row of a recording**, after any enumerations and records: it is zero until MPI is
initialized, then a snapshot of the answer that its own first read has asked for, up to the first
empty answer; there the first value is the one of the answer before, and from then on all rows are
zero. -/
theorem recordings_row (commRank ucxCountersCollectEnable nicCountersCollectEnable : ℤ)
    (nicCountersInitialized : Bool) (handle : List RawCounter) (before : List RecordEvent)
    (ms : List Moment) (m : Moment) :
    (record ⟨false, commRank⟩ m (Run.final (Plugin.recordStep ⟨false, commRank⟩)
        (.init ucxCountersCollectEnable nicCountersCollectEnable nicCountersInitialized handle)
        (before ++ ms.map .record))).1 =
      (Recorder.rowAfter (Recorder.asked
        (Run.final (Recorder.step (ucxCountersCollectEnable ≠ 0)) none before) ms m) m).map
        some := by
  have htracks := Run.final_related (Plugin.Tracks (ucxCountersCollectEnable ≠ 0))
    (fun _ _ event h => h.recordStep commRank event)
    (Plugin.tracks_init ucxCountersCollectEnable nicCountersCollectEnable nicCountersInitialized
      handle) (before ++ ms.map .record)
  rw [(record_spec commRank htracks m).1, Run.final_append, Recorder.row_final]

end ScorepPluginUcx
