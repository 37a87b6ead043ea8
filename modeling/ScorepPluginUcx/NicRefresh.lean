import ScorepPluginUcx.Lib.Decimation
import ScorepPluginUcx.NicAggregation

/-!
# How often the NIC is queried

Reading the counter with index 0 counts a round, and one round in 128 queries the device; the
aggregation queries it each time. The handle is a decimated cell in the sense of `Decimation`,
and the 32-bit counter of the rounds, masked, tells the rounds that query.

## Main definitions

* `NicCall`, `NicCounters.step`: the calls that use the handle.
* `QueriesDevice`: a call stores in the handle what the device delivers.
* `latestQuery`: what the latest query of a run has stored.

## Main results

* `Mirrors.step`: a call of the sampler is a visit of the cell.
* `nicRefresh`: when the device is queried, and where the values come from.
-/

namespace ScorepPluginUcx

open Decimation

/-- The calls that use the handle. -/
inductive NicOp where
  | nicCounterValueGet (index : ℕ)
  | nicCountersAggregate
  deriving DecidableEq

/-- A call, and what the device delivers if it is queried. -/
structure NicCall where
  op : NicOp
  device : List RawCounter

/-- The sampler after a call. -/
def NicCounters.step (s : NicCounters) (call : NicCall) : NicCounters :=
  match call.op with
  | .nicCounterValueGet index => (nicCounterValueGet call.device index s).2
  | .nicCountersAggregate => (nicCountersAggregate call.device s).2

/-- A call queries the device: whatever it delivers is in the handle afterwards. -/
def QueriesDevice (s : NicCounters) (op : NicOp) : Prop :=
  ∀ device, (s.step ⟨op, device⟩).ethStatsHandle = device

/-- A call leaves the handle as it is, whatever the device would deliver. -/
def LeavesHandle (s : NicCounters) (op : NicOp) : Prop :=
  ∀ device, (s.step ⟨op, device⟩).ethStatsHandle = s.ethStatsHandle

/-- No call does both. -/
theorem LeavesHandle.not_queriesDevice {s : NicCounters} {op : NicOp} (h : LeavesHandle s op) :
    ¬ QueriesDevice s op := by
  intro hqueries
  have hnil := (h []).symm.trans (hqueries [])
  have hone := (h [⟨[], 0⟩]).symm.trans (hqueries [⟨[], 0⟩])
  exact absurd (hnil.symm.trans hone) (List.cons_ne_nil _ _).symm

/-! ## The handle as a cell -/

/-- A call with index 0 counts, and the aggregation refreshes. -/
def NicOp.kind : NicOp → Kind
  | .nicCounterValueGet index => if index = 0 then .tick else .read
  | .nicCountersAggregate => .refresh

/-- The visit of the cell that a call makes. -/
def NicCall.visit (call : NicCall) : Visit (List RawCounter) := ⟨call.op.kind, call.device⟩

/-- A call of `nic_counter_value_get` with index 0. -/
def NicCall.isRound (call : NicCall) : Bool := call.op = .nicCounterValueGet 0

theorem isTick_visit (call : NicCall) : call.visit.isTick = call.isRound := by
  obtain ⟨op, device⟩ := call
  cases op with
  | nicCounterValueGet index =>
      by_cases hindex : index = 0 <;>
        simp [NicCall.visit, Visit.isTick, NicOp.kind, NicCall.isRound, hindex]
  | nicCountersAggregate => rfl

/-- The cell after a list of calls. -/
def refreshed (calls : List NicCall) : Cell (List RawCounter) :=
  Run.final (Cell.visit nicCountersUpdateDecimation) .init (calls.map NicCall.visit)

/-- What the latest query of a run has stored in the handle, if there was one. -/
def latestQuery (calls : List NicCall) : Option (List RawCounter) := (refreshed calls).latest

theorem ticks_refreshed (calls : List NicCall) :
    (refreshed calls).ticks = calls.countP NicCall.isRound := by
  have hticks : (Visit.isTick ∘ NicCall.visit : NicCall → Bool) = NicCall.isRound :=
    funext isTick_visit
  rw [refreshed, Cell.ticks_final, List.countP_map, hticks]
  exact Nat.zero_add _

/-- The cell tells the state of an initialized sampler: the counter of the rounds is its number
of ticks as a `uint32_t`, and the handle holds `handle` before the first query. -/
structure Mirrors (handle : List RawCounter) (s : NicCounters) (c : Cell (List RawCounter)) :
    Prop where
  ready : s.nicCountersInitialized = true
  rounds : s.nicRoundsCnt = c.ticks % 2 ^ 32
  snapshot : s.ethStatsHandle = c.latest.getD handle

theorem mirrors_init (handle : List RawCounter) : Mirrors handle (.init true handle) .init :=
  ⟨rfl, rfl, rfl⟩

section Step

variable {handle : List RawCounter} {s : NicCounters} {c : Cell (List RawCounter)}

/-- The masked counter of the rounds. -/
theorem Mirrors.mask_eq_zero_iff (h : Mirrors handle s c) :
    s.nicRoundsCnt &&& (nicCountersUpdateDecimation - 1) = 0 ↔
      nicCountersUpdateDecimation ∣ c.ticks := by
  rw [h.rounds]
  exact mod_and_mask_eq_zero_iff (k := 7) (by decide) c.ticks

/-- A round of an initialized sampler. -/
theorem nicCounterValueGet_round (device : List RawCounter)
    (hready : s.nicCountersInitialized = true) :
    (nicCounterValueGet device 0 s).2 =
      { s with
        ethStatsHandle :=
          if s.nicRoundsCnt &&& (nicCountersUpdateDecimation - 1) = 0 then device
          else s.ethStatsHandle
        nicRoundsCnt := (s.nicRoundsCnt + 1) % 2 ^ 32 } := by
  simp only [nicCounterValueGet, nicCountersUpdate, if_pos hready, if_true]
  split <;> rfl

/-- A call with another index changes nothing. -/
theorem nicCounterValueGet_of_ne (device : List RawCounter) {index : ℕ} (hindex : index ≠ 0) :
    (nicCounterValueGet device index s).2 = s := by
  simp only [nicCounterValueGet, if_neg hindex]
  split <;> rfl

/-- The value is read from the handle as the call leaves it. -/
theorem nicCounterValueGet_value (device : List RawCounter) (index : ℕ)
    (hready : s.nicCountersInitialized = true) :
    (nicCounterValueGet device index s).1 =
      (s.step ⟨.nicCounterValueGet index, device⟩).ethStatsHandle[index]?.map
        RawCounter.value := by
  simp only [NicCounters.step, nicCounterValueGet, hready, if_true]

/-- **One call** is one visit of the cell. -/
theorem Mirrors.step (h : Mirrors handle s c) (call : NicCall) :
    Mirrors handle (s.step call) (c.visit nicCountersUpdateDecimation call.visit) := by
  obtain ⟨op, device⟩ := call
  cases op with
  | nicCounterValueGet index =>
      by_cases hindex : index = 0
      · subst hindex
        have hstep : s.step ⟨.nicCounterValueGet 0, device⟩ =
            (nicCounterValueGet device 0 s).2 := rfl
        rw [hstep, nicCounterValueGet_round device h.ready]
        refine ⟨h.ready, ?_, ?_⟩
        · show (s.nicRoundsCnt + 1) % 2 ^ 32 = (c.ticks + 1) % 2 ^ 32
          rw [h.rounds, Nat.mod_add_mod]
        · simp only [h.mask_eq_zero_iff, h.snapshot]
          have hiff : c.Takes nicCountersUpdateDecimation
              (NicCall.visit ⟨.nicCounterValueGet 0, device⟩).kind ↔
                nicCountersUpdateDecimation ∣ c.ticks := Iff.rfl
          by_cases hround : nicCountersUpdateDecimation ∣ c.ticks
          · rw [if_pos hround, Cell.latest_visit_of_takes (hiff.mpr hround)]
            rfl
          · rw [if_neg hround, Cell.latest_visit_of_not_takes (mt hiff.mp hround)]
      · have hkind : NicOp.kind (.nicCounterValueGet index) = .read := if_neg hindex
        have hstep : s.step ⟨.nicCounterValueGet index, device⟩ = s :=
          nicCounterValueGet_of_ne device hindex
        rw [hstep, NicCall.visit, hkind]
        exact ⟨h.ready, h.rounds, h.snapshot⟩
  | nicCountersAggregate =>
      have hstep : s.step ⟨.nicCountersAggregate, device⟩ = (nicCountersAggregate device s).2 :=
        rfl
      rw [hstep, nicCountersAggregate_eq device h.ready]
      exact ⟨h.ready, h.rounds, rfl⟩

/-- The handle after a call. -/
theorem Mirrors.ethStatsHandle_step (h : Mirrors handle s c) (op : NicOp)
    (device : List RawCounter) :
    (s.step ⟨op, device⟩).ethStatsHandle =
      if c.Takes nicCountersUpdateDecimation op.kind then device else s.ethStatsHandle := by
  rw [(h.step ⟨op, device⟩).snapshot]
  split
  · rename_i htakes
    rw [Cell.latest_visit_of_takes htakes]
    rfl
  · rename_i hnot
    rw [Cell.latest_visit_of_not_takes hnot, h.snapshot]

/-- A call that brings nothing to the cell leaves the handle. -/
theorem Mirrors.leavesHandle (h : Mirrors handle s c) {op : NicOp}
    (hnot : ¬ c.Takes nicCountersUpdateDecimation op.kind) : LeavesHandle s op := by
  intro device
  rw [h.ethStatsHandle_step, if_neg hnot]

/-- The calls that query are those that bring something to the cell. -/
theorem Mirrors.queriesDevice_iff (h : Mirrors handle s c) (op : NicOp) :
    QueriesDevice s op ↔ c.Takes nicCountersUpdateDecimation op.kind := by
  constructor
  · intro hqueries
    by_contra hnot
    exact (h.leavesHandle hnot).not_queriesDevice hqueries
  · intro htakes device
    rw [h.ethStatsHandle_step, if_pos htakes]

end Step

/-- **The whole run.** -/
theorem mirrors_final (handle : List RawCounter) (calls : List NicCall) :
    Mirrors handle (Run.final NicCounters.step (.init true handle) calls) (refreshed calls) := by
  rw [refreshed, Run.final_map]
  exact Run.final_related (Mirrors handle) (fun s c call h => h.step call)
    (mirrors_init handle) calls

/-! ## Queries and values -/

/-- What holds of the next call after the calls in `before`, in the state `s` that they lead to.
Before the first query of a run the handle holds `handle`. -/
structure NicRefresh (handle : List RawCounter) (before : List NicCall) (s : NicCounters) :
    Prop where
  queriesDevice_iff : ∀ index, QueriesDevice s (.nicCounterValueGet index) ↔
    index = 0 ∧ 128 ∣ before.countP NicCall.isRound
  aggregate : QueriesDevice s .nicCountersAggregate
  leavesHandle : ∀ op, ¬ QueriesDevice s op → LeavesHandle s op
  value : ∀ index device, (nicCounterValueGet device index s).1 =
    ((latestQuery (before ++ [⟨.nicCounterValueGet index, device⟩])).getD handle)[index]?.map
      RawCounter.value
  /-- What a later call returns when no call from the next one on has queried the device. -/
  sameSnapshot : ∀ between index device,
    (∀ x ∈ Run.trace NicCounters.step s (between ++ [⟨.nicCounterValueGet index, device⟩]),
      ¬ QueriesDevice x.1 x.2.op) →
    (nicCounterValueGet device index (Run.final NicCounters.step s between)).1 =
      ((latestQuery before).getD handle)[index]?.map RawCounter.value

/-- Calls that do not query leave the latest query what it is. -/
theorem latestQuery_append {handle : List RawCounter} {before calls : List NicCall}
    (h : ∀ x ∈ Run.trace NicCounters.step (Run.final NicCounters.step (.init true handle) before)
      calls, ¬ QueriesDevice x.1 x.2.op) :
    latestQuery (before ++ calls) = latestQuery before := by
  have hiff := Run.trace_forall_iff (Mirrors handle) (fun s c call h => h.step call)
    (P := fun x => ¬ QueriesDevice x.1 x.2.op)
    (Q := fun x => ¬ x.1.Takes nicCountersUpdateDecimation x.2.op.kind)
    (fun s c call h => not_congr (h.queriesDevice_iff call.op)) (mirrors_final handle before) calls
  have hnone : ∀ x ∈ Run.trace (Cell.visit nicCountersUpdateDecimation) (refreshed before)
      (calls.map NicCall.visit), ¬ x.1.Takes nicCountersUpdateDecimation x.2.kind := by
    rw [Run.trace_map, List.forall_mem_map]
    exact hiff.mp h
  rw [latestQuery, refreshed, List.map_append, Run.final_append]
  exact Cell.latest_final hnone

/-- **The NIC is queried** by the 1st, the 129th, the 257th call with index 0 and so on, in a
run of any length, and every call returns what the latest query has stored, or what the handle
held before the first one. -/
theorem nicRefresh (handle : List RawCounter) (before : List NicCall) :
    NicRefresh handle before (Run.final NicCounters.step (.init true handle) before) where
  queriesDevice_iff := by
    intro index
    rw [(mirrors_final handle before).queriesDevice_iff, NicOp.kind, ← ticks_refreshed]
    by_cases hindex : index = 0
    · rw [if_pos hindex]
      exact (and_iff_right hindex).symm
    · rw [if_neg hindex]
      exact iff_of_false id fun h => hindex h.1
  aggregate := ((mirrors_final handle before).queriesDevice_iff _).mpr trivial
  leavesHandle := by
    intro op hnot
    have hmirrors := mirrors_final handle before
    exact hmirrors.leavesHandle (mt (hmirrors.queriesDevice_iff op).mpr hnot)
  value := by
    intro index device
    have hmirrors := mirrors_final handle (before ++ [⟨.nicCounterValueGet index, device⟩])
    rw [nicCounterValueGet_value device index (mirrors_final handle before).ready, latestQuery,
      ← hmirrors.snapshot, Run.final_append]
    rfl
  sameSnapshot := by
    intro between index device hnone
    have hmirrors := mirrors_final handle
      (before ++ (between ++ [⟨.nicCounterValueGet index, device⟩]))
    have hready := (mirrors_final handle (before ++ between)).ready
    rw [Run.final_append] at hready
    rw [nicCounterValueGet_value device index hready, ← latestQuery_append hnone, latestQuery,
      ← hmirrors.snapshot, Run.final_append, Run.final_append]
    rfl

/-- A call for a device with `n` counters: an index is below their number. -/
def NicCall.Below (n : ℕ) (call : NicCall) : Prop :=
  call.device.length = n ∧ ∀ index, call.op = .nicCounterValueGet index → index < n

/-- The first call of a run, with index 1 of two: no query has stored what it returns. -/
theorem read_before_query :
    (nicCounterValueGet [⟨"rx".toList, 5⟩, ⟨"tx".toList, 6⟩] 1
        (.init true [⟨"rx".toList, 1⟩, ⟨"tx".toList, 2⟩])).1 = some 2 ∧
      latestQuery [⟨.nicCounterValueGet 1, [⟨"rx".toList, 5⟩, ⟨"tx".toList, 6⟩]⟩] = none ∧
      ¬ ∀ handle before index device,
        (∀ call ∈ before ++ [⟨.nicCounterValueGet index, device⟩],
          call.Below handle.length) →
        ∃ snapshot, latestQuery (before ++ [⟨.nicCounterValueGet index, device⟩]) = some snapshot ∧
          (nicCounterValueGet device index
            (Run.final NicCounters.step (.init true handle) before)).1 =
              snapshot[index]?.map RawCounter.value := by
  have hnone : latestQuery [⟨.nicCounterValueGet 1, [⟨"rx".toList, 5⟩, ⟨"tx".toList, 6⟩]⟩] =
    none := rfl
  refine ⟨by decide, hnone, ?_⟩
  intro h
  have hbelow : ∀ call ∈ ([] : List NicCall) ++
      [⟨.nicCounterValueGet 1, [⟨"rx".toList, 5⟩, ⟨"tx".toList, 6⟩]⟩],
      call.Below [(⟨"rx".toList, 1⟩ : RawCounter), ⟨"tx".toList, 2⟩].length := by
    intro call hcall
    have heq := List.mem_singleton.mp hcall
    subst heq
    refine ⟨rfl, ?_⟩
    intro index hindex
    have hone : 1 = index := NicOp.nicCounterValueGet.inj hindex
    subst hone
    exact Nat.one_lt_two
  obtain ⟨snapshot, hlatest, _⟩ := h _ [] 1 _ hbelow
  exact absurd (hnone.symm.trans hlatest) (Option.some_ne_none snapshot).symm

end ScorepPluginUcx
