import ScorepPluginUcx.ReadBounds
import ScorepPluginUcx.ThreadValues

/-!
# The bounds of the threads' reads

In a build with NIC counters every id beyond the counters of UCX becomes an index into the data of
the NIC, and ids count the registrations of all threads. So it is their number that decides
whether a read leaves the data, whatever the order in which the threads register and read.

## Main results

* `Process.Follows.value_eq_none_iff`: one read.
* `threads_inBounds_iff`: all reads of all threads.
-/

namespace ScorepPluginUcx

universe u
variable {ι : Type u}

namespace NicCounters

/-- The device has been found, and its counters are `n`. -/
structure HasDevice (n : ℕ) (s : NicCounters) : Prop where
  ready : s.nicCountersInitialized = true
  length : s.ethStatsHandle.length = n

namespace HasDevice

variable {n : ℕ} {s : NicCounters}

/-- A call keeps the number of counters when the device does. -/
theorem step (h : s.HasDevice n) {call : NicCall} (hdevice : call.device.length = n) :
    (s.step call).HasDevice n where
  ready := (nicCountersInitialized_step s call).trans h.ready
  length := by
    obtain ⟨op, device⟩ := call
    cases op with
    | nicCountersAggregate =>
        simp only [NicCounters.step, nicCountersAggregate, nicCountersUpdate, h.ready, if_true]
        exact hdevice
    | nicCounterValueGet index =>
        simp only [NicCounters.step, nicCounterValueGet, nicCountersUpdate, h.ready, if_true]
        split
        · split
          · exact hdevice
          · exact h.length
        · exact h.length

/-- A read of the device is within its data when the index is. -/
theorem value_eq_none_iff (h : s.HasDevice n) {device : List RawCounter}
    (hdevice : device.length = n) (index : ℕ) :
    (nicCounterValueGet device index s).1 = none ↔ n ≤ index := by
  have hstep : (s.step ⟨.nicCounterValueGet index, device⟩).HasDevice n := h.step hdevice
  rw [nicCounterValueGet_value device index h.ready, Option.map_eq_none_iff,
    List.getElem?_eq_none_iff, hstep.length]

end HasDevice

end NicCounters

/-- What a call finds outside. -/
def Call.environment : Call → Environment
  | getMetricProperties e _ => e
  | currentValueGet e _ => e

/-- The NIC side sees the device that the call sees. -/
theorem device_of_nicCallOf {c : Context} {p : Plugin} {call : Call} {nicCall : NicCall}
    (h : nicCallOf c p call = some nicCall) : nicCall.device = call.environment.device := by
  cases call with
  | getMetricProperties e metricName =>
      simp only [nicCallOf] at h
      split at h
      · rw [Option.ite_none_right_eq_some] at h
        have heq := Option.some.inj h.2
        subst heq
        rfl
      · cases h
  | currentValueGet e id =>
      simp only [nicCallOf] at h
      split at h
      · have heq := Option.some.inj h
        subst heq
        rfl
      · cases h

theorem hasDevice_step {n : ℕ} {p : Plugin} (h : p.nic.HasDevice n) (c : Context) {call : Call}
    (hdevice : call.environment.device.length = n) : (p.step c call).nic.HasDevice n := by
  rw [(nic_projects c).view_step p call trivial]
  cases hcall : nicCallOf c p call with
  | none => exact h
  | some nicCall =>
      refine h.step ?_
      rw [device_of_nicCallOf hcall]
      exact hdevice

/-! ## Threads -/

/-- UCX has `U` counters and the device has `L`. -/
def ThreadEvent.Finds (U L : ℕ) : ThreadEvent ι → Prop
  | getMetricProperties e _ => e.aggregateAtInit.size = U ∧ e.device.length = L
  | addMetric _ _ => True
  | getCurrentValue _ _ e =>
      (e.aggregateAtInit.size = U ∧ e.aggregateAtRead.size = U) ∧ e.device.length = L

theorem ThreadEvent.Finds.answers {U L : ℕ} {event : ThreadEvent ι} (h : event.Finds U L) :
    event.Answers (· = U) := by
  cases event with
  | getMetricProperties e metricName => exact h.1
  | addMetric i label => trivial
  | getCurrentValue i k e => exact h.1

variable [DecidableEq ι]

/-- The device of a process keeps its number of counters. -/
theorem hasDevice_process (x : Setup) {U L : ℕ} (hready : x.nicCountersInitialized = true)
    (hhandle : x.handle.length = L) {events : List (ThreadEvent ι)}
    (hevents : ∀ event ∈ events, event.Finds U L) : (x.process events).plugin.nic.HasDevice L := by
  apply Run.final_invariant fun s : Process ι => s.plugin.nic.HasDevice L
  · intro s event hevent h
    have hfinds := hevents event hevent
    cases event with
    | getMetricProperties e metricName => exact hasDevice_step h x.context hfinds.2
    | addMetric i label =>
        rw [Process.step]
        cases hadd : addMetric label s.plugin with
        | error f => exact h
        | ok r =>
            obtain ⟨n, hplugin⟩ := addMetric_plugin hadd
            simp only [hplugin]
            exact h
    | getCurrentValue i k e =>
        rw [Process.step]
        cases s.metricId i k with
        | none => exact h
        | some id =>
            have hstep : (s.plugin.step x.context (.currentValueGet e id)).nic.HasDevice L :=
              hasDevice_step h x.context hfinds.2
            exact hstep
  · exact ⟨hready, hhandle⟩

/-- **One read** of the metric with the number `n`, in a build with NIC counters: it leaves the
data of the NIC exactly when there is an answer of UCX, and the counters of UCX and of the device
are not more than `n`. -/
theorem Process.Follows.value_eq_none_iff {enabled : Bool} {s : Process ι} {t : Sampler ι}
    (h : s.Follows enabled t) {c : Context} (hbuild : c.nicCountersEnable = true)
    (hshort : t.draws.length ≤ 2 ^ 31) {U L : ℕ} (hdevice : s.plugin.nic.HasDevice L)
    {e : Environment} (hheld : ∀ r ∈ answerAtRead t.held e, r.size = U)
    (hlength : e.device.length = L) {i : ι} {k n : ℕ} (hn : t.number i k = some n) :
    s.value c i k e = some none ↔ (answerAtRead t.held e).isSome ∧ U + L ≤ n := by
  have hlt : n < 2 ^ 31 := Nat.lt_of_lt_of_le (Sampler.lt_of_number hn) hshort
  have hsource := readSource_of_holds h.tracks.1 c e n
  rw [Process.value, h.metricId_eq hshort, hn, Option.map_some, Option.map_some,
    Option.some.injEq, getCurrentValue, currentValueGet_eq_readFrom, hsource]
  cases hanswer : answerAtRead t.held e with
  | none => simp [readFrom]
  | some r =>
      have hsize : r.size = U := hheld r hanswer
      have hsmall : U ≤ aggregateSumNumCountersMax := hsize ▸ r.size_le
      simp only [hsize, sizeT_natCast (show n < 2 ^ 64 by omega), hbuild, if_true,
        Option.isSome_some, true_and]
      by_cases hucx : n < U
      · -- A counter of UCX.
        have hindex : uint32 (n : ℤ) < aggregateSumNumCountersMax := by
          rw [uint32_natCast (by omega)]
          omega
        have hsome := readUcx_isSome e hindex (noticeMpi c e s.plugin)
        rw [if_pos hucx]
        exact iff_of_false (Option.isSome_iff_ne_none.mp hsome) (by omega)
      · have hindex : uint32 (sizeT ((n : ℤ) - (U : ℤ))) = n - U := by
          have hsub : (n : ℤ) - U = (n - U : ℕ) := by omega
          rw [hsub, sizeT_natCast (by omega), uint32_natCast (by omega)]
        have hvalue := hdevice.value_eq_none_iff hlength (n - U)
        rw [← nic_noticeMpi c e s.plugin] at hvalue
        rw [if_neg hucx, hindex]
        exact hvalue.trans (by omega)

/-- UCX with `U` counters and a device with `L`, once MPI is up. -/
def countersUp (U L : ℕ) (hU : U ≤ aggregateSumNumCountersMax) : Environment :=
  let answer : AggregateResult := ⟨List.replicate U 0, by simpa using hU⟩
  { Environment.bare with
    mpiInitialized := true, aggregateAtInit := answer, aggregateAtRead := answer,
    device := List.replicate L ⟨[], 0⟩ }

omit [DecidableEq ι] in
theorem finds_countersUp (U L : ℕ) (hU : U ≤ aggregateSumNumCountersMax) (i : ι) (k : ℕ) :
    (ThreadEvent.getCurrentValue i k (countersUp U L hU)).Finds U L :=
  ⟨⟨List.length_replicate, List.length_replicate⟩, List.length_replicate⟩

/-- **All reads of all threads** stay in their tables exactly when the threads have registered at
most as many metrics, in all, as UCX and the device have counters. -/
theorem threads_inBounds_iff (x : Setup) (hbuild : x.context.nicCountersEnable = true)
    (hready : x.nicCountersInitialized = true) {U L : ℕ} (hU : U ≤ aggregateSumNumCountersMax)
    (hhandle : x.handle.length = L) {events : List (ThreadEvent ι)}
    (hucx : ∀ event ∈ events, event.IsUcx) (hshort : (registrations events).length ≤ 2 ^ 31)
    (hevents : ∀ event ∈ events, event.Finds U L) :
    (∀ i k e, (ThreadEvent.getCurrentValue i k e).Finds U L →
        (x.process events).value x.context i k e ≠ some none) ↔
      (registrations events).length ≤ U + L := by
  have hfollows := x.follows hucx hshort
  have hdraws := x.draws_sampler events
  have hdevice := hasDevice_process x hready hhandle hevents
  have hsize := size_held_sampler x fun event hevent => (hevents event hevent).answers
  rw [← hdraws] at hshort
  have hread : ∀ i k e n, (ThreadEvent.getCurrentValue i k e).Finds U L →
      (x.sampler events).number i k = some n →
      ((x.process events).value x.context i k e = some none ↔
        (answerAtRead (x.sampler events).held e).isSome ∧ U + L ≤ n) := by
    intro i k e n hfinds hn
    exact hfollows.value_eq_none_iff hbuild hshort hdevice
      (size_answerAtRead (P := (· = U)) hsize hfinds.1.1) hfinds.2 hn
  constructor
  · intro hall
    by_contra hmany
    -- The metric that has been registered behind `U + L` others.
    have hlt : U + L < (x.sampler events).draws.length := by rw [hdraws]; omega
    have hmem : U + L ∈ Tickets.tickets (x.sampler events).draws (x.sampler events).draws[U + L] :=
      Tickets.mem_tickets_iff.mpr (List.getElem?_eq_getElem hlt)
    obtain ⟨k, hn⟩ := List.mem_iff_getElem?.mp hmem
    have hfinds := finds_countersUp U L hU (x.sampler events).draws[U + L] k
    refine hall _ k _ hfinds ((hread _ k _ (U + L) hfinds hn).mpr ⟨?_, Nat.le_refl _⟩)
    cases (x.sampler events).held <;> rfl
  · intro hfew i k e hfinds hnone
    have hid : ((x.process events).metricId i k).isSome := by
      rw [Process.value, Option.map_eq_some_iff] at hnone
      obtain ⟨id, hid, -⟩ := hnone
      rw [hid, Option.isSome_some]
    rw [hfollows.metricId_eq hshort, Option.isSome_map] at hid
    obtain ⟨n, hn⟩ := Option.isSome_iff_exists.mp hid
    have hlt := Sampler.lt_of_number hn
    have hle := ((hread i k e n hfinds hn).mp hnone).2
    rw [hdraws] at hlt
    omega

/-- A process that collects NIC counters too, from a device with one. -/
def nicSetup : Setup := ⟨⟨true, 0⟩, 1, 1, true, [⟨"rx".toList, 0⟩]⟩

/-- One counter of UCX and one of the device are not enough for two threads that register two
metrics each. -/
theorem threads_inBounds_iff_two :
    ¬ ∀ i k e, (ThreadEvent.getCurrentValue i k e).Finds 1 1 →
      (nicSetup.process [registersTx true, registersTx true, registersTx false,
        registersTx false]).value nicSetup.context i k e ≠ some none := by
  have hucx : ∀ event ∈ [registersTx true, registersTx true, registersTx false,
      registersTx false], event.IsUcx := by
    simp [isUcx_registersTx]
  have hevents : ∀ event ∈ [registersTx true, registersTx true, registersTx false,
      registersTx false], event.Finds 1 1 := by
    simp [registersTx, ThreadEvent.Finds]
  intro hall
  have hfew := (threads_inBounds_iff nicSetup rfl rfl (by decide) rfl hucx (by decide) hevents).mp
    hall
  exact absurd hfew (by decide)

end ScorepPluginUcx
