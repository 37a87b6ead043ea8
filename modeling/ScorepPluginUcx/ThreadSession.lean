import ScorepPluginUcx.LabelRegistration
import ScorepPluginUcx.Lib.Tickets
import ScorepPluginUcx.Recording
import ScorepPluginUcx.Registration

/-!
# A process whose threads record

Every thread registers the metrics for itself, reads through the ids it has been given, and
shares the plugin with all others: the static that ids are drawn from, the size that a read is
compared with, and the array of counters that only the read of id 0 renews. `Sampler` says what
comes of this for UCX counters, in any interleaving of enumerations, registrations and reads, when
calls do not overlap. A metric is the draw of its registration, whatever its label; and once there
is an answer, only the thread which registered first asks for another when it reads.

## Main definitions

* `Process.step`, `Process.value`: the threads and the plugin.
* `Sampler.step`, `Sampler.value`: the specification.

## Main results

* `Setup.follows`: the sampler follows the process.
* `threads_sample`: the values that the threads read.
-/

namespace ScorepPluginUcx

universe u
variable {ι : Type u}

/-- What happens in a process: an enumeration, the registration of a thread's next metric, or the
read of the metric that a thread has registered as its number `k`. -/
inductive ThreadEvent (ι : Type u)
  | getMetricProperties (e : Environment) (metricName : Name)
  | addMetric (i : ι) (label : Name)
  | getCurrentValue (i : ι) (k : ℕ) (e : Environment)

namespace ThreadEvent

/-- Labels are those of UCX metrics. -/
def IsUcx : ThreadEvent ι → Prop
  | addMetric _ label => isUcxMetric label
  | _ => True

@[simp] theorem isUcx_getCurrentValue (i : ι) (k : ℕ) (e : Environment) :
    (getCurrentValue i k e).IsUcx := trivial

/-- The thread that registers. -/
def registers : ThreadEvent ι → Option ι
  | addMetric i _ => some i
  | _ => none

end ThreadEvent

/-- The threads that have registered, one entry for each metric. -/
def registrations (events : List (ThreadEvent ι)) : List ι :=
  events.filterMap ThreadEvent.registers

theorem registrations_append (events more : List (ThreadEvent ι)) :
    registrations (events ++ more) = registrations events ++ registrations more :=
  List.filterMap_append

/-- The plugin, and the ids that `add_metric` has returned, each with its thread. -/
structure Process (ι : Type u) where
  plugin : Plugin
  ids : List (ι × ℤ)

/-- The threads that have registered, and the answer that the plugin holds. -/
structure Sampler (ι : Type u) where
  draws : List ι
  held : Option AggregateResult

variable [DecidableEq ι]

namespace Process

/-- The id of a thread's metric. -/
def metricId (s : Process ι) (i : ι) (k : ℕ) : Option ℤ := (Interleaving.part i s.ids)[k]?

/-- The process after an event. Nobody reads what is not registered. -/
def step (c : Context) (s : Process ι) : ThreadEvent ι → Process ι
  | .getMetricProperties e metricName =>
      { s with plugin := s.plugin.step c (.getMetricProperties e metricName) }
  | .addMetric i label =>
      match ScorepPluginUcx.addMetric label s.plugin with
      | .ok r => ⟨r.2, s.ids ++ [(i, r.1)]⟩
      | .error _ => s
  | .getCurrentValue i k e =>
      match s.metricId i k with
      | some id => { s with plugin := (ScorepPluginUcx.getCurrentValue c e id s.plugin).2 }
      | none => s

/-- What a thread reads for a metric, if it has registered it. -/
def value (c : Context) (s : Process ι) (i : ι) (k : ℕ) (e : Environment) :
    Option (Option UInt64) :=
  (s.metricId i k).map fun id => (ScorepPluginUcx.getCurrentValue c e id s.plugin).1

end Process

namespace Sampler

/-- The number of a metric among all that have been registered. -/
def number (s : Sampler ι) (i : ι) (k : ℕ) : Option ℕ := (Tickets.tickets s.draws i)[k]?

/-- The metric that was registered before all others. -/
def IsFirst (s : Sampler ι) (i : ι) (k : ℕ) : Prop := s.draws.head? = some i ∧ k = 0

instance (s : Sampler ι) (i : ι) (k : ℕ) : Decidable (s.IsFirst i k) :=
  inferInstanceAs (Decidable (_ ∧ _))

/-- Only reads of the first metric ask again, unless the answer is empty. -/
def step (enabled : Bool) (s : Sampler ι) : ThreadEvent ι → Sampler ι
  | .getMetricProperties e metricName =>
      { s with held := answerAfter enabled s.held (.getMetricProperties e metricName) }
  | .addMetric i _ => { s with draws := s.draws ++ [i] }
  | .getCurrentValue i k e =>
      match s.number i k with
      | some _ =>
          { s with held := (answerAtRead s.held e).map fun r =>
              if s.IsFirst i k ∧ r.size ≠ 0 then e.aggregateAtRead else r }
      | none => s

/-- The value of a read: it is that of the answer at the number of the metric, and 0 if there is
no answer. -/
def value (s : Sampler ι) (i : ι) (k : ℕ) (e : Environment) : Option UInt64 :=
  (s.number i k).map fun number =>
    match answerAtRead s.held e with
    | none => 0
    | some r =>
        if s.IsFirst i k ∧ r.size ≠ 0 ∧ e.aggregateAtRead.size ≠ 0 then
          e.aggregateAtRead.entry 0
        else r.entry number

end Sampler

/-! ## The static -/

theorem currentId_noticeMpi (c : Context) (e : Environment) (p : Plugin) :
    (noticeMpi c e p).currentId = p.currentId := by
  rw [noticeMpi]
  split
  · by_cases hrank : c.commRank = 0 <;> simp [aggregateStart, hrank, Plugin.withAggregate]
  · rfl

theorem currentId_getMetricProperties {c : Context} {e : Environment} {metricName : Name}
    {p : Plugin} {r : Enumeration} (hr : getMetricProperties c e metricName p = .ok r) :
    r.plugin.currentId = p.currentId := by
  cases hucx : isUcxMetric metricName with
  | true =>
      rw [getMetricProperties_of_ucx hucx] at hr
      cases hu : ucxMetricProperties c e metricName
          { p with ucxMetricName := metricName, nUcxCounters := ucxNumTemporaryCounters } with
      | error f => simp [hu, Except.map] at hr
      | ok r' =>
          rw [hu] at hr
          have heq := Except.ok.inj hr
          subst heq
          rw [addNicProperties]
          split <;> exact (ucxMetricProperties_frame hu).2
  | false =>
      obtain ⟨f, hplugin⟩ := plugin_of_not_ucx hucx hr
      rw [hplugin]

/-- Only registrations move the static. -/
theorem currentId_step (c : Context) (p : Plugin) (call : Call) :
    (p.step c call).currentId = p.currentId := by
  cases call with
  | getMetricProperties e metricName =>
      rw [Plugin.step]
      cases hr : getMetricProperties c e metricName p with
      | error f => rfl
      | ok r => exact currentId_getMetricProperties hr
  | currentValueGet e id =>
      rw [Plugin.step, currentValueGet_eq_readFrom, ← currentId_noticeMpi c e p]
      cases readSource c e id p <;> rfl

/-! ## One event -/

/-- The plugin holds the answer that the sampler holds, and the ids are the numbers. -/
structure Process.Follows (enabled : Bool) (s : Process ι) (t : Sampler ι) : Prop where
  tracks : s.plugin.Tracks enabled t.held
  currentId : s.plugin.currentId = t.draws.length % 2 ^ 32
  ids : s.ids = t.draws.zipIdx.map (Prod.map id fun n => int32 n)

namespace Sampler

variable {t : Sampler ι} {i : ι} {k n : ℕ}

/-- The first metric has the number 0. -/
theorem isFirst_iff (hn : t.number i k = some n) : t.IsFirst i k ↔ n = 0 := by
  rw [IsFirst, ← Tickets.getElem?_tickets_eq_zero_iff, ← number, hn, Option.some.injEq]

theorem lt_of_number (hn : t.number i k = some n) : n < t.draws.length :=
  Tickets.lt_of_mem_tickets (List.mem_of_getElem? hn)

/-- The answer after a read, from the number of its metric. -/
theorem held_step_of_number (enabled : Bool) (hn : t.number i k = some n) (hlt : n < 2 ^ 31)
    (e : Environment) :
    (t.step enabled (.getCurrentValue i k e)).held =
      answerAfter enabled t.held (.currentValueGet e n) := by
  have hread : ∀ r : AggregateResult,
      t.IsFirst i k ∧ r.size ≠ 0 ↔ sizeT (n : ℤ) < r.size ∧ uint32 (n : ℤ) = 0 := by
    intro r
    rw [isFirst_iff hn, sizeT_natCast (by omega), uint32_natCast (by omega)]
    omega
  simp only [step, hn, answerAfter, hread]

end Sampler

namespace Process.Follows

variable {enabled : Bool} {s : Process ι} {t : Sampler ι}

theorem metricId_eq (h : s.Follows enabled t) (hshort : t.draws.length ≤ 2 ^ 31) (i : ι) (k : ℕ) :
    s.metricId i k = (t.number i k).map fun n : ℕ => (n : ℤ) := by
  have hids : s.metricId i k = (t.number i k).map fun n => int32 n := by
    rw [metricId, h.ids, Interleaving.part_map_snd, List.getElem?_map]
    rfl
  rw [hids]
  cases hn : t.number i k with
  | none => rfl
  | some n =>
      have hlt := Sampler.lt_of_number hn
      exact congrArg some (int32_of_lt (by omega))

/-- **One event** takes the sampler where it takes the process. -/
theorem step (h : s.Follows enabled t) (c : Context) {event : ThreadEvent ι}
    (hucx : event.IsUcx) (hshort : t.draws.length ≤ 2 ^ 31) :
    (s.step c event).Follows enabled (t.step enabled event) := by
  cases event with
  | getMetricProperties e metricName =>
      have hid := currentId_step c s.plugin (.getMetricProperties e metricName)
      exact ⟨h.tracks.step c _, hid.trans h.currentId, h.ids⟩
  | addMetric i label =>
      have hadd := addMetric_of_ucx hucx s.plugin
      simp only [Process.step, hadd, Sampler.step]
      refine ⟨h.tracks, ?_, ?_⟩
      · simp [h.currentId]
      · have hlast : int32 s.plugin.currentId = int32 t.draws.length := by simp [h.currentId, int32]
        rw [h.ids, hlast, List.zipIdx_append, List.map_append]
        simp
  | getCurrentValue i k e =>
      have hid := h.metricId_eq hshort i k
      cases hn : t.number i k with
      | none =>
          rw [hn, Option.map_none] at hid
          simp only [Process.step, hid, Sampler.step, hn]
          exact h
      | some n =>
          have hlt : n < 2 ^ 31 := Nat.lt_of_lt_of_le (Sampler.lt_of_number hn) hshort
          have hheld := Sampler.held_step_of_number enabled hn hlt e
          have hcall := currentId_step c s.plugin (.currentValueGet e n)
          have htracks := h.tracks.step c (.currentValueGet e n)
          rw [← hheld] at htracks
          rw [hn, Option.map_some] at hid
          simp only [Process.step, hid]
          refine ⟨htracks, ?_, ?_⟩
          · simp only [Sampler.step, hn]
            exact hcall.trans h.currentId
          · simp only [Sampler.step, hn]
            exact h.ids

/-- **One read** without NIC counters yields the value of the sampler. -/
theorem value_eq (h : s.Follows enabled t) {c : Context} (hbuild : c.nicCountersEnable = false)
    (hshort : t.draws.length ≤ 2 ^ 31) (i : ι) (k : ℕ) (e : Environment) :
    s.value c i k e = (t.value i k e).map some := by
  obtain ⟨build, commRank⟩ := c
  have heq : build = false := hbuild
  subst heq
  rw [Process.value, h.metricId_eq hshort, Sampler.value]
  cases hn : t.number i k with
  | none => rfl
  | some n =>
      have hlt : n < 2 ^ 31 := Nat.lt_of_lt_of_le (Sampler.lt_of_number hn) hshort
      have hread := currentValueGet_of_holds h.tracks.1 commRank e hlt
      simp only [Option.map_some, Option.some.injEq, getCurrentValue, hread,
        Sampler.isFirst_iff hn]
      cases answerAtRead t.held e with
      | none => rfl
      | some r =>
          simp only [← Nat.pos_iff_ne_zero]
          exact (apply_ite some _ _ _).symm

/-- What is read is a value of the sampler, for a metric that has a number. -/
theorem exists_number (h : s.Follows enabled t) {c : Context}
    (hbuild : c.nicCountersEnable = false) (hshort : t.draws.length ≤ 2 ^ 31) {i : ι} {k : ℕ}
    {e : Environment} {v : Option UInt64} (hv : v ∈ s.value c i k e) :
    ∃ n w, t.number i k = some n ∧ t.value i k e = some w ∧ v = some w := by
  rw [h.value_eq hbuild hshort] at hv
  obtain ⟨w, hw, rfl⟩ := Option.mem_map.mp hv
  obtain ⟨n, hn, -⟩ := Option.map_eq_some_iff.mp hw
  exact ⟨n, w, hn, hw, rfl⟩

end Process.Follows

/-! ## Runs -/

/-- Every registration is a draw. -/
theorem draws_step (enabled : Bool) (t : Sampler ι) (event : ThreadEvent ι) :
    (t.step enabled event).draws = t.draws ++ event.registers.toList := by
  cases event with
  | getMetricProperties e metricName => exact (List.append_nil _).symm
  | addMetric i label => rfl
  | getCurrentValue i k e =>
      rw [Sampler.step]
      cases t.number i k <;> exact (List.append_nil _).symm

theorem draws_final (enabled : Bool) (t : Sampler ι) (events : List (ThreadEvent ι)) :
    (Run.final (Sampler.step enabled) t events).draws = t.draws ++ registrations events := by
  induction events generalizing t with
  | nil => simp [registrations]
  | cons event events ih =>
      rw [Run.final_cons, ih, draws_step, List.append_assoc, registrations, registrations,
        List.filterMap_cons]
      cases event.registers <;> rfl

/-- What a process begins with. -/
structure Setup where
  context : Context
  ucxCountersCollectEnable : ℤ
  nicCountersCollectEnable : ℤ
  nicCountersInitialized : Bool
  handle : List RawCounter

namespace Setup

/-- The process after some events. -/
def process (x : Setup) (events : List (ThreadEvent ι)) : Process ι :=
  Run.final (Process.step x.context)
    ⟨.init x.ucxCountersCollectEnable x.nicCountersCollectEnable x.nicCountersInitialized x.handle,
      []⟩ events

/-- The sampler after some events. -/
def sampler (x : Setup) (events : List (ThreadEvent ι)) : Sampler ι :=
  Run.final (Sampler.step (x.ucxCountersCollectEnable ≠ 0)) ⟨[], none⟩ events

@[simp] theorem draws_sampler (x : Setup) (events : List (ThreadEvent ι)) :
    (x.sampler events).draws = registrations events :=
  draws_final _ _ events

/-- **The sampler follows the process.** -/
theorem follows (x : Setup) {events : List (ThreadEvent ι)} (hucx : ∀ event ∈ events, event.IsUcx)
    (hshort : (registrations events).length ≤ 2 ^ 31) :
    (x.process events).Follows (x.ucxCountersCollectEnable ≠ 0) (x.sampler events) := by
  induction events using List.reverseRecOn with
  | nil =>
      have hinit := Plugin.tracks_init x.ucxCountersCollectEnable x.nicCountersCollectEnable
        x.nicCountersInitialized x.handle
      exact ⟨hinit, rfl, rfl⟩
  | append_singleton events event ih =>
      rw [registrations_append, List.length_append] at hshort
      have hbefore : (registrations events).length ≤ 2 ^ 31 := Nat.le_of_add_right_le hshort
      have hfollows := ih (fun y hy => hucx y (List.mem_append_left _ hy)) hbefore
      rw [process, sampler, Run.final_append, Run.final_append]
      refine hfollows.step x.context (hucx event (by simp)) ?_
      rw [draws_sampler]
      exact hbefore

end Setup

/-- **The values that the threads read** without NIC counters, in any interleaving of
enumerations, registrations and reads of a process that registers UCX metrics, at most `2 ^ 31` of
them. -/
theorem threads_sample (x : Setup) (hbuild : x.context.nicCountersEnable = false)
    {events : List (ThreadEvent ι)} (hucx : ∀ event ∈ events, event.IsUcx)
    (hshort : (registrations events).length ≤ 2 ^ 31) (i : ι) (k : ℕ) (e : Environment) :
    (x.process events).value x.context i k e =
      ((x.sampler events).value i k e).map some := by
  refine (x.follows hucx hshort).value_eq hbuild ?_ i k e
  rw [x.draws_sampler]
  exact hshort

/-- UCX with two counters, at a moment when they are 7 and 8. -/
def twoCountersUp : Environment :=
  { Environment.bare with
    mpiInitialized := true, aggregateAtInit := ⟨[7, 8], by decide⟩,
    aggregateAtRead := ⟨[7, 8], by decide⟩ }

/-- A thread registers a label. -/
def registersTx (i : Bool) : ThreadEvent Bool := .addMetric i "UCX@1_c_tx".toList

theorem isUcx_registersTx (i : Bool) : (registersTx i).IsUcx :=
  show isUcxMetric "UCX@1_c_tx".toList = true by decide

/-- A process that collects UCX counters. -/
def ucxSetup : Setup := ⟨⟨false, 0⟩, 1, 0, false, []⟩

/-- Two threads register the first label. The second one reads the second counter for it. -/
theorem threads_sample_two :
    (ucxSetup.process [registersTx true, registersTx false]).value ucxSetup.context false 0
      twoCountersUp = some (some 8) := by
  have hucx : ∀ event ∈ [registersTx true, registersTx false], event.IsUcx := by
    simp [isUcx_registersTx]
  rw [threads_sample ucxSetup rfl hucx (by decide)]
  rfl

end ScorepPluginUcx
