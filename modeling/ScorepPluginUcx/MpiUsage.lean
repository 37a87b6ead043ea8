import ScorepPluginUcx.ServerStart

/-!
# The plugin as a user of MPI

MPI allows its calls in a certain order only: it is initialized once, asked for the rank while
it is up, and finalized once. The application keeps to this. The plugin is called before, between
and after the calls of the application, and calls MPI itself: an enumeration may initialize it, so
that the `MPI_Init` of the application is the second one, which a patched Open MPI lets pass.

## Main definitions

* `MpiStatus.next`: which calls MPI allows, and what they do.
* `mpiCalls`: the MPI calls of an entry point.
* `MpiProcess.step`: an application with the plugin.

## Main results

* `usage_step`: what one event does to MPI, without the plugin's tables.
* `mpiUsage_iff`: when all MPI calls of a process are allowed.
-/

namespace ScorepPluginUcx

/-- MPI before `MPI_Init`, up to `MPI_Finalize`, and from then on. -/
inductive MpiStatus
  | notInitialized
  | active
  | finalized
  deriving DecidableEq

/-- The calls of MPI that matter: `MPI_Initialized`, `MPI_Init`, `MPI_Comm_rank` and
`MPI_Finalize`. -/
inductive MpiCall
  | initialized
  | init
  | commRank
  | finalize
  deriving DecidableEq

namespace MpiStatus

/-- The flag of `MPI_Initialized`, which `MPI_Finalize` leaves set. -/
def flag (s : MpiStatus) : Bool := s ≠ .notInitialized

/-- The status after a call; `none` is a call that is not allowed. The patch of Open MPI makes
`MPI_Init` return when MPI is initialized already. -/
def next (patched : Bool) : MpiStatus → MpiCall → Option MpiStatus
  | s, .initialized => some s
  | .notInitialized, .init => some .active
  | s, .init => if patched then some s else none
  | .active, .commRank => some .active
  | _, .commRank => none
  | .active, .finalize => some .finalized
  | _, .finalize => none

end MpiStatus

/-- The MPI calls of an entry point, in a plugin `p` to which `MPI_Initialized` reports `flag`. -/
def mpiCalls (p : Plugin) (flag : Bool) : Call → List MpiCall
  | .getMetricProperties e metricName =>
      if p.core.Asks e metricName then
        -- Don't re-initialize MPI if already initialized.
        .initialized :: ((if flag then [] else [.init]) ++ [.commRank])
      else []
  | .currentValueGet _ _ =>
      if p.mpiTInitialized = false then .initialized :: (if flag then [.commRank] else [])
      else []

namespace Call

/-- The call, when `MPI_Initialized` reports `flag` to it. -/
def withFlag (flag : Bool) : Call → Call
  | .getMetricProperties e metricName =>
      .getMetricProperties { e with mpiInitialized := flag } metricName
  | .currentValueGet e id => .currentValueGet { e with mpiInitialized := flag } id

/-- A read. -/
def IsRead : Call → Prop
  | .getMetricProperties _ _ => False
  | .currentValueGet _ _ => True

instance : DecidablePred IsRead
  | .getMetricProperties _ _ => inferInstanceAs (Decidable False)
  | .currentValueGet _ _ => inferInstanceAs (Decidable True)

/-- What is reported to a call matters to reads only. -/
theorem starts_withFlag (enabled started flag : Bool) (call : Call) :
    (call.withFlag flag).Starts enabled started ↔
      enabled ∧ call.Fileless ∨ started = false ∧ call.IsRead ∧ flag := by
  cases call <;> simp [withFlag, Starts, Fileless, SeesMpi, IsRead]

end Call

/-- A process: the plugin, and MPI. -/
structure MpiProcess where
  plugin : Plugin
  mpi : MpiStatus

/-- What happens in a process: the application calls MPI, or Score-P calls the plugin. -/
inductive ProcessEvent
  | mpiInit
  | mpiFinalize
  | call (call : Call)

/-- The process after an event, as long as MPI allows all calls. -/
def MpiProcess.step (patched : Bool) (c : Context) (s : MpiProcess) :
    ProcessEvent → Option MpiProcess
  | .mpiInit => (s.mpi.next patched .init).map (MpiProcess.mk s.plugin)
  | .mpiFinalize => (s.mpi.next patched .finalize).map (MpiProcess.mk s.plugin)
  | .call call =>
      ((mpiCalls s.plugin s.mpi.flag call).foldlM (MpiStatus.next patched) s.mpi).map
        (MpiProcess.mk (s.plugin.step c (call.withFlag s.mpi.flag)))

/-- The events behind the `MPI_Init` of an application. -/
def eventsBehindInit (during after : List Call) : List ProcessEvent :=
  during.map .call ++ .mpiFinalize :: after.map .call

/-- The events of an application that calls `MPI_Init` and later `MPI_Finalize`, with the calls of
the plugin before, between and after the two. -/
def applicationEvents (before during after : List Call) : List ProcessEvent :=
  before.map .call ++ .mpiInit :: eventsBehindInit during after

/-! ## MPI without the tables of the plugin -/

/-- Whether UCX collection is enabled, whether the plugin has noticed MPI, and MPI. -/
structure MpiUsage where
  enabled : Bool
  started : Bool
  mpi : MpiStatus

/-- What matters of a process. -/
def MpiProcess.usage (s : MpiProcess) : MpiUsage :=
  ⟨s.plugin.core.enabled, s.plugin.mpiTInitialized, s.mpi⟩

namespace MpiUsage

/-- Whether a call starts the aggregate API. -/
def Starts (u : MpiUsage) (call : Call) : Prop :=
  u.enabled ∧ call.Fileless ∨ u.started = false ∧ call.IsRead ∧ u.mpi.flag

instance (u : MpiUsage) (call : Call) : Decidable (u.Starts call) :=
  inferInstanceAs (Decidable (_ ∨ _))

/-- The effect of an event: a start needs MPI not to be finalized, and leaves it up. -/
def step (patched : Bool) (u : MpiUsage) : ProcessEvent → Option MpiUsage
  | .mpiInit => (u.mpi.next patched .init).map (MpiUsage.mk u.enabled u.started)
  | .mpiFinalize => (u.mpi.next patched .finalize).map (MpiUsage.mk u.enabled u.started)
  | .call call =>
      if u.Starts call then
        if u.mpi = .finalized then none else some ⟨u.enabled, true, .active⟩
      else some u

end MpiUsage

/-- The MPI calls of an entry point: the rank is asked for, and MPI is brought up before, exactly
when the call starts the aggregate API. -/
theorem foldlM_mpiCalls (patched : Bool) (s : MpiProcess) (call : Call) :
    (mpiCalls s.plugin s.mpi.flag call).foldlM (MpiStatus.next patched) s.mpi =
      if s.usage.Starts call then if s.mpi = .finalized then none else some .active
      else some s.mpi := by
  cases call with
  | getMetricProperties e metricName =>
      have hiff : s.usage.Starts (.getMetricProperties e metricName) ↔
          s.plugin.core.Asks e metricName := by
        simp only [MpiUsage.Starts, MpiProcess.usage, Call.Fileless, Call.IsRead, Core.Asks,
          Core.enabled, decide_eq_true_eq, false_and, and_false, or_false]
        tauto
      rw [mpiCalls]
      by_cases hasks : s.plugin.core.Asks e metricName
      · rw [if_pos hasks, if_pos (hiff.mpr hasks)]
        cases s.mpi <;> rfl
      · rw [if_neg hasks, if_neg (mt hiff.mp hasks)]
        rfl
  | currentValueGet e id =>
      have hiff : s.usage.Starts (.currentValueGet e id) ↔
          s.plugin.mpiTInitialized = false ∧ s.mpi.flag = true := by
        simp [MpiUsage.Starts, MpiProcess.usage, Call.Fileless, Call.IsRead]
      rw [mpiCalls]
      by_cases hstarted : s.plugin.mpiTInitialized = false
      · rw [if_pos hstarted]
        cases hmpi : s.mpi <;> simp [hiff, hstarted, hmpi, MpiStatus.flag, MpiStatus.next]
      · rw [if_neg hstarted, if_neg (fun hboth => hstarted (hiff.mp hboth).1)]
        rfl

/-- **One event** of a process. -/
theorem usage_step (patched : Bool) (c : Context) (s : MpiProcess) (event : ProcessEvent) :
    (s.step patched c event).map MpiProcess.usage = s.usage.step patched event := by
  cases event with
  | mpiInit => exact Option.map_map _ _ _
  | mpiFinalize => exact Option.map_map _ _ _
  | call call =>
      obtain ⟨henabled, hstarted, _⟩ :=
        Core.starts_step c s.plugin.core (call.withFlag s.mpi.flag)
      rw [← core_step] at henabled hstarted
      have hafter : (s.plugin.step c (call.withFlag s.mpi.flag)).mpiTInitialized =
          (s.plugin.mpiTInitialized || s.usage.Starts call) := by
        refine hstarted.trans (congrArg _ (decide_eq_decide.mpr ?_))
        exact Call.starts_withFlag _ _ _ call
      rw [MpiProcess.step, foldlM_mpiCalls, MpiUsage.step]
      by_cases hstarts : s.usage.Starts call
      · rw [decide_eq_true hstarts, Bool.or_true] at hafter
        rw [if_pos hstarts, if_pos hstarts]
        by_cases hfinal : s.mpi = .finalized
        · simp [hfinal, MpiProcess.usage]
        · simp [hfinal, MpiProcess.usage, henabled, hafter]
      · rw [decide_eq_false hstarts, Bool.or_false] at hafter
        rw [if_neg hstarts, if_neg hstarts]
        simp [MpiProcess.usage, henabled, hafter]

/-! ## Runs -/

namespace MpiUsage

variable {patched enabled started : Bool}

/-- While MPI is up, every call of the plugin is allowed; those that start the aggregate API are
the enumerations that ask it, and the first read. -/
theorem run_active (calls : List Call) :
    (calls.map .call).foldlM (step patched) ⟨enabled, started, .active⟩ =
      some ⟨enabled, started || decide (∃ call ∈ calls, enabled ∧ call.Fileless ∨ call.IsRead),
        .active⟩ := by
  induction calls generalizing started with
  | nil => simp
  | cons call calls ih =>
      have hstarts : Starts ⟨enabled, started, .active⟩ call ↔
          enabled ∧ call.Fileless ∨ started = false ∧ call.IsRead := by
        simp [Starts, MpiStatus.flag]
      rw [List.map_cons, List.foldlM_cons, step]
      by_cases h : Starts ⟨enabled, started, .active⟩ call
      · have huses : ∃ call' ∈ call :: calls, enabled ∧ call'.Fileless ∨ call'.IsRead :=
          ⟨call, List.mem_cons_self, (hstarts.mp h).imp_right And.right⟩
        rw [if_pos h, if_neg nofun, decide_eq_true huses, Bool.or_true]
        exact ih
      · rw [if_neg h]
        refine ih.trans ?_
        cases started with
        | true => rfl
        | false =>
            have hnot : ¬ (enabled ∧ call.Fileless ∨ call.IsRead) :=
              fun huses => h (hstarts.mpr (huses.imp_right (And.intro rfl)))
            simp [hnot]

/-- Before `MPI_Init`, an enumeration that asks the aggregate API brings MPI up, and nothing else
does. -/
theorem run_notInitialized (calls : List Call) :
    (calls.map .call).foldlM (step patched) ⟨enabled, false, .notInitialized⟩ =
      if enabled ∧ ∃ call ∈ calls, call.Fileless then some ⟨enabled, true, .active⟩
      else some ⟨enabled, false, .notInitialized⟩ := by
  induction calls with
  | nil => simp
  | cons call calls ih =>
      have hstarts : Starts ⟨enabled, false, .notInitialized⟩ call ↔
          enabled ∧ call.Fileless := by
        simp [Starts, MpiStatus.flag]
      rw [List.map_cons, List.foldlM_cons, step]
      by_cases h : Starts ⟨enabled, false, .notInitialized⟩ call
      · obtain ⟨henabled, hfileless⟩ := hstarts.mp h
        rw [if_pos h, if_neg nofun, if_pos ⟨henabled, call, List.mem_cons_self, hfileless⟩]
        exact run_active calls
      · rw [if_neg h]
        refine ih.trans ?_
        have hsame : (enabled ∧ ∃ call' ∈ call :: calls, call'.Fileless) ↔
            (enabled ∧ ∃ call' ∈ calls, call'.Fileless) := by
          simp only [List.exists_mem_cons_iff]
          have hnot := mt hstarts.mpr h
          tauto
        simp only [hsame]

/-- After `MPI_Finalize`, no call may start the aggregate API. -/
theorem run_finalized (calls : List Call) :
    ((calls.map .call).foldlM (step patched) ⟨enabled, started, .finalized⟩).isSome ↔
      ∀ call ∈ calls, ¬ (enabled ∧ call.Fileless) ∧ (call.IsRead → started) := by
  induction calls with
  | nil => simp
  | cons call calls ih =>
      have hstarts : ¬ Starts ⟨enabled, started, .finalized⟩ call ↔
          ¬ (enabled ∧ call.Fileless) ∧ (call.IsRead → started) := by
        cases started <;> simp [Starts, MpiStatus.flag]
      rw [List.map_cons, List.foldlM_cons, step, List.forall_mem_cons, ← hstarts]
      by_cases h : Starts ⟨enabled, started, .finalized⟩ call
      · rw [if_pos h, if_pos rfl]
        simp [h]
      · rw [if_neg h]
        simpa [h] using ih

/-- From the time that MPI is up to the end of the process. -/
theorem run_isSome_iff (during after : List Call) :
    ((eventsBehindInit during after).foldlM (step patched)
        ⟨enabled, started, .active⟩).isSome ↔
      ∀ call ∈ after, ¬ (enabled ∧ call.Fileless) ∧ (call.IsRead →
        started ∨ ∃ call ∈ during, enabled ∧ call.Fileless ∨ call.IsRead) := by
  have hfinalize : ∀ started, step patched ⟨enabled, started, .active⟩ .mpiFinalize =
      some ⟨enabled, started, .finalized⟩ := fun _ => rfl
  rw [eventsBehindInit, List.foldlM_append, run_active, Option.bind_eq_bind, Option.bind_some,
    List.foldlM_cons, hfinalize, Option.bind_eq_bind, Option.bind_some, run_finalized]
  simp only [Bool.or_eq_true, decide_eq_true_eq]

end MpiUsage

/-- **The plugin and its application keep to MPI**, whatever is called before, during and after the
time in which the application has it up, exactly when no enumeration brings MPI up before an
`MPI_Init` that is not patched, none asks the aggregate API after `MPI_Finalize`, and no read is the
first to see MPI then. -/
theorem mpiUsage_iff (patched : Bool) (c : Context)
    (ucxCountersCollectEnable nicCountersCollectEnable : ℤ) (nicCountersInitialized : Bool)
    (handle : List RawCounter) (before during after : List Call) :
    ((applicationEvents before during after).foldlM (MpiProcess.step patched c)
        ⟨.init ucxCountersCollectEnable nicCountersCollectEnable nicCountersInitialized handle,
          .notInitialized⟩).isSome ↔
      (ucxCountersCollectEnable ≠ 0 → (∃ call ∈ before, call.Fileless) → patched) ∧
        (ucxCountersCollectEnable ≠ 0 → ∀ call ∈ after, ¬ call.Fileless) ∧
        ((∃ call ∈ after, call.IsRead) → (∃ call ∈ during, call.IsRead) ∨
          ucxCountersCollectEnable ≠ 0 ∧ ∃ call ∈ before ++ during, call.Fileless) := by
  have husage : MpiProcess.usage ⟨.init ucxCountersCollectEnable nicCountersCollectEnable
      nicCountersInitialized handle, .notInitialized⟩ =
      ⟨ucxCountersCollectEnable ≠ 0, false, .notInitialized⟩ := rfl
  rw [← Option.isSome_map, Run.foldlM_view MpiProcess.usage (MpiUsage.step patched)
    (usage_step patched c), husage, applicationEvents, List.foldlM_append,
    MpiUsage.run_notInitialized]
  by_cases hbefore : ucxCountersCollectEnable ≠ 0 ∧ ∃ call ∈ before, call.Fileless
  · -- The enumeration has brought MPI up, so that `MPI_Init` is the second one.
    obtain ⟨henabled, hfileless⟩ := hbefore
    rw [if_pos ⟨decide_eq_true henabled, hfileless⟩, Option.bind_eq_bind, Option.bind_some,
      List.foldlM_cons]
    cases patched with
    | false =>
        have hinit : MpiUsage.step false ⟨ucxCountersCollectEnable ≠ 0, true, .active⟩ .mpiInit =
            none := rfl
        rw [hinit]
        simp [henabled, hfileless]
    | true =>
        have hinit : MpiUsage.step true ⟨ucxCountersCollectEnable ≠ 0, true, .active⟩ .mpiInit =
            some ⟨ucxCountersCollectEnable ≠ 0, true, .active⟩ := rfl
        rw [hinit, Option.bind_eq_bind, Option.bind_some, MpiUsage.run_isSome_iff]
        obtain ⟨call, hmem, hcall⟩ := hfileless
        have hnoticed : ∃ call ∈ before ++ during, call.Fileless :=
          ⟨call, List.mem_append_left _ hmem, hcall⟩
        simp only [henabled, hnoticed, ne_eq, not_false_eq_true, decide_true, true_and, true_or,
          implies_true, and_true, true_imp_iff, or_true]
  · have hinit : MpiUsage.step patched ⟨ucxCountersCollectEnable ≠ 0, false, .notInitialized⟩
        .mpiInit = some ⟨ucxCountersCollectEnable ≠ 0, false, .active⟩ := rfl
    have hnot : ¬ (decide (ucxCountersCollectEnable ≠ 0) = true ∧
        ∃ call ∈ before, call.Fileless) := by
      rwa [decide_eq_true_eq]
    rw [if_neg hnot, Option.bind_eq_bind, Option.bind_some, List.foldlM_cons, hinit,
      Option.bind_eq_bind, Option.bind_some, MpiUsage.run_isSome_iff]
    have hnoticed : (∃ call ∈ during, decide (ucxCountersCollectEnable ≠ 0) = true ∧
          call.Fileless ∨ call.IsRead) ↔ (∃ call ∈ during, call.IsRead) ∨
        ucxCountersCollectEnable ≠ 0 ∧ ∃ call ∈ before ++ during, call.Fileless := by
      simp only [decide_eq_true_eq, List.mem_append, and_or_left, or_and_right, exists_or]
      grind
    simp only [Bool.false_eq_true, false_or, hnoticed]
    constructor
    · intro h
      refine ⟨fun henabled hfileless => absurd ⟨henabled, hfileless⟩ hbefore, ?_, ?_⟩
      · intro henabled call hmem hfileless
        exact (h call hmem).1 ⟨decide_eq_true henabled, hfileless⟩
      · rintro ⟨call, hmem, hread⟩
        exact (h call hmem).2 hread
    · rintro ⟨_, hasks, hread⟩ call hmem
      refine ⟨fun h => hasks (of_decide_eq_true h.1) call hmem h.2, ?_⟩
      exact fun hcall => hread ⟨call, hmem, hcall⟩

end ScorepPluginUcx
