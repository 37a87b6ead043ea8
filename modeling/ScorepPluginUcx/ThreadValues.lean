import ScorepPluginUcx.ThreadSession

/-!
# What the other threads see

Only the thread that registers first has the numbers that its metrics have in the enumeration,
and only its first metric asks UCX. The other threads get numbers behind the first ones, and
answers that are as old as the last read of the first metric.

## Main results

* `lateThread_reads_zero`: a thread whose numbers are beyond the counters of UCX.
* `readers_get_stale`: reads between two reads of the first metric.
-/

namespace ScorepPluginUcx

universe u
variable {ι : Type u} [DecidableEq ι]

/-! ## Late threads -/

/-- UCX answers with so many counters as `P` says. -/
def ThreadEvent.Answers (P : ℕ → Prop) : ThreadEvent ι → Prop
  | getMetricProperties e _ => P e.aggregateAtInit.size
  | addMetric _ _ => True
  | getCurrentValue _ _ e => P e.aggregateAtInit.size ∧ P e.aggregateAtRead.size

omit [DecidableEq ι] in
theorem size_answerAtRead {P : ℕ → Prop} {held : Option AggregateResult} {e : Environment}
    (hheld : ∀ r ∈ held, P r.size) (hinit : P e.aggregateAtInit.size) :
    ∀ r ∈ answerAtRead held e, P r.size := by
  intro r hr
  cases held with
  | some a => exact hheld r hr
  | none =>
      rw [answerAtRead, Option.mem_def, Option.ite_none_right_eq_some] at hr
      have heq := Option.some.inj hr.2
      subst heq
      exact hinit

/-- The answer that is held is one that has been asked for. -/
theorem size_held_sampler (x : Setup) {P : ℕ → Prop} {events : List (ThreadEvent ι)}
    (hevents : ∀ event ∈ events, event.Answers P) :
    ∀ r ∈ (x.sampler events).held, P r.size := by
  apply Run.final_invariant fun t : Sampler ι => ∀ r ∈ t.held, P r.size
  · intro t event hevent h r hr
    have hwithin := hevents event hevent
    cases event with
    | getMetricProperties e metricName =>
        simp only [Sampler.step, answerAfter] at hr
        split at hr
        · have heq := Option.some.inj hr
          subst heq
          exact hwithin
        · exact h r hr
    | addMetric i label => exact h r hr
    | getCurrentValue i k e =>
        cases hn : t.number i k with
        | none =>
            simp only [Sampler.step, hn] at hr
            exact h r hr
        | some number =>
            simp only [Sampler.step, hn, Option.mem_map] at hr
            obtain ⟨a, ha, rfl⟩ := hr
            have hread := size_answerAtRead h hwithin.1 a ha
            split
            · exact hwithin.2
            · exact hread
  · simp

/-- A read beyond the answer yields 0. -/
theorem Sampler.value_eq_zero {t : Sampler ι} {i : ι} {k n : ℕ} {e : Environment}
    (hn : t.number i k = some n) (hread : ∀ r ∈ answerAtRead t.held e, r.size ≤ n)
    (hlive : e.aggregateAtRead.size ≤ n) : t.value i k e = some 0 := by
  rw [value, hn, Option.map_some]
  cases hheld : answerAtRead t.held e with
  | none => rfl
  | some r =>
      have hsize : r.size ≤ n := hread r hheld
      have hno : ¬ (n = 0 ∧ r.size ≠ 0 ∧ e.aggregateAtRead.size ≠ 0) := by omega
      simp only [isFirst_iff hn, if_neg hno, AggregateResult.entry_of_size_le hsize]

/-- **A late thread reads zeros**: when other threads have registered as many metrics as UCX ever
has counters, a thread that begins to register then reads 0 from all its metrics, whatever else
happens in the process. -/
theorem lateThread_reads_zero (x : Setup) (hbuild : x.context.nicCountersEnable = false)
    {before after : List (ThreadEvent ι)} {i : ι} {k : ℕ} {e : Environment}
    (hlate : i ∉ registrations before)
    (hucx : ∀ event ∈ before ++ after, event.IsUcx)
    (hshort : (registrations (before ++ after)).length ≤ 2 ^ 31)
    (hevents : ∀ event ∈ before ++ after ++ [.getCurrentValue i k e],
      event.Answers (· ≤ (registrations before).length)) :
    ∀ v ∈ (x.process (before ++ after)).value x.context i k e, v = some 0 := by
  intro v hv
  have hdraws := x.draws_sampler (before ++ after)
  obtain ⟨n, w, hn, hw, rfl⟩ :=
    (x.follows hucx hshort).exists_number hbuild (by rw [hdraws]; exact hshort) hv
  have hle : (registrations before).length ≤ n := by
    have hmem := List.mem_of_getElem? hn
    rw [hdraws, registrations_append] at hmem
    exact Tickets.length_le_of_mem_tickets hlate hmem
  have hlast : (ThreadEvent.getCurrentValue i k e).Answers (· ≤ (registrations before).length) :=
    hevents _ (by simp)
  have hheld := size_held_sampler x fun event hevent =>
    hevents event (List.mem_append_left _ hevent)
  have hread : ∀ r ∈ answerAtRead (x.sampler (before ++ after)).held e, r.size ≤ n := by
    intro r hr
    have hsize := size_answerAtRead (P := (· ≤ (registrations before).length)) hheld hlast.1 r hr
    exact Nat.le_trans hsize hle
  rw [Sampler.value_eq_zero hn hread (Nat.le_trans hlast.2 hle)] at hw
  exact congrArg some (Option.some.inj hw).symm

/-- Of two counters a second thread sees neither when the first has registered both. -/
theorem lateThread_reads_zero_two :
    (ucxSetup.process ([registersTx true, registersTx true] ++ [registersTx false])).value
      ucxSetup.context false 0 twoCountersUp = some (some 0) := by
  have hlate : false ∉ registrations [registersTx true, registersTx true] := by decide
  have hucx : ∀ event ∈ [registersTx true, registersTx true] ++ [registersTx false],
      event.IsUcx := by
    simp [isUcx_registersTx]
  have hevents : ∀ event ∈ [registersTx true, registersTx true] ++ [registersTx false] ++
      [.getCurrentValue false 0 twoCountersUp], event.Answers
        (· ≤ (registrations [registersTx true, registersTx true]).length) := by
    simp only [List.forall_mem_append, List.forall_mem_singleton, List.forall_mem_cons]
    exact ⟨⟨⟨trivial, trivial⟩, trivial⟩, Nat.le_refl 2, Nat.le_refl 2⟩
  obtain ⟨v, hv⟩ : ∃ v, (ucxSetup.process ([registersTx true, registersTx true] ++
      [registersTx false])).value ucxSetup.context false 0 twoCountersUp = some v := ⟨_, rfl⟩
  rw [hv, lateThread_reads_zero ucxSetup rfl hlate hucx (by decide) hevents v hv]

/-! ## Reads between two samples -/

/-- Nothing is enumerated and the first metric, one of the thread `first`, is not read. -/
def ThreadEvent.LeavesAnswer (first : ι) : ThreadEvent ι → Prop
  | getMetricProperties _ _ => False
  | addMetric _ _ => True
  | getCurrentValue i k _ => ¬ (i = first ∧ k = 0)

namespace Sampler

variable {t : Sampler ι} {first i : ι} {k n : ℕ} {r : AggregateResult}

omit [DecidableEq ι] in
theorem not_isFirst (hfirst : t.draws.head? = some first) (hother : ¬ (i = first ∧ k = 0)) :
    ¬ t.IsFirst i k := by
  rintro ⟨hhead, hk⟩
  exact hother ⟨Option.some.inj (hhead.symm.trans hfirst), hk⟩

/-- The answer stays. -/
theorem held_final (enabled : Bool) (hfirst : t.draws.head? = some first)
    (hheld : t.held = some r) {events : List (ThreadEvent ι)}
    (hquiet : ∀ event ∈ events, event.LeavesAnswer first) :
    (Run.final (step enabled) t events).held = some r := by
  refine (Run.final_invariant (fun t : Sampler ι => t.draws.head? = some first ∧ t.held = some r)
    ?_ ⟨hfirst, hheld⟩).2
  rintro t event hevent ⟨hfirst, hheld⟩
  have hleaves := hquiet event hevent
  refine ⟨by rw [draws_step, List.head?_append, hfirst, Option.some_or], ?_⟩
  cases event with
  | getMetricProperties e metricName => exact absurd hleaves id
  | addMetric i label => exact hheld
  | getCurrentValue i k e =>
      have hno : ¬ (t.IsFirst i k ∧ r.size ≠ 0) := fun h => not_isFirst hfirst hleaves h.1
      rw [step]
      cases t.number i k with
      | none => exact hheld
      | some n => simp only [hheld, answerAtRead, Option.map_some, if_neg hno]

/-- The value of any other metric, from the answer that is held. -/
theorem value_of_held (hheld : t.held = some r) (hn : t.number i k = some n)
    (hother : ¬ t.IsFirst i k) (e : Environment) : t.value i k e = some (r.entry n) := by
  have hno : ¬ (t.IsFirst i k ∧ r.size ≠ 0 ∧ e.aggregateAtRead.size ≠ 0) := fun h => hother h.1
  simp only [value, hn, hheld, answerAtRead, Option.map_some, if_neg hno]

end Sampler

/-- The same UCX later. -/
def countedOn : Environment :=
  { twoCountersUp with aggregateAtRead := ⟨[9, 10], by decide⟩ }

/-- **Reads between two samples**: as long as nothing is enumerated and the metric that was
registered first is not read, every other metric keeps its value, whatever UCX counts meanwhile
and whatever the threads do. -/
theorem readers_get_stale (x : Setup) (hbuild : x.context.nicCountersEnable = false)
    {before after : List (ThreadEvent ι)} {first i : ι} {k : ℕ} {e₀ e : Environment}
    (hfirst : (registrations before).head? = some first)
    (hucx : ∀ event ∈ before ++ after, event.IsUcx)
    (hshort : (registrations (before ++ after)).length ≤ 2 ^ 31)
    (hup : (x.process before).plugin.mpiTInitialized = true)
    (hquiet : ∀ event ∈ after ++ [.getCurrentValue i k e], event.LeavesAnswer first) :
    ∀ v ∈ (x.process before).value x.context i k e₀,
      (x.process (before ++ after)).value x.context i k e = some v := by
  intro v hv
  have hother : ¬ (i = first ∧ k = 0) := hquiet (.getCurrentValue i k e) (by simp)
  have hshort₀ : (registrations before).length ≤ 2 ^ 31 := by
    rw [registrations_append, List.length_append] at hshort
    exact Nat.le_of_add_right_le hshort
  have hfollows₀ := x.follows (fun y hy => hucx y (List.mem_append_left _ hy)) hshort₀
  have hdraws₀ := x.draws_sampler before
  have hdraws := x.draws_sampler (before ++ after)
  -- What the metric yields before: an entry of the answer that is held.
  obtain ⟨n, w, hn, hw, rfl⟩ :=
    hfollows₀.exists_number hbuild (by rw [hdraws₀]; exact hshort₀) hv
  obtain ⟨r, hheld⟩ : ∃ r, (x.sampler before).held = some r := by
    have hsome := hfollows₀.tracks.1.isSome
    exact Option.isSome_iff_exists.mp (hsome.symm.trans hup)
  rw [← hdraws₀] at hfirst
  rw [Sampler.value_of_held hheld hn (Sampler.not_isFirst hfirst hother)] at hw
  have heq := Option.some.inj hw
  subst heq
  -- The answer and the number stay.
  have hheld' : (x.sampler (before ++ after)).held = some r := by
    rw [Setup.sampler, Run.final_append]
    exact Sampler.held_final _ hfirst hheld fun event hevent =>
      hquiet event (List.mem_append_left _ hevent)
  have hmore : (x.sampler (before ++ after)).draws =
      (x.sampler before).draws ++ registrations after := by
    rw [hdraws, hdraws₀, registrations_append]
  have hn' : (x.sampler (before ++ after)).number i k = some n := by
    rw [Sampler.number, hmore]
    exact Tickets.getElem?_tickets_append hn _
  have hfirst' : (x.sampler (before ++ after)).draws.head? = some first := by
    rw [hmore, List.head?_append, hfirst, Option.some_or]
  have hvalue := (x.follows hucx hshort).value_eq hbuild (by rw [hdraws]; exact hshort) i k e
  rw [Sampler.value_of_held hheld' hn' (Sampler.not_isFirst hfirst' hother)] at hvalue
  exact hvalue

/-- The value of the second thread's metric, before and after UCX has counted on. -/
theorem readers_get_stale_two :
    (ucxSetup.process ([registersTx true, registersTx false,
        .getCurrentValue true 0 twoCountersUp] ++ [registersTx false])).value ucxSetup.context
      false 0 countedOn = some (some 8) := by
  have hucx : ∀ event ∈ [registersTx true, registersTx false,
      .getCurrentValue true 0 twoCountersUp] ++ [registersTx false], event.IsUcx := by
    simp [isUcx_registersTx]
  have hquiet : ∀ event ∈ [registersTx false] ++ [.getCurrentValue false 0 countedOn],
      event.LeavesAnswer true := by
    simp only [List.forall_mem_append, List.forall_mem_singleton]
    exact ⟨trivial, by simp [ThreadEvent.LeavesAnswer]⟩
  have hv : some 8 ∈ (ucxSetup.process [registersTx true, registersTx false,
      .getCurrentValue true 0 twoCountersUp]).value ucxSetup.context false 0 twoCountersUp := rfl
  exact readers_get_stale ucxSetup rfl rfl hucx (by decide) rfl hquiet (some 8) hv

end ScorepPluginUcx
