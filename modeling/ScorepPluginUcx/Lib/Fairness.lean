import ScorepPluginUcx.Lib.Run
import Mathlib.Order.WellFounded

/-!
# Runs under a fair schedule

Several parties take steps, in the order of a schedule that comes back to every party again and
again. A step changes nothing or makes a measure of what is left smaller. When somebody can go
on as long as the run is not done, it is done at some time.

## Main results

* `exists_still`: from some time on nothing changes any more.
* `exists_done`: a fair run is done at some time.
-/

namespace Fairness

universe u v
variable {σ : Type u} {ι : Type v} {step : σ → ι → σ} {Inv : σ → Prop} {s : σ}

/-- The first `n` steps of an infinite schedule. -/
def firstSteps (schedule : ℕ → ι) (n : ℕ) : List ι := (List.range n).map schedule

theorem final_firstSteps_succ (schedule : ℕ → ι) (n : ℕ) :
    Run.final step s (firstSteps schedule (n + 1)) =
      step (Run.final step s (firstSteps schedule n)) (schedule n) := by
  rw [firstSteps, List.range_succ, List.map_append, Run.final_append]
  rfl

/-- **Rest**: a measure that every change makes smaller comes to an end. -/
theorem exists_still (work : σ → ℕ) (hkeeps : ∀ s i, Inv s → Inv (step s i))
    (hwork : ∀ s i, Inv s → step s i = s ∨ work (step s i) < work s) (h0 : Inv s)
    (schedule : ℕ → ι) :
    ∃ n, ∀ m, n ≤ m → Run.final step s (firstSteps schedule m) =
      Run.final step s (firstSteps schedule n) := by
  let state := fun n => Run.final step s (firstSteps schedule n)
  have hinv : ∀ n, Inv (state n) :=
    fun n => Run.final_invariant Inv (fun s i _ => hkeeps s i) h0
  obtain ⟨n, -, hmin⟩ := (measure fun n => work (state n)).wf.has_min Set.univ ⟨0, trivial⟩
  refine ⟨n, ?_⟩
  intro m hm
  induction m, hm using Nat.le_induction with
  | base => rfl
  | succ m hm ih =>
      have hnot : ¬ work (state (m + 1)) < work (state n) := hmin (m + 1) trivial
      rcases hwork (state m) (schedule m) (hinv m) with hsame | hlt
      · exact (final_firstSteps_succ schedule m).trans (hsame.trans ih)
      · refine absurd ?_ hnot
        have hstate : state m = state n := ih
        rw [← hstate]
        exact (congrArg work (final_firstSteps_succ schedule m)).trans_lt hlt

/-- **Termination**: a run that comes back to every party again and again is done at some
time, when somebody can go on as long as it is not. -/
theorem exists_done (work : σ → ℕ) (Done : σ → Prop) (hkeeps : ∀ s i, Inv s → Inv (step s i))
    (hwork : ∀ s i, Inv s → step s i = s ∨ work (step s i) < work s)
    (hprogress : ∀ s, Inv s → ¬ Done s → ∃ i, step s i ≠ s) (h0 : Inv s) (schedule : ℕ → ι)
    (hfair : ∀ i n, ∃ m, n ≤ m ∧ schedule m = i) :
    ∃ n, Done (Run.final step s (firstSteps schedule n)) := by
  obtain ⟨n, hstill⟩ := exists_still work hkeeps hwork h0 schedule
  refine ⟨n, ?_⟩
  by_contra hdone
  have hinv : Inv (Run.final step s (firstSteps schedule n)) :=
    Run.final_invariant Inv (fun s i _ => hkeeps s i) h0
  obtain ⟨i, hi⟩ := hprogress _ hinv hdone
  obtain ⟨m, hm, rfl⟩ := hfair i n
  have hnext : Run.final step s (firstSteps schedule (m + 1)) =
      step (Run.final step s (firstSteps schedule m)) (schedule m) :=
    final_firstSteps_succ schedule m
  rw [hstill m hm, hstill (m + 1) (by omega)] at hnext
  exact hi hnext.symm

end Fairness
