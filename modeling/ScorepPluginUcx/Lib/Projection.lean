import ScorepPluginUcx.Lib.Run

/-!
# Runs that a smaller machine follows

A machine with much state often contains a smaller one that takes part in some of the events
only. `view` is the state of the smaller machine, `proj` what it sees of an event, if anything;
what it does not see must leave its state alone. Then the whole run looks to it like a run of
its own, over the events that it has seen.

## Main definitions

* `seen`: the events of a run, as the smaller machine sees them.
* `Projects`: the condition on one step.
-/

namespace Run

universe u v w x
variable {σ : Type u} {τ : Type v} {ε : Type w} {α : Type x}

/-- What the smaller machine sees of a run. -/
def seen (step : σ → ε → σ) (proj : σ → ε → Option α) (s : σ) (es : List ε) : List α :=
  (trace step s es).filterMap fun x => proj x.1 x.2

variable {step : σ → ε → σ} {proj : σ → ε → Option α} {step' : τ → α → τ} {view : σ → τ}
  {Inv : σ → Prop} {s : σ}

@[simp] theorem seen_nil : seen step proj s [] = [] := rfl

theorem seen_cons (e : ε) (es : List ε) :
    seen step proj s (e :: es) = (proj s e).toList ++ seen step proj (step s e) es := by
  rw [seen, trace_cons, List.filterMap_cons, seen]
  cases proj s e <;> rfl

theorem seen_append (es fs : List ε) :
    seen step proj s (es ++ fs) = seen step proj s es ++ seen step proj (final step s es) fs := by
  induction es generalizing s with
  | nil => rfl
  | cons e es ih => rw [List.cons_append, seen_cons, seen_cons, ih, List.append_assoc, final_cons]

/-- When what is seen of an event does not depend on the state, the run does not matter. -/
theorem seen_eq_filterMap (proj : ε → Option α) (es : List ε) :
    seen step (fun _ => proj) s es = es.filterMap proj := by
  induction es generalizing s with
  | nil => rfl
  | cons e es ih =>
      rw [seen_cons, ih, List.filterMap_cons]
      cases proj e <;> rfl

/-- The view takes the steps that are seen and no other. -/
structure Projects (step : σ → ε → σ) (step' : τ → α → τ) (view : σ → τ)
    (proj : σ → ε → Option α) (Inv : σ → Prop) : Prop where
  keeps : ∀ s e, Inv s → Inv (step s e)
  view_step : ∀ s e, Inv s → view (step s e) = (proj s e).elim (view s) (step' (view s))

namespace Projects

/-- **The end of a run**: the smaller machine is where its own run leads to. -/
theorem final_seen (h : Projects step step' view proj Inv) (h0 : Inv s) (es : List ε) :
    final step' (view s) (seen step proj s es) = view (final step s es) := by
  induction es generalizing s with
  | nil => rfl
  | cons e es ih =>
      rw [final_cons, ← ih (h.keeps s e h0), h.view_step s e h0, seen_cons, final_append]
      cases proj s e <;> rfl

/-- **Along a run**: every event that is seen finds the smaller machine where its own run is. -/
theorem trace_seen (h : Projects step step' view proj Inv) (h0 : Inv s) (es : List ε) :
    trace step' (view s) (seen step proj s es) =
      (trace step s es).filterMap fun x => (proj x.1 x.2).map (Prod.mk (view x.1)) := by
  induction es generalizing s with
  | nil => rfl
  | cons e es ih =>
      have hrest := ih (h.keeps s e h0)
      rw [h.view_step s e h0] at hrest
      rw [seen_cons, trace_cons, List.filterMap_cons]
      cases hproj : proj s e with
      | none => simpa [hproj] using hrest
      | some a => simpa [hproj] using hrest

end Projects

end Run
