import Mathlib.Data.List.Basic

/-!
# Runs of a deterministic machine

A machine is a step function. A run feeds it a list of events; `trace` keeps every
event with the state that it finds, so that a property of a whole run is a property
of the members of its trace. The rules below are the ones a proof about runs goes
through: an invariant, a simulation of one machine by another, a view as the functional
case of one, and the last step of a run.

## Main definitions

* `final step s es`: the state after the events `es`.
* `trace step s es`: the events of the run, each with the state before it.
-/

namespace Run

universe u v w
variable {σ : Type u} {τ : Type v} {ε : Type w}

/-- The state that a list of events leads to. -/
def final (step : σ → ε → σ) (s : σ) (es : List ε) : σ := es.foldl step s

/-- Every event of a run together with the state that it finds. -/
def trace (step : σ → ε → σ) : σ → List ε → List (σ × ε)
  | _, [] => []
  | s, e :: es => (s, e) :: trace step (step s e) es

variable (step : σ → ε → σ)

@[simp] theorem final_nil (s : σ) : final step s [] = s := rfl
@[simp] theorem final_cons (s : σ) (e : ε) (es : List ε) :
    final step s (e :: es) = final step (step s e) es := rfl
@[simp] theorem trace_nil (s : σ) : trace step s [] = [] := rfl
@[simp] theorem trace_cons (s : σ) (e : ε) (es : List ε) :
    trace step s (e :: es) = (s, e) :: trace step (step s e) es := rfl

theorem final_append (s : σ) (es fs : List ε) :
    final step s (es ++ fs) = final step (final step s es) fs := by
  simp [final, List.foldl_append]

/-- Events that stand for events of another kind. -/
theorem final_map (f : τ → ε) (s : σ) (es : List τ) :
    final step s (es.map f) = final (fun s e => step s (f e)) s es := by
  rw [final, final, List.foldl_map]

theorem trace_map (f : τ → ε) (s : σ) (es : List τ) :
    trace step s (es.map f) = (trace (fun s e => step s (f e)) s es).map (Prod.map id f) := by
  induction es generalizing s with
  | nil => rfl
  | cons e es ih => rw [List.map_cons, trace_cons, ih, trace_cons, List.map_cons]; rfl

variable {step}

/-- The events of a trace are those of the run. -/
theorem mem_of_mem_trace {s : σ} {es : List ε} {x : σ × ε} (h : x ∈ trace step s es) :
    x.2 ∈ es := by
  induction es generalizing s with
  | nil => simp at h
  | cons e es ih =>
      rcases List.mem_cons.mp h with rfl | h
      · exact List.mem_cons_self
      · exact List.mem_cons_of_mem e (ih h)

/-- **Invariants.** What every event of the run keeps holds at the end when it holds at the
start. -/
theorem final_invariant (Inv : σ → Prop) {es : List ε}
    (hstep : ∀ s, ∀ e ∈ es, Inv s → Inv (step s e)) {s : σ} (h0 : Inv s) :
    Inv (final step s es) := by
  induction es generalizing s with
  | nil => exact h0
  | cons e es ih =>
      have hes : ∀ s, ∀ f ∈ es, Inv s → Inv (step s f) := by
        intro s f hf
        exact hstep s f (List.mem_cons_of_mem e hf)
      exact ih hes (hstep s e List.mem_cons_self h0)

/-- An invariant holds whenever an event comes. -/
theorem trace_invariant (Inv : σ → Prop) (hstep : ∀ s e, Inv s → Inv (step s e)) {s : σ}
    (h0 : Inv s) (es : List ε) : ∀ x ∈ trace step s es, Inv x.1 := by
  induction es generalizing s with
  | nil => simp
  | cons e es ih =>
      rw [trace_cons, List.forall_mem_cons]
      exact ⟨h0, ih (hstep s e h0)⟩

/-- An invariant that is kept as long as a property of the events holds. -/
theorem trace_invariant_of_holds (Inv : σ → Prop) {P : σ × ε → Prop}
    (hstep : ∀ s e, Inv s → P (s, e) → Inv (step s e)) {s : σ} (h0 : Inv s) {es : List ε}
    (hP : ∀ x ∈ trace step s es, P x) : ∀ x ∈ trace step s es, Inv x.1 := by
  induction es generalizing s with
  | nil => simp
  | cons e es ih =>
      rw [trace_cons, List.forall_mem_cons] at hP ⊢
      exact ⟨h0, ih (hstep s e h0 hP.1) hP.2⟩

/-- What the events of a run keep between two machines holds at the end. -/
theorem final_related_of_mem {step' : τ → ε → τ} (R : σ → τ → Prop) {es : List ε}
    (hstep : ∀ s t, ∀ e ∈ es, R s t → R (step s e) (step' t e)) {s : σ} {t : τ} (h0 : R s t) :
    R (final step s es) (final step' t es) := by
  induction es generalizing s t with
  | nil => exact h0
  | cons e es ih =>
      have hes : ∀ s t, ∀ f ∈ es, R s t → R (step s f) (step' t f) := by
        intro s t f hf
        exact hstep s t f (List.mem_cons_of_mem e hf)
      exact ih hes (hstep s t e List.mem_cons_self h0)

/-- **Simulation.** When the steps of two machines keep a relation, their runs keep it. -/
theorem final_related {step' : τ → ε → τ} (R : σ → τ → Prop)
    (hstep : ∀ s t e, R s t → R (step s e) (step' t e)) {s : σ} {t : τ} (h0 : R s t)
    (es : List ε) : R (final step s es) (final step' t es) :=
  final_related_of_mem R (fun s t e _ => hstep s t e) h0

/-- When two machines keep a relation as long as a property of the events holds, and under the
relation another property says the same, the two properties hold along the same runs. -/
theorem trace_forall_iff_of_holds {step' : τ → ε → τ} (R : σ → τ → Prop) {P : σ × ε → Prop}
    {Q : τ × ε → Prop} (hstep : ∀ s t e, R s t → Q (t, e) → R (step s e) (step' t e))
    (hiff : ∀ s t e, R s t → (P (s, e) ↔ Q (t, e))) {s : σ} {t : τ} (h0 : R s t)
    (es : List ε) : (∀ x ∈ trace step s es, P x) ↔ ∀ y ∈ trace step' t es, Q y := by
  induction es generalizing s t with
  | nil => simp
  | cons e es ih =>
      simp only [trace_cons, List.forall_mem_cons]
      rw [hiff s t e h0]
      exact and_congr_right fun hQ => ih (hstep s t e h0 hQ)

/-- When the steps of two machines keep a relation, under which one property of an event
says the same as another, the two properties hold along the same runs. -/
theorem trace_forall_iff {step' : τ → ε → τ} (R : σ → τ → Prop)
    (hstep : ∀ s t e, R s t → R (step s e) (step' t e)) {P : σ × ε → Prop} {Q : τ × ε → Prop}
    (hiff : ∀ s t e, R s t → (P (s, e) ↔ Q (t, e))) {s : σ} {t : τ} (h0 : R s t)
    (es : List ε) : (∀ x ∈ trace step s es, P x) ↔ ∀ y ∈ trace step' t es, Q y :=
  trace_forall_iff_of_holds R (fun s t e h _ => hstep s t e h) hiff h0 es

/-- **Views.** When `view` commutes with the steps, it commutes with the runs. -/
theorem final_view (view : σ → τ) (step' : τ → ε → τ)
    (hview : ∀ s e, view (step s e) = step' (view s) e) (s : σ) (es : List ε) :
    final step' (view s) es = view (final step s es) := by
  have hstep : ∀ s t e, t = view s → step' t e = view (step s e) := by
    intro s t e ht
    rw [ht, hview]
  exact final_related (fun s t => t = view s) hstep rfl es

/-- Views of a machine that may stop. -/
theorem foldlM_view {step : σ → ε → Option σ} (view : σ → τ) (step' : τ → ε → Option τ)
    (hview : ∀ s e, (step s e).map view = step' (view s) e) (s : σ) (es : List ε) :
    (es.foldlM step s).map view = es.foldlM step' (view s) := by
  induction es generalizing s with
  | nil => rfl
  | cons e es ih =>
      rw [List.foldlM_cons, List.foldlM_cons, ← hview]
      cases step s e with
      | none => rfl
      | some s' => exact ih s'

end Run
