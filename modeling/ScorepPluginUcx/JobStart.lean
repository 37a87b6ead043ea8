import Mathlib.Algebra.Order.BigOperators.Group.Finset
import Mathlib.Logic.Function.Basic
import ScorepPluginUcx.Lib.Fairness
import ScorepPluginUcx.NamesCache

/-!
# The start of a job

The ranks of a job enumerate a UCX metric before MPI is up, with UCX collection enabled. A rank
that finds no names file goes through `PMPI_Init`, and only then rank 0 begins to write the file;
an append that does not open it is lost. What `PMPI_Init` does is not part of the plugin:
`returns` says when it lets a rank go on, given where the ranks are, and the results assume of it
that it gathers the ranks.

## Main results

* `jobStart_alone`: a rank that runs undisturbed does what `get_metric_properties` does.
* `jobStart_agrees`: what the ranks return and what is in the file, in every run of a job.
* `jobStart_finishes`: every rank returns, under a fair schedule.
* `jobs_agree`: jobs that follow each other return the same.
-/

namespace ScorepPluginUcx

/-- Where a rank is in `get_metric_properties`. -/
inductive JobPhase
  /-- The file is still to be read. -/
  | start
  /-- There was no file, and the rank is in `PMPI_Init`. -/
  | initializing
  /-- `label`, which has the number `index`, is to be appended next. -/
  | writing (index : ℕ) (label : Name) (labels : List Name)
  /-- The call has returned. -/
  | returned (metricsNamesFileExists : Bool) (properties : List Name)
  deriving DecidableEq

/-- What the ranks find beside the names file: whether `PMPI_Init` returns to a rank, the labels
that the live path of a rank builds, and whether its `k`-th `fopen` for appending succeeds. -/
structure Ranks (n : ℕ) where
  returns : (Fin (n + 1) → JobPhase) → Fin (n + 1) → Bool
  labels : Fin (n + 1) → List Name
  appendOpens : Fin (n + 1) → ℕ → Bool

/-- The file, and the ranks of the job. -/
structure JobStart (n : ℕ) where
  namesFile : Option Name
  phase : Fin (n + 1) → JobPhase

namespace JobStart

variable {n : ℕ}

/-- Nobody has begun; `namesFile` is what earlier jobs have left. -/
def init (namesFile : Option Name) : JobStart n := ⟨namesFile, fun _ => .start⟩

/-- Where a rank is behind `PMPI_Init` with `rest` still to be appended, which begins with the
label number `index`. -/
def writePhase (labels : List Name) (index : ℕ) : List Name → JobPhase
  | [] => .returned false (labels.map metricProperty)
  | label :: rest => .writing index label rest

/-- What a rank has to append when it has found no file. -/
def toAppend (labels : List Name) (i : Fin (n + 1)) : List Name :=
  if i.val = 0 then labels else []

theorem length_toAppend_le (labels : List Name) (i : Fin (n + 1)) :
    (toAppend labels i).length ≤ labels.length := by
  rw [toAppend]
  split <;> simp

/-- One step of the rank `i`. -/
def step (ranks : Ranks n) (s : JobStart n) (i : Fin (n + 1)) : JobStart n :=
  match s.phase i with
  | .start =>
      match metricNameReadCountersListFromFile s.namesFile with
      | .ok (some countersList) =>
          { s with
            phase := Function.update s.phase i
              (.returned true (countersList.map metricProperty)) }
      | .ok none => { s with phase := Function.update s.phase i .initializing }
      | .error _ => s
  | .initializing =>
      if ranks.returns s.phase i then
        { s with
          phase := Function.update s.phase i
            (writePhase (ranks.labels i) 0 (toAppend (ranks.labels i) i)) }
      else s
  | .writing index label rest =>
      { namesFile := metricNameAddToFile (ranks.appendOpens i index) label s.namesFile
        phase := Function.update s.phase i (writePhase (ranks.labels i) (index + 1) rest) }
  | .returned _ _ => s

variable {ranks : Ranks n} {s : JobStart n} {i : Fin (n + 1)}

/-! ## One step, by the phase of the rank -/

section Step

variable {countersList properties rest : List Name} {found : Bool} {index : ℕ} {label : Name}

theorem step_of_found (hphase : s.phase i = .start)
    (hread : metricNameReadCountersListFromFile s.namesFile = .ok (some countersList)) :
    step ranks s i = ⟨s.namesFile, Function.update s.phase i
      (.returned true (countersList.map metricProperty))⟩ := by
  simp only [step, hphase, hread]

theorem step_of_noFile (hphase : s.phase i = .start) (hnone : s.namesFile = none) :
    step ranks s i = ⟨s.namesFile, Function.update s.phase i .initializing⟩ := by
  have hread : metricNameReadCountersListFromFile s.namesFile = .ok none := by
    rw [hnone]
    rfl
  simp only [step, hphase, hread]

theorem step_of_initializing (hphase : s.phase i = .initializing)
    (hreturns : ranks.returns s.phase i) :
    step ranks s i = ⟨s.namesFile, Function.update s.phase i
      (writePhase (ranks.labels i) 0 (toAppend (ranks.labels i) i))⟩ := by
  simp only [step, hphase, if_pos hreturns]

theorem step_of_writing (hphase : s.phase i = .writing index label rest) :
    step ranks s i = ⟨metricNameAddToFile (ranks.appendOpens i index) label s.namesFile,
      Function.update s.phase i (writePhase (ranks.labels i) (index + 1) rest)⟩ := by
  simp only [step, hphase]

theorem step_of_returned (hphase : s.phase i = .returned found properties) :
    step ranks s i = s := by
  simp only [step, hphase]

end Step

/-! ## A rank that runs undisturbed -/

/-- A call that has returned takes no further step. -/
theorem final_replicate_of_returned {found : Bool} {properties : List Name}
    (h : s.phase i = .returned found properties) (m : ℕ) :
    Run.final (step ranks) s (List.replicate m i) = s := by
  induction m with
  | zero => rfl
  | succ m ih => rw [List.replicate_succ, Run.final_cons, step_of_returned h, ih]

/-- A rank that finds a file. -/
theorem final_replicate_of_found {countersList : List Name} (hphase : s.phase i = .start)
    (hread : metricNameReadCountersListFromFile s.namesFile = .ok (some countersList)) (m : ℕ) :
    Run.final (step ranks) s (List.replicate (m + 1) i) = ⟨s.namesFile,
      Function.update s.phase i (.returned true (countersList.map metricProperty))⟩ := by
  rw [List.replicate_succ, Run.final_cons, step_of_found hphase hread]
  exact final_replicate_of_returned (Function.update_self _ _ _) m

variable (ranks) in
/-- The lines that the rank `i` gets into the file with the labels `done`. -/
def openedBy (i : Fin (n + 1)) (done : List Name) : List Name :=
  openedLabels (ranks.appendOpens i) 0 (done.map metricProperty)

/-- The appends of one rank, one after the other. -/
theorem final_replicate_of_writing {done rest : List Name}
    (hphase : s.phase i = writePhase (ranks.labels i) done.length rest)
    (hfile : s.namesFile = namesFileOf (openedBy ranks i done)) {m : ℕ} (hm : rest.length ≤ m) :
    (Run.final (step ranks) s (List.replicate m i)).namesFile =
        namesFileOf (openedBy ranks i (done ++ rest)) ∧
      (Run.final (step ranks) s (List.replicate m i)).phase i =
        .returned false ((ranks.labels i).map metricProperty) := by
  induction rest generalizing s done m with
  | nil =>
      rw [final_replicate_of_returned hphase, hfile, List.append_nil]
      exact ⟨rfl, hphase⟩
  | cons label rest ih =>
      obtain ⟨k, rfl⟩ : ∃ k, m = k + 1 := ⟨m - 1, by simp at hm; omega⟩
      have hstep : step ranks s i = _ := step_of_writing hphase
      have hphase' : (step ranks s i).phase i =
          writePhase (ranks.labels i) (done ++ [label]).length rest := by
        simp [hstep]
      have hfile' : (step ranks s i).namesFile =
          namesFileOf (openedBy ranks i (done ++ [label])) := by
        rw [hstep, hfile]
        exact metricNameAddToFile_openedLabels (ranks.appendOpens i) label done
      have hnext := ih hphase' hfile' (show rest.length ≤ k by simpa using hm)
      rw [List.append_assoc, List.singleton_append] at hnext
      rwa [List.replicate_succ, Run.final_cons]

/-- A rank that finds no file, and that `PMPI_Init` lets go on. -/
theorem final_replicate_of_noFile (hphase : s.phase i = .start) (hnone : s.namesFile = none)
    (hreturns : ranks.returns (Function.update s.phase i .initializing) i) {m : ℕ}
    (hm : (ranks.labels i).length ≤ m) :
    (Run.final (step ranks) s (List.replicate (m + 1 + 1) i)).namesFile =
        namesFileOf (openedBy ranks i (toAppend (ranks.labels i) i)) ∧
      (Run.final (step ranks) s (List.replicate (m + 1 + 1) i)).phase i =
        .returned false ((ranks.labels i).map metricProperty) := by
  have hinit : (step ranks s i).phase i = .initializing := by
    rw [step_of_noFile hphase hnone]
    exact Function.update_self _ _ _
  have hgo : ranks.returns (step ranks s i).phase i := by
    rw [step_of_noFile hphase hnone]
    exact hreturns
  have hwriting : (step ranks (step ranks s i) i).phase i =
      writePhase (ranks.labels i) ([] : List Name).length (toAppend (ranks.labels i) i) := by
    rw [step_of_initializing hinit hgo]
    exact Function.update_self _ _ _
  have hempty : (step ranks (step ranks s i) i).namesFile =
      namesFileOf (openedBy ranks i []) := by
    rw [step_of_initializing hinit hgo, step_of_noFile hphase hnone]
    exact hnone
  rw [List.replicate_succ, Run.final_cons, List.replicate_succ, Run.final_cons]
  exact final_replicate_of_writing hwriting hempty
    ((length_toAppend_le (ranks.labels i) i).trans hm)

/-- **The steps make up the call**: a rank that runs from its start without another in between,
and that `PMPI_Init` lets go on, returns what `get_metric_properties` returns and leaves the same
file, whichever of its appends fail. -/
theorem jobStart_alone {c : Context} {e : Environment} {metricName : Name} {p : Plugin}
    (hucx : isUcxMetric metricName) (hen : p.ucxCountersCollectEnable ≠ 0) {r : Enumeration}
    (hr : getMetricProperties c e metricName p = .ok r) (hrank : c.commRank = i.val)
    (hlabels : ranks.labels i = liveLabels e.counterNames metricName)
    (hopens : ranks.appendOpens i = e.appendOpens)
    (hreturns : ranks.returns (Function.update s.phase i .initializing) i)
    (hstart : s.phase i = .start) (hfile : s.namesFile = e.namesFile) {m : ℕ}
    (hm : e.counterNames.length + 2 ≤ m) :
    (Run.final (step ranks) s (List.replicate m i)).namesFile = r.namesFile ∧
      ∃ found, (Run.final (step ranks) s (List.replicate m i)).phase i =
        .returned found r.ucxProperties := by
  obtain ⟨k, rfl⟩ : ∃ k, m = k + 1 + 1 := ⟨m - 2, by omega⟩
  obtain ⟨found, hread, hproperties, hleaves⟩ := getMetricProperties_reads hucx hen hr
  rw [hproperties]
  cases found with
  | some countersList =>
      rw [← hfile] at hread
      rw [final_replicate_of_found hstart hread, hleaves]
      exact ⟨hfile, true, Function.update_self _ _ _⟩
  | none =>
      have hnone : s.namesFile = none := hfile.trans (metricNameRead_eq_none hread)
      have hlength : (ranks.labels i).length ≤ k := by
        rw [hlabels, liveLabels, List.length_map]
        omega
      have hwritten := final_replicate_of_noFile hstart hnone hreturns hlength
      rw [hwritten.1, hwritten.2, hleaves, hlabels]
      refine ⟨congrArg namesFileOf ?_, false, rfl⟩
      rw [writtenLabels, hproperties, toAppend, openedBy, hopens, Option.getD_none]
      by_cases hroot : i.val = 0
      · rw [if_pos hroot, if_pos (by rw [hrank, hroot]; rfl)]
      · rw [if_neg hroot, if_neg (by rw [hrank]; exact mod_cast hroot)]
        rfl

/-! ## A job without a file -/

/-- What the phase of a rank tells in a job that has found no file. -/
def PhaseOk (ranks : Ranks n) (i : Fin (n + 1)) : JobPhase → Prop
  | .start => True
  | .initializing => True
  | .writing _ _ _ => i.val = 0
  | .returned found properties =>
      found = false ∧ properties = (ranks.labels i).map metricProperty

/-- The file of such a job, by the phase of its writer `i`. -/
def FileOk (ranks : Ranks n) (i : Fin (n + 1)) (namesFile : Option Name) : JobPhase → Prop
  | .start => namesFile = none
  | .initializing => namesFile = none
  | .writing index label rest => ∃ done, done ++ label :: rest = ranks.labels i ∧
      done.length = index ∧ namesFile = namesFileOf (openedBy ranks i done)
  | .returned _ _ => namesFile = namesFileOf (openedBy ranks i (ranks.labels i))

/-- As long as a rank has not read the file, nobody is behind `PMPI_Init`; so nobody ever finds a
file, and only rank 0 writes. -/
structure Gathers (ranks : Ranks n) (s : JobStart n) : Prop where
  waits : ∀ j, s.phase j = .start → ∀ i, s.phase i = .start ∨ s.phase i = .initializing
  phase : ∀ i, PhaseOk ranks i (s.phase i)
  file : FileOk ranks 0 s.namesFile (s.phase 0)

theorem gathers_init : Gathers ranks (init none) where
  waits := fun _ _ _ => .inl rfl
  phase := fun _ => trivial
  file := rfl

/-- A rank that reads the file finds none. -/
theorem Gathers.namesFile_eq_none (h : Gathers ranks s) (hstart : s.phase i = .start) :
    s.namesFile = none := by
  have hfile := h.file
  rcases h.waits i hstart 0 with hroot | hroot <;>
    · rw [hroot] at hfile
      exact hfile

theorem writePhase_ne_start (labels rest : List Name) (index : ℕ) :
    writePhase labels index rest ≠ .start := by
  cases rest <;> simp [writePhase]

theorem phaseOk_writePhase {rest : List Name} (index : ℕ) (hroot : rest ≠ [] → i.val = 0) :
    PhaseOk ranks i (writePhase (ranks.labels i) index rest) := by
  cases rest with
  | nil => exact ⟨rfl, rfl⟩
  | cons label rest => exact hroot (List.cons_ne_nil label rest)

theorem fileOk_writePhase {done rest : List Name} (h : done ++ rest = ranks.labels i) :
    FileOk ranks i (namesFileOf (openedBy ranks i done))
      (writePhase (ranks.labels i) done.length rest) := by
  cases rest with
  | nil =>
      rw [List.append_nil] at h
      rw [h]
      rfl
  | cons label rest => exact ⟨done, h, rfl, rfl⟩

/-- A step of the rank `i` when nobody is at the start any more. -/
theorem Gathers.update (h : Gathers ranks s) (hstart : ∀ j, s.phase j ≠ .start)
    {namesFile : Option Name} {phase : JobPhase} (hne : phase ≠ .start)
    (hphase : PhaseOk ranks i phase) (hroot : i = 0 → FileOk ranks 0 namesFile phase)
    (hother : i ≠ 0 → namesFile = s.namesFile) :
    Gathers ranks ⟨namesFile, Function.update s.phase i phase⟩ where
  waits := by
    intro j hj
    by_cases hij : j = i
    · subst hij
      simp only [Function.update_self] at hj
      exact absurd hj hne
    · simp only [Function.update_of_ne hij] at hj
      exact absurd hj (hstart j)
  phase := by
    intro j
    by_cases hij : j = i
    · subst hij
      simpa only [Function.update_self] using hphase
    · simpa only [Function.update_of_ne hij] using h.phase j
  file := by
    by_cases hi : i = 0
    · subst hi
      simpa only [Function.update_self] using hroot rfl
    · simpa only [Function.update_of_ne (Ne.symm hi), hother hi] using h.file

/-- A rank that goes into `PMPI_Init`. -/
theorem Gathers.initializing (h : Gathers ranks s) (hstart : s.phase i = .start) :
    Gathers ranks ⟨s.namesFile, Function.update s.phase i .initializing⟩ where
  waits := by
    intro _ _ k
    by_cases hk : k = i
    · subst hk
      exact .inr (Function.update_self _ _ _)
    · simp only [Function.update_of_ne hk]
      exact h.waits i hstart k
  phase := by
    intro j
    by_cases hij : j = i
    · subst hij
      simp only [Function.update_self]
      trivial
    · simpa only [Function.update_of_ne hij] using h.phase j
  file := by
    have hnone := h.namesFile_eq_none hstart
    by_cases hi : i = 0
    · subst hi
      simp only [Function.update_self]
      exact hnone
    · simpa only [Function.update_of_ne (Ne.symm hi)] using h.file

/-- **One step** of a job that has found no file. -/
theorem Gathers.step (hsync : ∀ phase i, ranks.returns phase i → ∀ j, phase j ≠ .start)
    (h : Gathers ranks s) (i : Fin (n + 1)) : Gathers ranks (step ranks s i) := by
  have hphase := h.phase i
  cases hi : s.phase i with
  | start =>
      rw [step_of_noFile hi (h.namesFile_eq_none hi)]
      exact h.initializing hi
  | initializing =>
      by_cases hreturns : ranks.returns s.phase i
      · rw [step_of_initializing hi hreturns]
        refine h.update (hsync _ i hreturns) (writePhase_ne_start _ _ _) ?_ ?_ fun _ => rfl
        · refine phaseOk_writePhase 0 ?_
          intro hne
          by_contra hroot
          exact hne (if_neg hroot)
        · intro hroot
          subst hroot
          have hnone : s.namesFile = namesFileOf (openedBy ranks 0 []) := by
            have hfile := h.file
            rw [hi] at hfile
            exact hfile
          rw [hnone]
          exact fileOk_writePhase rfl
      · simpa only [JobStart.step, hi, if_neg hreturns] using h
  | writing index label rest =>
      rw [hi] at hphase
      rw [step_of_writing hi]
      have hroot : i = 0 := Fin.ext hphase
      subst hroot
      have hstart : ∀ j, s.phase j ≠ .start := by
        intro j hj
        rcases h.waits j hj 0 with h0 | h0 <;> simp [hi] at h0
      refine h.update hstart (writePhase_ne_start _ _ _)
        (phaseOk_writePhase (index + 1) fun _ => rfl) ?_ fun hne => absurd rfl hne
      intro _
      have hfile := h.file
      rw [hi] at hfile
      obtain ⟨done, hlabels, hlength, hdone⟩ := hfile
      have hnext : metricNameAddToFile (ranks.appendOpens 0 index) label s.namesFile =
          namesFileOf (openedBy ranks 0 (done ++ [label])) := by
        rw [hdone, ← hlength]
        exact metricNameAddToFile_openedLabels (ranks.appendOpens 0) label done
      have hindex : index + 1 = (done ++ [label]).length := by simp [hlength]
      rw [hnext, hindex]
      exact fileOk_writePhase (by simpa using hlabels)
  | returned found properties =>
      rw [step_of_returned hi]
      exact h

/-! ## A job with a file -/

/-- Everybody is at the start or has returned the names in the file. -/
structure Finds (namesFile : Option Name) (countersList : List Name) (s : JobStart n) : Prop where
  kept : s.namesFile = namesFile
  phase : ∀ i, s.phase i = .start ∨ s.phase i = .returned true (countersList.map metricProperty)

section Finds

variable {namesFile : Option Name} {countersList : List Name}

theorem finds_init : Finds namesFile countersList (init namesFile : JobStart n) :=
  ⟨rfl, fun _ => .inl rfl⟩

/-- **One step** of a job that finds a file. -/
theorem Finds.step
    (hread : metricNameReadCountersListFromFile namesFile = .ok (some countersList))
    (h : Finds namesFile countersList s) (i : Fin (n + 1)) :
    Finds namesFile countersList (JobStart.step ranks s i) := by
  rcases h.phase i with hstart | hreturned
  · rw [← h.kept] at hread
    rw [step_of_found hstart hread]
    refine ⟨h.kept, ?_⟩
    intro j
    by_cases hij : j = i
    · subst hij
      exact .inr (Function.update_self _ _ _)
    · simp only [Function.update_of_ne hij]
      exact h.phase j
  · rw [step_of_returned hreturned]
    exact h

end Finds

/-! ## A job -/

/-- What a job keeps that starts with the file `namesFile`, in which the reader finds `found`. -/
def Keeps (ranks : Ranks n) (namesFile : Option Name) (found : Option (List Name))
    (s : JobStart n) : Prop :=
  match found with
  | none => Gathers ranks s
  | some countersList => Finds namesFile countersList s

section Keeps

variable {namesFile : Option Name} {found : Option (List Name)}

theorem keeps_init (hread : metricNameReadCountersListFromFile namesFile = .ok found) :
    Keeps ranks namesFile found (init namesFile) := by
  cases found with
  | none =>
      rw [metricNameRead_eq_none hread]
      exact gathers_init
  | some countersList => exact finds_init

theorem Keeps.step (hsync : ∀ phase i, ranks.returns phase i → ∀ j, phase j ≠ .start)
    (hread : metricNameReadCountersListFromFile namesFile = .ok found)
    (h : Keeps ranks namesFile found s) (i : Fin (n + 1)) :
    Keeps ranks namesFile found (JobStart.step ranks s i) := by
  cases found with
  | none => exact Gathers.step hsync h i
  | some countersList => exact Finds.step hread h i

/-- **Every run** of a job. -/
theorem keeps_final (hsync : ∀ phase i, ranks.returns phase i → ∀ j, phase j ≠ .start)
    (hread : metricNameReadCountersListFromFile namesFile = .ok found)
    (schedule : List (Fin (n + 1))) :
    Keeps ranks namesFile found (Run.final (JobStart.step ranks) (init namesFile) schedule) :=
  Run.final_invariant (Keeps ranks namesFile found) (fun _ i _ h => h.step hsync hread i)
    (keeps_init hread)

end Keeps

/-! ## All ranks -/

/-- What holds at every moment of a job that starts with the file `namesFile`, in which the
reader finds `found`: what is returned, who writes, and what is in the file. -/
structure Agrees (ranks : Ranks n) (namesFile : Option Name) (found : Option (List Name))
    (s : JobStart n) : Prop where
  returned : ∀ i metricsNamesFileExists properties,
    s.phase i = .returned metricsNamesFileExists properties →
      metricsNamesFileExists = found.isSome ∧
        properties = (found.getD (ranks.labels i)).map metricProperty
  /-- Nobody but rank 0 ever comes to an append, and nobody when there was a file. -/
  writer : ∀ i index label rest, s.phase i = .writing index label rest → i = 0 ∧ found = none
  kept : found ≠ none → s.namesFile = namesFile
  /-- Rank 0 is through with the labels `done`, in the end with all. -/
  written : found = none → ∃ done, done <+: ranks.labels 0 ∧
    s.namesFile = namesFileOf (openedLabels (ranks.appendOpens 0) 0 (done.map metricProperty)) ∧
      ∀ metricsNamesFileExists properties,
        s.phase 0 = .returned metricsNamesFileExists properties → done = ranks.labels 0

theorem Gathers.agrees (h : Gathers ranks s) (namesFile : Option Name) :
    Agrees ranks namesFile none s where
  returned := by
    intro i metricsNamesFileExists properties hi
    have hphase := h.phase i
    rw [hi] at hphase
    exact hphase
  writer := by
    intro i index label rest hi
    have hphase := h.phase i
    rw [hi] at hphase
    exact ⟨Fin.ext hphase, rfl⟩
  kept := fun hfound => absurd rfl hfound
  written := by
    intro _
    have hfile := h.file
    cases hroot : s.phase 0 with
    | start =>
        rw [hroot] at hfile
        exact ⟨[], List.nil_prefix, hfile, by simp⟩
    | initializing =>
        rw [hroot] at hfile
        exact ⟨[], List.nil_prefix, hfile, by simp⟩
    | writing index label rest =>
        rw [hroot] at hfile
        obtain ⟨done, hlabels, _, hdone⟩ := hfile
        exact ⟨done, ⟨_, hlabels⟩, hdone, by simp⟩
    | returned found properties =>
        rw [hroot] at hfile
        exact ⟨_, List.prefix_rfl, hfile, fun _ _ _ => rfl⟩

theorem Finds.agrees {namesFile : Option Name} {countersList : List Name}
    (h : Finds namesFile countersList s) : Agrees ranks namesFile (some countersList) s where
  returned := by
    intro i metricsNamesFileExists properties hi
    rcases h.phase i with hstart | hreturned
    · simp [hi] at hstart
    · rw [hi] at hreturned
      obtain ⟨rfl, rfl⟩ := JobPhase.returned.inj hreturned
      exact ⟨rfl, rfl⟩
  writer := by
    intro i index label rest hi
    rcases h.phase i with hphase | hphase <;> simp [hi] at hphase
  kept := fun _ => h.kept
  written := by
    intro hfound
    cases hfound

theorem Keeps.agrees {namesFile : Option Name} {found : Option (List Name)}
    (h : Keeps ranks namesFile found s) : Agrees ranks namesFile found s := by
  cases found with
  | none => exact Gathers.agrees h namesFile
  | some countersList => exact Finds.agrees h

/-- A `PMPI_Init` that holds the ranks until all have come to it, and no longer. -/
def gatherAll (phase : Fin (n + 1) → JobPhase) (_ : Fin (n + 1)) : Bool := ∀ j, phase j ≠ .start

theorem gatherAll_iff (phase : Fin (n + 1) → JobPhase) (i : Fin (n + 1)) :
    gatherAll phase i ↔ ∀ j, phase j ≠ .start := decide_eq_true_iff

/-- Two ranks with two labels, of which the second append fails. -/
def twoRanks : Ranks 1 where
  returns := gatherAll
  labels := fun _ => ["UCX@1_c_tx".toList, "UCX@1_c_rx".toList]
  appendOpens := fun _ k => k = 0

/-- Whether the rank `i` can go on. -/
def CanGo (ranks : Ranks n) (s : JobStart n) (i : Fin (n + 1)) : Prop :=
  match s.phase i with
  | .start => ∃ found, metricNameReadCountersListFromFile s.namesFile = .ok found
  | .initializing => ranks.returns s.phase i
  | .writing _ _ _ => True
  | .returned _ _ => False

/-- The steps that a rank has left at most. -/
def stepsLeft (labels : List Name) : JobPhase → ℕ
  | .start => labels.length + 2
  | .initializing => labels.length + 1
  | .writing _ _ rest => rest.length + 1
  | .returned _ _ => 0

theorem stepsLeft_writePhase (labels labels' rest : List Name) (index : ℕ) :
    stepsLeft labels (writePhase labels' index rest) = rest.length := by
  cases rest <;> rfl

/-- The steps that are left in the job. -/
def work (ranks : Ranks n) (s : JobStart n) : ℕ :=
  ∑ i, stepsLeft (ranks.labels i) (s.phase i)

theorem work_update_lt {phase : JobPhase}
    (h : stepsLeft (ranks.labels i) phase < stepsLeft (ranks.labels i) (s.phase i))
    (namesFile : Option Name) :
    work ranks ⟨namesFile, Function.update s.phase i phase⟩ < work ranks s := by
  refine Finset.sum_lt_sum ?_ ⟨i, Finset.mem_univ i, ?_⟩
  · intro j _
    by_cases hij : j = i
    · subst hij
      simp only [Function.update_self]
      exact Nat.le_of_lt h
    · simp only [Function.update_of_ne hij]
      exact Nat.le_refl _
  · simpa only [Function.update_self] using h

/-- A rank that can go on has less to do afterwards. -/
theorem work_step_lt (h : CanGo ranks s i) : work ranks (step ranks s i) < work ranks s := by
  rw [CanGo] at h
  cases hphase : s.phase i with
  | start =>
      rw [hphase] at h
      obtain ⟨found, hread⟩ := h
      cases found with
      | some countersList =>
          rw [step_of_found hphase hread]
          exact work_update_lt (by simp [hphase, stepsLeft]) _
      | none =>
          rw [step_of_noFile hphase (metricNameRead_eq_none hread)]
          exact work_update_lt (by simp [hphase, stepsLeft]) _
  | initializing =>
      rw [hphase] at h
      have hle := length_toAppend_le (ranks.labels i) i
      rw [step_of_initializing hphase h]
      refine work_update_lt ?_ _
      rw [stepsLeft_writePhase, hphase, stepsLeft]
      omega
  | writing index label rest =>
      rw [step_of_writing hphase]
      refine work_update_lt ?_ _
      rw [stepsLeft_writePhase, hphase, stepsLeft]
      omega
  | returned found properties => rw [hphase] at h; exact h.elim

/-- A rank that cannot go on stays where it is. -/
theorem step_of_not_canGo (h : ¬ CanGo ranks s i) : step ranks s i = s := by
  rw [CanGo] at h
  rw [step]
  cases hphase : s.phase i with
  | start =>
      rw [hphase] at h
      cases hread : metricNameReadCountersListFromFile s.namesFile with
      | error f => rfl
      | ok found => exact absurd ⟨found, hread⟩ h
  | initializing =>
      rw [hphase] at h
      simp only [if_neg h]
  | writing index label rest => rw [hphase] at h; exact absurd trivial h
  | returned found properties => rfl

theorem step_eq_or_work_lt (s : JobStart n) (i : Fin (n + 1)) :
    step ranks s i = s ∨ work ranks (step ranks s i) < work ranks s := by
  by_cases h : CanGo ranks s i
  · exact .inr (work_step_lt h)
  · exact .inl (step_of_not_canGo h)

/-- All ranks have returned. -/
def Finished (s : JobStart n) : Prop :=
  ∀ i, ∃ metricsNamesFileExists properties,
    s.phase i = .returned metricsNamesFileExists properties

/-- Without a file, somebody can go on as long as not all ranks have returned. -/
theorem Gathers.exists_canGo
    (hcompletes : ∀ phase i, (∀ j, phase j ≠ .start) → ranks.returns phase i)
    (h : Gathers ranks s) (hleft : ¬ Finished s) : ∃ i, CanGo ranks s i := by
  by_cases hstart : ∃ j, s.phase j = .start
  · obtain ⟨j, hj⟩ := hstart
    refine ⟨j, ?_⟩
    rw [CanGo, hj]
    exact ⟨none, by rw [h.namesFile_eq_none hj]; rfl⟩
  · have hnobody : ∀ j, s.phase j ≠ .start := not_exists.mp hstart
    obtain ⟨i, hi⟩ := not_forall.mp hleft
    refine ⟨i, ?_⟩
    rw [CanGo]
    cases hphase : s.phase i with
    | start => exact absurd hphase (hnobody i)
    | initializing => exact hcompletes _ i hnobody
    | writing index label rest => trivial
    | returned found properties => exact absurd ⟨found, properties, hphase⟩ hi

/-- With a file, whoever has not returned can go on. -/
theorem Finds.exists_canGo {namesFile : Option Name} {countersList : List Name}
    (hread : metricNameReadCountersListFromFile namesFile = .ok (some countersList))
    (h : Finds namesFile countersList s) (hleft : ¬ Finished s) : ∃ i, CanGo ranks s i := by
  obtain ⟨i, hi⟩ := not_forall.mp hleft
  refine ⟨i, ?_⟩
  rcases h.phase i with hstart | hreturned
  · rw [CanGo, hstart, h.kept]
    exact ⟨_, hread⟩
  · exact absurd ⟨_, _, hreturned⟩ hi

theorem Keeps.exists_canGo {namesFile : Option Name} {found : Option (List Name)}
    (hcompletes : ∀ phase i, (∀ j, phase j ≠ .start) → ranks.returns phase i)
    (hread : metricNameReadCountersListFromFile namesFile = .ok found)
    (h : Keeps ranks namesFile found s) (hleft : ¬ Finished s) : ∃ i, CanGo ranks s i := by
  cases found with
  | none => exact Gathers.exists_canGo hcompletes h hleft
  | some countersList => exact Finds.exists_canGo hread h hleft

/-- **Every rank returns** at some time, whatever appends fail, under a schedule that comes back
to every rank again and again, when `PMPI_Init` lets the ranks go on once all have come to it, and
not before. -/
theorem jobStart_finishes (hsync : ∀ phase i, ranks.returns phase i → ∀ j, phase j ≠ .start)
    (hcompletes : ∀ phase i, (∀ j, phase j ≠ .start) → ranks.returns phase i)
    {namesFile : Option Name} {found : Option (List Name)}
    (hread : metricNameReadCountersListFromFile namesFile = .ok found)
    (schedule : ℕ → Fin (n + 1)) (hfair : ∀ i m, ∃ m', m ≤ m' ∧ schedule m' = i) :
    ∃ m, Finished (Run.final (step ranks) (init namesFile) (Fairness.firstSteps schedule m)) := by
  have hmoves : ∀ s : JobStart n, (∃ i, CanGo ranks s i) → ∃ i, step ranks s i ≠ s := by
    intro s h
    obtain ⟨i, hi⟩ := h
    refine ⟨i, ?_⟩
    intro hsame
    have hlt : work ranks (step ranks s i) < work ranks s := work_step_lt hi
    rw [hsame] at hlt
    exact Nat.lt_irrefl _ hlt
  have hkeeps : ∀ s i, Keeps ranks namesFile found s →
      Keeps ranks namesFile found (step ranks s i) := fun s i h => h.step hsync hread i
  exact Fairness.exists_done (work ranks) Finished hkeeps (fun s i _ => step_eq_or_work_lt s i)
    (fun s h hleft => hmoves s (h.exists_canGo hcompletes hread hleft)) (keeps_init hread)
    schedule hfair

/-- Two ranks that take turns. -/
theorem jobStart_finishes_turns :
    ∃ m, Finished (Run.final (step twoRanks) (init none)
      (Fairness.firstSteps (fun m => Fin.ofNat 2 m) m)) := by
  refine jobStart_finishes (fun phase i => (gatherAll_iff phase i).mp)
    (fun phase i => (gatherAll_iff phase i).mpr) rfl _ ?_
  intro i m
  refine ⟨2 * m + i, by omega, Fin.ext ?_⟩
  simp only [Fin.val_ofNat]
  omega

/-! ## One job after the other -/

/-- One job of a sequence: its ranks, and the order of their steps. -/
structure Job where
  n : ℕ
  ranks : Ranks n
  schedule : List (Fin (n + 1))

/-- The job at its end, when it has started with the file `namesFile`. -/
def Job.final (job : Job) (namesFile : Option Name) : JobStart job.n :=
  Run.final (step job.ranks) (init namesFile) job.schedule

/-- The file that a job leaves. -/
def Job.file (namesFile : Option Name) (job : Job) : Option Name := (job.final namesFile).namesFile

/-- A rank of the job has returned `properties`. -/
def Job.Returns (job : Job) (namesFile : Option Name) (i : Fin (job.n + 1))
    (properties : List Name) : Prop :=
  ∃ metricsNamesFileExists,
    (job.final namesFile).phase i = .returned metricsNamesFileExists properties

section Sequence

variable {labels : List Name} {namesFile : Option Name} {job : Job}

/-- What a job finds in the file that complete jobs have left. -/
theorem read_complete (hfits : ∀ label ∈ labels, FitsLine label)
    (hfile : namesFile = none ∨ namesFile = namesFileOf labels) :
    ∃ found, metricNameReadCountersListFromFile namesFile = .ok found ∧
      found.getD labels = labels := by
  rcases hfile with rfl | rfl
  · exact ⟨none, rfl, rfl⟩
  · refine ⟨_, metricNameRead_namesFileOf hfits, ?_⟩
    split <;> rfl

/-- A job that finds no file or a complete one returns the labels. -/
theorem Job.returns_of_complete (hfits : ∀ label ∈ labels, FitsLine label)
    (hsync : ∀ phase i, job.ranks.returns phase i → ∀ j, phase j ≠ .start)
    (hlabels : ∀ i, job.ranks.labels i = labels)
    (hfile : namesFile = none ∨ namesFile = namesFileOf labels) {i : Fin (job.n + 1)}
    {properties : List Name} (h : job.Returns namesFile i properties) :
    properties = labels := by
  obtain ⟨metricsNamesFileExists, hi⟩ := h
  obtain ⟨found, hread, hfound⟩ := read_complete hfits hfile
  have hagrees := (keeps_final hsync hread job.schedule).agrees
  rw [(hagrees.returned i _ properties hi).2, hlabels, hfound,
    map_metricProperty_of_fits hfits]

/-- A job in which rank 0 returns, and no append of it has failed, leaves a complete file. -/
theorem Job.file_of_complete (hfits : ∀ label ∈ labels, FitsLine label)
    (hsync : ∀ phase i, job.ranks.returns phase i → ∀ j, phase j ≠ .start)
    (hlabels : ∀ i, job.ranks.labels i = labels) (hopens : ∀ k, job.ranks.appendOpens 0 k)
    (hfile : namesFile = none ∨ namesFile = namesFileOf labels)
    (hreturns : namesFile = none → ∃ properties, job.Returns namesFile 0 properties) :
    job.file namesFile = namesFileOf labels := by
  obtain ⟨found, hread, _⟩ := read_complete hfits hfile
  have hagrees : Agrees job.ranks namesFile found (job.final namesFile) :=
    (keeps_final hsync hread job.schedule).agrees
  cases found with
  | none =>
      obtain ⟨done, _, hlines, hall⟩ := hagrees.written rfl
      obtain ⟨properties, metricsNamesFileExists, hi⟩ := hreturns (metricNameRead_eq_none hread)
      have hopen : job.ranks.appendOpens 0 = fun _ => true := funext hopens
      rw [hall _ _ hi, hlabels, map_metricProperty_of_fits hfits, hopen,
        openedLabels_true] at hlines
      exact hlines
  | some countersList =>
      have hkept : job.file namesFile = namesFile := hagrees.kept (by simp)
      rw [hkept]
      rcases hfile with rfl | hfile
      · cases hread
      · exact hfile

variable (labels) in
/-- Whatever a rank of one of the jobs returns, which follow each other in one directory without a
file, are the labels. -/
def ReturnLabels (jobs : List Job) : Prop :=
  ∀ x ∈ Run.trace Job.file none jobs, ∀ i properties,
    x.2.Returns x.1 i properties → properties = labels

/-- **Jobs that follow each other** in one directory return the same on all their ranks, when
`PMPI_Init` gathers the ranks of each, all have the same labels, no append fails, and rank 0 of a
job that finds no file returns. -/
theorem jobs_agree (hfits : ∀ label ∈ labels, FitsLine label) (jobs : List Job)
    (hsync : ∀ job ∈ jobs, ∀ phase i, job.ranks.returns phase i → ∀ j, phase j ≠ .start)
    (hlabels : ∀ job ∈ jobs, ∀ i, job.ranks.labels i = labels)
    (hopens : ∀ job ∈ jobs, ∀ k, job.ranks.appendOpens 0 k)
    (hreturns : ∀ x ∈ Run.trace Job.file none jobs,
      x.1 = none → ∃ properties, x.2.Returns x.1 0 properties) :
    ReturnLabels labels jobs := by
  have hmem : ∀ x ∈ Run.trace Job.file none jobs, x.2 ∈ jobs := fun x hx => Run.mem_of_mem_trace hx
  have hcomplete := Run.trace_invariant_of_holds
    (P := fun x => x.2 ∈ jobs ∧ (x.1 = none → ∃ properties, x.2.Returns x.1 0 properties))
    (fun namesFile => namesFile = none ∨ namesFile = namesFileOf labels)
    (fun namesFile job hfile hP => .inr (Job.file_of_complete hfits (hsync job hP.1)
      (hlabels job hP.1) (hopens job hP.1) hfile hP.2)) (.inl rfl)
    (fun x hx => ⟨hmem x hx, hreturns x hx⟩)
  intro x hx i properties
  exact Job.returns_of_complete hfits (hsync _ (hmem x hx)) (hlabels _ (hmem x hx))
    (hcomplete x hx)

end Sequence

/-- Two ranks with one label that take turns until both have returned. -/
def twoTurns : Job where
  n := 1
  ranks := ⟨gatherAll, fun _ => ["UCX@1_c_tx".toList], fun _ _ => true⟩
  schedule := List.finRange 2 ++ List.finRange 2 ++ List.finRange 2

/-- A second job finds the file of the first one. -/
theorem jobs_agree_two : ReturnLabels ["UCX@1_c_tx".toList] [twoTurns, twoTurns] := by
  have hfits : ∀ label ∈ ["UCX@1_c_tx".toList], FitsLine label := by
    intro label hlabel
    have heq := List.mem_singleton.mp hlabel
    subst heq
    exact ⟨by decide, by decide, by decide⟩
  have hboth : ∀ job ∈ [twoTurns, twoTurns], job = twoTurns := by simp
  refine jobs_agree hfits [twoTurns, twoTurns] ?_ ?_ ?_ ?_
  · intro job hjob
    rw [hboth job hjob]
    exact fun phase i => (gatherAll_iff phase i).mp
  · intro job hjob
    rw [hboth job hjob]
    exact fun _ => rfl
  · intro job hjob
    rw [hboth job hjob]
    exact fun _ => rfl
  · intro x hx hnone
    simp only [Run.trace, List.mem_cons, List.not_mem_nil, or_false] at hx
    rcases hx with rfl | rfl
    · exact ⟨_, _, rfl⟩
    · exact absurd hnone (by decide)

end JobStart

end ScorepPluginUcx
