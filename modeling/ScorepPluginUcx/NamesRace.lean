import Mathlib.Data.List.Induction
import Mathlib.Logic.Function.Basic
import ScorepPluginUcx.Lib.Interleaving
import ScorepPluginUcx.NamesCache

/-!
# Enumerations that race for the names file

Several processes share the working directory. A process reads the names file in one step;
on rank 0, when it found none, it then appends one label a step. Nothing locks the file, and
a process that is never scheduled again has stopped for good. `NamesRace.step` is the step
of one process, and a run is a list of processes.

The lines of the file are an interleaving of what the processes have appended, each an
initial segment of the labels, and a reader takes whatever is there.

## Main results

* `race_alone`: a process that runs undisturbed does what `get_metric_properties` does.
* `race_explained`: the file and the results, at every moment of every run.
* `race_incomplete`: a run in which the file is incomplete and a reader returns less.
-/

namespace ScorepPluginUcx

universe u

/-- Where a process is in `get_metric_properties`. -/
inductive Phase
  /-- The file is still to be read. -/
  | start
  /-- There was no file, and `label` is to be appended next. -/
  | writing (label : Name) (labels : List Name)
  /-- The call has returned. -/
  | returned (metricsNamesFileExists : Bool) (properties : List Name)
  deriving DecidableEq

/-- The file, and the processes. -/
structure NamesRace (ι : Type u) where
  namesFile : Option Name
  phase : ι → Phase

namespace NamesRace

variable {ι : Type u} [DecidableEq ι]

/-- No file, and nobody has begun. -/
def init : NamesRace ι := ⟨none, fun _ => .start⟩

/-- Where a process is with `rest` still to be appended. -/
def writePhase (labels : List Name) : List Name → Phase
  | [] => .returned false (labels.map metricProperty)
  | label :: rest => .writing label rest

/-- One step of the process `i`. A read that C leaves undefined goes nowhere. -/
def step (commRank : ι → ℤ) (labels : List Name) (s : NamesRace ι) (i : ι) : NamesRace ι :=
  match s.phase i with
  | .start =>
      match metricNameReadCountersListFromFile s.namesFile with
      | .ok (some countersList) =>
          { s with
            phase := Function.update s.phase i
              (.returned true (countersList.map metricProperty)) }
      | .ok none =>
          { s with
            phase := Function.update s.phase i
              (writePhase labels (if commRank i = 0 then labels else [])) }
      | .error _ => s
  | .writing label rest =>
      { namesFile := metricNameAddToFile true label s.namesFile
        phase := Function.update s.phase i (writePhase labels rest) }
  | .returned _ _ => s

variable (commRank : ι → ℤ) (labels : List Name)

/-- The state after a run. -/
def after (schedule : List ι) : NamesRace ι := Run.final (step commRank labels) init schedule

@[simp] theorem after_nil : after commRank labels ([] : List ι) = init := rfl

theorem after_append (schedule : List ι) (i : ι) :
    after commRank labels (schedule ++ [i]) =
      step commRank labels (after commRank labels schedule) i := by
  simp [after, Run.final_append]

/-- **What one step does**: nothing, or a read that finds lines, or one that finds no file,
or an append. -/
theorem step_cases (s : NamesRace ι) (i : ι) :
    step commRank labels s i = s ∨
    (∃ countersList, metricNameReadCountersListFromFile s.namesFile = .ok (some countersList) ∧
      s.phase i = .start ∧
      step commRank labels s i = ⟨s.namesFile, Function.update s.phase i
        (.returned true (countersList.map metricProperty))⟩) ∨
    (s.phase i = .start ∧ step commRank labels s i = ⟨s.namesFile, Function.update s.phase i
      (writePhase labels (if commRank i = 0 then labels else []))⟩) ∨
    ∃ label rest, s.phase i = .writing label rest ∧
      step commRank labels s i = ⟨metricNameAddToFile true label s.namesFile,
        Function.update s.phase i (writePhase labels rest)⟩ := by
  cases hphase : s.phase i with
  | start =>
      cases hread : metricNameReadCountersListFromFile s.namesFile with
      | error f => exact .inl (by simp [step, hphase, hread])
      | ok found =>
          cases found with
          | some countersList =>
              exact .inr (.inl ⟨countersList, rfl, rfl, by simp [step, hphase, hread]⟩)
          | none => exact .inr (.inr (.inl ⟨rfl, by simp [step, hphase, hread]⟩))
  | writing label rest =>
      exact .inr (.inr (.inr ⟨label, rest, rfl, by simp [step, hphase]⟩))
  | returned found properties => exact .inl (by simp [step, hphase])

/-! ## A process that runs undisturbed -/

variable {commRank labels}

/-- A call that has returned takes no further step. -/
theorem final_replicate_of_returned {s : NamesRace ι} {i : ι} {found : Bool}
    {properties : List Name} (h : s.phase i = .returned found properties) (n : ℕ) :
    Run.final (step commRank labels) s (List.replicate n i) = s := by
  induction n with
  | zero => rfl
  | succ n ih =>
      have hstay : step commRank labels s i = s := by simp [step, h]
      rw [List.replicate_succ, Run.final_cons, hstay, ih]

variable (commRank) in
/-- The appends of one process, one after the other. -/
theorem final_replicate_of_writing {s : NamesRace ι} {i : ι} {lines rest : List Name}
    (hphase : s.phase i = writePhase labels rest) (hfile : s.namesFile = namesFileOf lines)
    {n : ℕ} (hn : rest.length ≤ n) :
    (Run.final (step commRank labels) s (List.replicate n i)).namesFile =
        namesFileOf (lines ++ rest.map metricProperty) ∧
      (Run.final (step commRank labels) s (List.replicate n i)).phase i =
        .returned false (labels.map metricProperty) := by
  induction rest generalizing s lines n with
  | nil =>
      rw [final_replicate_of_returned hphase, hfile]
      exact ⟨by simp, hphase⟩
  | cons label rest ih =>
      obtain ⟨n, rfl⟩ : ∃ m, n = m + 1 := ⟨n - 1, by simp at hn; omega⟩
      have hstep : step commRank labels s i = ⟨metricNameAddToFile true label s.namesFile,
          Function.update s.phase i (writePhase labels rest)⟩ := by
        simp [step, hphase, writePhase]
      have hfile' : (step commRank labels s i).namesFile =
          namesFileOf (lines ++ [metricProperty label]) := by
        rw [hstep, hfile]
        exact metricNameAddToFile_namesFileOf label lines
      have hnext := ih (show (step commRank labels s i).phase i = writePhase labels rest by
        simp [hstep]) hfile' (show rest.length ≤ n by simpa using hn)
      rw [List.replicate_succ, Run.final_cons]
      simpa using hnext

/-- **The steps make up the call**: a process that runs from its start without another in
between returns what `get_metric_properties` returns and leaves the same file. -/
theorem race_alone {c : Context} {e : Environment} {metricName : Name} {p : Plugin}
    (hucx : isUcxMetric metricName) (hen : p.ucxCountersCollectEnable ≠ 0)
    (happend : e.appendOpens = fun _ => true) {r : Enumeration}
    (hr : getMetricProperties c e metricName p = .ok r) {s : NamesRace ι} {i : ι}
    (hrank : commRank i = c.commRank) (hstart : s.phase i = .start)
    (hfile : s.namesFile = e.namesFile) {n : ℕ} (hn : e.counterNames.length ≤ n) :
    (Run.final (step commRank (liveLabels e.counterNames metricName)) s
        (List.replicate (n + 1) i)).namesFile = r.namesFile ∧
      ∃ found, (Run.final (step commRank (liveLabels e.counterNames metricName)) s
        (List.replicate (n + 1) i)).phase i = .returned found r.ucxProperties := by
  rw [List.replicate_succ, Run.final_cons]
  cases hread : metricNameReadCountersListFromFile e.namesFile with
  | error f =>
      rw [getMetricProperties_of_ucx hucx] at hr
      simp [ucxMetricProperties, hen, hread, bind, Except.bind, Except.map] at hr
  | ok found =>
      rcases getMetricProperties_enumeratesUcx c hucx hen happend hread with ⟨r', hr', hout⟩
      obtain rfl : r = r' := Except.ok.inj (hr.symm.trans hr')
      cases found with
      | some countersList =>
          have hstep : step commRank (liveLabels e.counterNames metricName) s i =
              ⟨s.namesFile, Function.update s.phase i
                (.returned true (countersList.map metricProperty))⟩ := by
            simp [step, hstart, hfile, hread]
          have hphase : (step commRank (liveLabels e.counterNames metricName) s i).phase i =
              .returned true (countersList.map metricProperty) := by
            simp [hstep]
          rw [final_replicate_of_returned hphase, hout.1, hout.2]
          exact ⟨by rw [hstep]; exact hfile, true, hphase⟩
      | none =>
          have hnone : e.namesFile = none := metricNameRead_eq_none hread
          have hstep : step commRank (liveLabels e.counterNames metricName) s i =
              ⟨s.namesFile, Function.update s.phase i
                (writePhase (liveLabels e.counterNames metricName)
                  (if commRank i = 0 then liveLabels e.counterNames metricName else []))⟩ := by
            simp [step, hstart, hfile, hread]
          have hlength : (if commRank i = 0 then liveLabels e.counterNames metricName
              else []).length ≤ n := by
            split
            · simpa [liveLabels] using hn
            · exact Nat.zero_le n
          have hempty : (step commRank (liveLabels e.counterNames metricName) s i).namesFile =
              namesFileOf [] := by
            rw [hstep]
            exact hfile.trans hnone
          have hwritten := final_replicate_of_writing commRank
            (show (step commRank (liveLabels e.counterNames metricName) s i).phase i =
              writePhase (liveLabels e.counterNames metricName) _ by simp [hstep])
            hempty hlength
          rw [hwritten.1, hwritten.2, hout.1, hout.2, hrank]
          refine ⟨?_, false, rfl⟩
          split <;> simp

/-! ## The log of a run -/

variable (commRank labels)

/-- What the phase of the process `i` tells about its part `own` of the file's lines, and
about what it has returned. -/
def PhaseExplains (schedule : List ι) (i : ι) (own : List Name) : Phase → Prop
  | .start => own = []
  | .writing label rest =>
      commRank i = 0 ∧ own ++ (label :: rest).map metricProperty = labels.map metricProperty
  | .returned false properties =>
      properties = labels.map metricProperty ∧ own = if commRank i = 0 then properties else []
  | .returned true properties =>
      own = [] ∧ ∃ before countersList, before ++ [i] <+: schedule ∧
        (after commRank labels before).phase i = .start ∧
        metricNameReadCountersListFromFile (after commRank labels before).namesFile =
          .ok (some countersList) ∧
        properties = countersList.map metricProperty

/-- A log that explains a run: the file has its lines in their order, and every process has
its part in it. -/
structure Explained (schedule : List ι) (log : List (ι × Name)) : Prop where
  namesFile : (after commRank labels schedule).namesFile = namesFileOf (log.map Prod.snd)
  phase : ∀ i, PhaseExplains commRank labels schedule i (Interleaving.part i log)
    ((after commRank labels schedule).phase i)

variable {commRank labels}

theorem PhaseExplains.mono {schedule : List ι} {i : ι} {own : List Name} {phase : Phase}
    (h : PhaseExplains commRank labels schedule i own phase) (j : ι) :
    PhaseExplains commRank labels (schedule ++ [j]) i own phase := by
  match phase, h with
  | .start, h => exact h
  | .writing _ _, h => exact h
  | .returned false _, h => exact h
  | .returned true _, ⟨hown, before, countersList, hbefore, hread⟩ =>
      exact ⟨hown, before, countersList, hbefore.trans (List.prefix_append _ _), hread⟩

/-- Rank 0 with `rest` still to be appended. -/
theorem phaseExplains_writePhase (schedule : List ι) {i : ι} (hroot : commRank i = 0)
    {own rest : List Name} (h : own ++ rest.map metricProperty = labels.map metricProperty) :
    PhaseExplains commRank labels schedule i own (writePhase labels rest) := by
  cases rest with
  | nil =>
      refine ⟨rfl, ?_⟩
      rw [if_pos hroot, ← h, List.map_nil, List.append_nil]
  | cons label rest => exact ⟨hroot, h⟩

/-- Each process has appended an initial segment of the labels. -/
theorem PhaseExplains.isPrefix {schedule : List ι} {i : ι} {own : List Name} {phase : Phase}
    (h : PhaseExplains commRank labels schedule i own phase) :
    own <+: labels.map metricProperty := by
  match phase, h with
  | .start, h =>
      have hown : own = [] := h
      rw [hown]
      exact List.nil_prefix
  | .writing label rest, h => exact ⟨_, h.2⟩
  | .returned false properties, h =>
      rcases h with ⟨rfl, hown⟩
      rw [hown]
      split
      · exact List.prefix_rfl
      · exact List.nil_prefix
  | .returned true _, h =>
      rw [h.1]
      exact List.nil_prefix

/-- A step of `i` that adds `lines` to the file, and the phase that it leads to. -/
theorem Explained.update {schedule : List ι} {log : List (ι × Name)}
    (h : Explained commRank labels schedule log) {i : ι} (lines : List Name)
    {namesFile : Option Name} {phase : Phase}
    (hstep : step commRank labels (after commRank labels schedule) i =
      ⟨namesFile, Function.update (after commRank labels schedule).phase i phase⟩)
    (hfile : namesFile = namesFileOf (log.map Prod.snd ++ lines))
    (hphase : PhaseExplains commRank labels (schedule ++ [i]) i
      (Interleaving.part i log ++ lines) phase) :
    Explained commRank labels (schedule ++ [i]) (log ++ lines.map (Prod.mk i)) where
  namesFile := by
    have hmap : (lines.map (Prod.mk i)).map Prod.snd = lines := by simp [Function.comp_def]
    rw [after_append, hstep, List.map_append, hmap]
    exact hfile
  phase := by
    intro j
    rw [after_append, hstep]
    simp only
    by_cases hj : j = i
    · subst hj
      simpa using hphase
    · rw [Function.update_of_ne hj, Interleaving.part_append,
        Interleaving.part_map_of_ne (Ne.symm hj), List.append_nil]
      exact (h.phase j).mono i

/-- **One step** keeps a run explained. -/
theorem Explained.step {schedule : List ι} {log : List (ι × Name)}
    (h : Explained commRank labels schedule log) (i : ι) :
    ∃ log', Explained commRank labels (schedule ++ [i]) log' := by
  have hi := h.phase i
  rcases step_cases commRank labels (after commRank labels schedule) i with
    hstay | ⟨countersList, hread, hstart, hstep⟩ | ⟨hstart, hstep⟩ | ⟨label, rest, hwriting, hstep⟩
  · refine ⟨log, ?_, fun j => ?_⟩
    · rw [after_append, hstay, h.namesFile]
    · rw [after_append, hstay]
      exact (h.phase j).mono i
  · rw [hstart] at hi
    have hown : Interleaving.part i log = [] := hi
    refine ⟨_, h.update [] hstep (by simpa using h.namesFile) ?_⟩
    exact ⟨by simp [hown], schedule, countersList, List.prefix_rfl, hstart, hread, rfl⟩
  · rw [hstart] at hi
    have hown : Interleaving.part i log = [] := hi
    refine ⟨_, h.update [] hstep (by simpa using h.namesFile) ?_⟩
    by_cases hroot : commRank i = 0
    · rw [if_pos hroot]
      exact phaseExplains_writePhase _ hroot (by simp [hown])
    · rw [if_neg hroot]
      exact ⟨rfl, by simp [hown, hroot]⟩
  · rw [hwriting] at hi
    rcases hi with ⟨hroot, hown⟩
    refine ⟨_, h.update [metricProperty label] hstep ?_ ?_⟩
    · rw [h.namesFile, metricNameAddToFile_namesFileOf]
      rfl
    · exact phaseExplains_writePhase _ hroot (by simpa using hown)

/-- **Every run is explained.** -/
theorem exists_explained (commRank : ι → ℤ) (labels : List Name) (schedule : List ι) :
    ∃ log, Explained commRank labels schedule log := by
  induction schedule using List.reverseRecOn with
  | nil => exact ⟨[], rfl, fun i => rfl⟩
  | append_singleton schedule i ih =>
      rcases ih with ⟨log, hlog⟩
      exact hlog.step i

/-- No lines but labels get into the file. -/
theorem Explained.subset {schedule : List ι} {log : List (ι × Name)}
    (h : Explained commRank labels schedule log) :
    ∀ line ∈ log.map Prod.snd, line ∈ labels.map metricProperty := by
  intro line hline
  obtain ⟨⟨i, line⟩, hmem, rfl⟩ := List.mem_map.mp hline
  exact (h.phase i).isPrefix.subset (Interleaving.mem_part.mpr hmem)

/-- Labels that fit a line come back line by line: a reader returns the lines that the file
had when it read. -/
theorem Explained.returned_lines {schedule : List ι} {log : List (ι × Name)}
    (h : Explained commRank labels schedule log)
    (hfits : ∀ label ∈ labels.map metricProperty, FitsLine label) {i : ι}
    {properties : List Name}
    (hi : (after commRank labels schedule).phase i = .returned true properties) :
    ∃ before, before ++ [i] <+: schedule ∧ (after commRank labels before).phase i = .start ∧
      (after commRank labels before).namesFile = namesFileOf properties := by
  have hphase := h.phase i
  rw [hi] at hphase
  rcases hphase with ⟨_, before, countersList, hbefore, hstart, hread, rfl⟩
  rcases exists_explained commRank labels before with ⟨log', hlog'⟩
  have hlines : ∀ line ∈ log'.map Prod.snd, FitsLine line := by
    intro line hline
    exact hfits line (hlog'.subset line hline)
  rw [hlog'.namesFile, metricNameRead_namesFileOf hlines] at hread
  refine ⟨before, hbefore, hstart, ?_⟩
  split at hread
  · cases hread
  · obtain rfl := Option.some.inj (Except.ok.inj hread)
    rw [hlog'.namesFile, map_metricProperty_of_fits hlines]

/-! ## A single writer -/

/-- The process has found no file. -/
def FoundNone : Phase → Prop
  | .writing _ _ => True
  | .returned false _ => True
  | _ => False

/-- The process is rank 0 and has found no file. -/
def Writes (commRank : ι → ℤ) (s : NamesRace ι) (i : ι) : Prop :=
  commRank i = 0 ∧ FoundNone (s.phase i)

theorem PhaseExplains.foundNone {schedule : List ι} {i : ι} {own : List Name} {phase : Phase}
    (h : PhaseExplains commRank labels schedule i own phase) (hown : own ≠ []) :
    commRank i = 0 ∧ FoundNone phase := by
  match phase, h with
  | .start, h => exact absurd h hown
  | .writing _ _, h => exact ⟨h.1, trivial⟩
  | .returned false _, h =>
      refine ⟨?_, trivial⟩
      by_contra hrank
      exact hown (h.2.trans (if_neg hrank))
  | .returned true _, h => exact absurd h.1 hown

/-- Who has lines in the file is a writer. -/
theorem Explained.writes {schedule : List ι} {log : List (ι × Name)}
    (h : Explained commRank labels schedule log) {x : ι × Name} (hx : x ∈ log) :
    Writes commRank (after commRank labels schedule) x.1 :=
  (h.phase x.1).foundNone (List.ne_nil_of_mem (Interleaving.mem_part.mpr hx))

/-- With one writer the file has an initial segment of the labels, and all of them once
the writer has returned. -/
theorem Explained.single {schedule : List ι} {log : List (ι × Name)}
    (h : Explained commRank labels schedule log)
    (hone : ∀ i j, Writes commRank (after commRank labels schedule) i →
      Writes commRank (after commRank labels schedule) j → i = j) :
    (∃ lines, lines <+: labels.map metricProperty ∧
        (after commRank labels schedule).namesFile = namesFileOf lines) ∧
      ∀ i properties, commRank i = 0 →
        (after commRank labels schedule).phase i = .returned false properties →
        (after commRank labels schedule).namesFile = namesFileOf (labels.map metricProperty) := by
  have hpart : ∀ i, Writes commRank (after commRank labels schedule) i →
      Interleaving.part i log = log.map Prod.snd := by
    intro i hi
    exact Interleaving.part_eq_of_forall fun x hx => hone x.1 i (h.writes hx) hi
  constructor
  · refine ⟨log.map Prod.snd, ?_, h.namesFile⟩
    cases hlog : log with
    | nil => exact List.nil_prefix
    | cons x rest =>
        have hx : x ∈ log := by simp [hlog]
        rw [← hlog, ← hpart x.1 (h.writes hx)]
        exact (h.phase x.1).isPrefix
  · intro i properties hroot hi
    have hphase := h.phase i
    rw [hi] at hphase
    rcases hphase with ⟨rfl, hown⟩
    have hwrites : Writes commRank (after commRank labels schedule) i :=
      ⟨hroot, hi ▸ trivial⟩
    rw [h.namesFile, ← hpart i hwrites, hown, if_pos hroot]

/-- **The race, at every moment of every run.** Some log explains the file and what each
process has returned; readers of labels that fit return the lines of the moment; and a
single writer leaves an initial segment, in the end the whole. -/
theorem race_explained (commRank : ι → ℤ) (labels : List Name) (schedule : List ι) :
    (∃ log, Explained commRank labels schedule log) ∧
      ((∀ label ∈ labels.map metricProperty, FitsLine label) → ∀ i properties,
        (after commRank labels schedule).phase i = .returned true properties →
        ∃ before, before ++ [i] <+: schedule ∧ (after commRank labels before).phase i = .start ∧
          (after commRank labels before).namesFile = namesFileOf properties) ∧
      ((∀ i j, Writes commRank (after commRank labels schedule) i →
          Writes commRank (after commRank labels schedule) j → i = j) →
        (∃ lines, lines <+: labels.map metricProperty ∧
          (after commRank labels schedule).namesFile = namesFileOf lines) ∧
        ∀ i properties, commRank i = 0 →
          (after commRank labels schedule).phase i = .returned false properties →
          (after commRank labels schedule).namesFile =
            namesFileOf (labels.map metricProperty)) := by
  rcases exists_explained commRank labels schedule with ⟨log, hlog⟩
  exact ⟨⟨log, hlog⟩, fun hfits i properties hi => hlog.returned_lines hfits hi, hlog.single⟩

/-- The file is absent or complete at every moment of every run. -/
def FileComplete (commRank : ι → ℤ) (labels : List Name) : Prop :=
  ∀ schedule : List ι, (after commRank labels schedule).namesFile = none ∨
    (after commRank labels schedule).namesFile = namesFileOf (labels.map metricProperty)

/-- All calls of a run that return return the same. -/
def ResultsAgree (commRank : ι → ℤ) (labels : List Name) : Prop :=
  ∀ (schedule : List ι) (i j : ι) (found found' : Bool) (properties properties' : List Name),
    (after commRank labels schedule).phase i = .returned found properties →
    (after commRank labels schedule).phase j = .returned found' properties' →
    properties = properties'

/-- The writer stops after the first of two labels. A later process returns this label, and
one that is not rank 0 and read before there was a file returns both. -/
theorem race_incomplete :
    ¬ FileComplete (fun i : Fin 3 => if i = 2 then 1 else 0)
        (liveLabels [⟨"c".toList, "tx".toList⟩, ⟨"c".toList, "rx".toList⟩] "UCX@1".toList) ∧
      ¬ ResultsAgree (fun i : Fin 3 => if i = 2 then 1 else 0)
        (liveLabels [⟨"c".toList, "tx".toList⟩, ⟨"c".toList, "rx".toList⟩] "UCX@1".toList) := by
  constructor
  · intro h
    exact absurd (h [0, 0]) (by decide)
  · intro h
    exact absurd (h [0, 2, 0, 1] 1 2 _ _ _ _ rfl rfl) (by decide)

end NamesRace

end ScorepPluginUcx
