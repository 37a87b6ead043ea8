import ScorepPluginUcx.Core
import ScorepPluginUcx.Lib.WriteOnce

/-!
# The names file as a cache

The first enumeration on rank 0 writes the labels it has built to the names file, and the
later ones, also those of later processes, return what the file says. So the file is a
cell that is written once (`Stores`), and an enumeration agrees with the live path when the
first one brought the same labels.

## Main results

* `ucxProperties_stores`: one enumeration is one visit of the cell.
* `agreesWithLive_iff`: when all enumerations agree with the live path.
-/

namespace ScorepPluginUcx

/-- The labels that the live path builds for a metric name. -/
def liveLabels (names : List AggrgtCounterName) (metricName : Name) : List Name :=
  names.map (ucxCounterLabel metricName)

/-! ## The live path -/

/-- The properties that the loop makes. -/
theorem addAggregateCounters_properties (isRoot : Bool) (appendOpens : ℕ → Bool)
    (metricName : Name) (i : ℕ) (names : List AggrgtCounterName) (file : Option Name) :
    (addAggregateCounters isRoot appendOpens metricName i names file).1 =
      (liveLabels names metricName).map metricProperty := by
  induction names generalizing i file with
  | nil => rfl
  | cons k ks ih => simp [addAggregateCounters, liveLabels, ih]

/-- The labels for which the file opens; `i` is the index of the first. -/
def openedLabels (appendOpens : ℕ → Bool) (i : ℕ) (labels : List Name) : List Name :=
  ((labels.zipIdx i).filter fun x => appendOpens x.2).map Prod.fst

theorem openedLabels_sublist (appendOpens : ℕ → Bool) (i : ℕ) (labels : List Name) :
    (openedLabels appendOpens i labels).Sublist labels := by
  have hsublist := (List.filter_sublist (l := labels.zipIdx i)
    (p := fun x => appendOpens x.2)).map Prod.fst
  rwa [List.zipIdx_map_fst] at hsublist

theorem openedLabels_true (i : ℕ) (labels : List Name) :
    openedLabels (fun _ => true) i labels = labels := by
  rw [openedLabels, List.filter_true, List.zipIdx_map_fst]

/-- One label more. -/
theorem openedLabels_append (appendOpens : ℕ → Bool) (i : ℕ) (labels : List Name) (label : Name) :
    openedLabels appendOpens i (labels ++ [label]) =
      openedLabels appendOpens i labels ++
        if appendOpens (i + labels.length) then [label] else [] := by
  rw [openedLabels, List.zipIdx_append, List.filter_append, List.map_append, openedLabels]
  cases hopens : appendOpens (i + labels.length) <;> simp [hopens]

/-- The append of the next label, when those before it have been appended or have failed. -/
theorem metricNameAddToFile_openedLabels (appendOpens : ℕ → Bool) (label : Name)
    (done : List Name) :
    metricNameAddToFile (appendOpens done.length) label
        (namesFileOf (openedLabels appendOpens 0 (done.map metricProperty))) =
      namesFileOf (openedLabels appendOpens 0 ((done ++ [label]).map metricProperty)) := by
  rw [List.map_append, List.map_singleton, openedLabels_append, List.length_map, Nat.zero_add]
  cases hopens : appendOpens done.length with
  | true => exact metricNameAddToFile_namesFileOf label _
  | false =>
      rw [if_neg Bool.false_ne_true, List.append_nil]
      rfl

/-- On rank 0 the loop appends a line for each label for which the file opens. -/
theorem addAggregateCounters_openedLabels (appendOpens : ℕ → Bool) (metricName : Name) (i : ℕ)
    (names : List AggrgtCounterName) (lines : List Name) :
    (addAggregateCounters true appendOpens metricName i names (namesFileOf lines)).2 =
      namesFileOf (lines ++ openedLabels appendOpens i
        ((liveLabels names metricName).map metricProperty)) := by
  induction names generalizing i lines with
  | nil => simp [addAggregateCounters, liveLabels, openedLabels]
  | cons k ks ih =>
      cases hopens : appendOpens i with
      | true =>
          simp only [addAggregateCounters, if_true, hopens, metricNameAddToFile_namesFileOf, ih]
          simp [liveLabels, metricProperty, openedLabels, hopens]
      | false =>
          have hclosed : metricNameAddToFile false (ucxCounterLabel metricName k)
              (namesFileOf lines) = namesFileOf lines := rfl
          simp only [addAggregateCounters, if_true, hopens, hclosed, ih]
          simp [liveLabels, openedLabels, hopens]

/-- A process that is not rank 0 leaves the file alone. -/
theorem addAggregateCounters_not_root (appendOpens : ℕ → Bool) (metricName : Name) (i : ℕ)
    (names : List AggrgtCounterName) (file : Option Name) :
    (addAggregateCounters false appendOpens metricName i names file).2 = file := by
  induction names generalizing i with
  | nil => rfl
  | cons k ks ih => simp [addAggregateCounters, ih]

/-- The UCX properties of an enumeration with `countersList` read from the file, and the
file that it leaves. -/
def EnumeratesUcx (c : Context) (e : Environment) (metricName : Name) (r : Enumeration) :
    Option (List Name) → Prop
  | some countersList =>
      r.ucxProperties = countersList.map metricProperty ∧ r.namesFile = e.namesFile
  | none =>
      r.ucxProperties = (liveLabels e.counterNames metricName).map metricProperty ∧
        r.namesFile =
          if c.commRank = 0 then
            namesFileOf ((liveLabels e.counterNames metricName).map metricProperty)
          else none

/-- The labels of an enumeration that it writes to the names file. -/
def writtenLabels (c : Context) (e : Environment) (labels : List Name) : List Name :=
  if c.commRank = 0 then openedLabels e.appendOpens 0 labels else []

/-- The UCX part of an enumeration that finds no names file. -/
theorem ucxMetricProperties_fileless (c : Context) (metricName : Name) {e : Environment}
    {p : Plugin} (hen : p.ucxCountersCollectEnable ≠ 0) (hfile : e.namesFile = none) :
    ∃ r, ucxMetricProperties c e metricName p = .ok r ∧
      r.ucxProperties = (liveLabels e.counterNames metricName).map metricProperty ∧
      r.namesFile = namesFileOf (writtenLabels c e r.ucxProperties) := by
  have hread : metricNameReadCountersListFromFile e.namesFile = .ok none := by
    rw [hfile]
    rfl
  have hrank : ((aggregateStart c e p).withAggregate
      (ucxStatisticsAggregateCounterNamesGet e.counterNames
        (aggregateStart c e p).ucxSampling.aggregate).2.2).mpiRank = some c.commRank :=
    mpiRank_aggregateStart c e p
  have hproperties (isRoot : Bool) := addAggregateCounters_properties isRoot e.appendOpens
    metricName 0 e.counterNames e.namesFile
  simp only [ucxMetricProperties, if_pos hen, hread, bind, Except.bind]
  refine ⟨_, rfl, hproperties _, ?_⟩
  change (addAggregateCounters _ _ metricName 0 e.counterNames _).2 = namesFileOf
    (writtenLabels c e (addAggregateCounters _ _ metricName 0 e.counterNames _).1)
  rw [hproperties, hrank, hfile, writtenLabels]
  by_cases hroot : c.commRank = 0
  · simpa [hroot] using addAggregateCounters_openedLabels e.appendOpens metricName 0
      e.counterNames []
  · simpa [hroot] using addAggregateCounters_not_root e.appendOpens metricName 0
      e.counterNames none

theorem ucxMetricProperties_enumeratesUcx (c : Context) {e : Environment} {metricName : Name}
    {p : Plugin} (hen : p.ucxCountersCollectEnable ≠ 0) (happend : e.appendOpens = fun _ => true)
    {found : Option (List Name)}
    (hread : metricNameReadCountersListFromFile e.namesFile = .ok found) :
    ∃ r, ucxMetricProperties c e metricName p = .ok r ∧ EnumeratesUcx c e metricName r found := by
  cases found with
  | some countersList =>
      simp only [ucxMetricProperties, if_pos hen, hread, bind, Except.bind]
      exact ⟨_, rfl, rfl, rfl⟩
  | none =>
      obtain ⟨r, hr, hproperties, hwritten⟩ :=
        ucxMetricProperties_fileless c metricName hen (metricNameRead_eq_none hread)
      refine ⟨r, hr, hproperties, ?_⟩
      rw [hwritten, writtenLabels, happend, openedLabels_true, hproperties]
      split <;> rfl

/-- **One enumeration** of a UCX metric, as far as UCX and the file go. -/
theorem getMetricProperties_enumeratesUcx (c : Context) {e : Environment} {metricName : Name}
    {p : Plugin} (hucx : isUcxMetric metricName) (hen : p.ucxCountersCollectEnable ≠ 0)
    (happend : e.appendOpens = fun _ => true) {found : Option (List Name)}
    (hread : metricNameReadCountersListFromFile e.namesFile = .ok found) :
    ∃ r, getMetricProperties c e metricName p = .ok r ∧ EnumeratesUcx c e metricName r found := by
  obtain ⟨r, hr, hout⟩ := ucxMetricProperties_enumeratesUcx c
    (p := { p with ucxMetricName := metricName, nUcxCounters := ucxNumTemporaryCounters })
    hen happend hread
  refine ⟨addNicProperties c e metricName r, ?_, ?_⟩
  · rw [getMetricProperties_of_ucx hucx, hr]
    rfl
  · cases found <;> simpa [EnumeratesUcx] using hout

/-- What an enumeration has read, when it has come to its end, and what follows from it. -/
theorem getMetricProperties_reads {c : Context} {e : Environment} {metricName : Name} {p : Plugin}
    {r : Enumeration} (hucx : isUcxMetric metricName) (hen : p.ucxCountersCollectEnable ≠ 0)
    (hr : getMetricProperties c e metricName p = .ok r) :
    ∃ found, metricNameReadCountersListFromFile e.namesFile = .ok found ∧
      r.ucxProperties = (found.getD (liveLabels e.counterNames metricName)).map metricProperty ∧
      r.namesFile = match found with
        | some _ => e.namesFile
        | none => namesFileOf (writtenLabels c e r.ucxProperties) := by
  rw [getMetricProperties_of_ucx hucx] at hr
  cases hread : metricNameReadCountersListFromFile e.namesFile with
  | error f => simp [ucxMetricProperties, hen, hread, bind, Except.bind, Except.map] at hr
  | ok found =>
      refine ⟨found, rfl, ?_⟩
      cases found with
      | some countersList =>
          simp only [ucxMetricProperties, if_pos hen, hread, bind, Except.bind, Except.map] at hr
          have heq := Except.ok.inj hr
          subst heq
          simp
      | none =>
          obtain ⟨r', hr', hproperties, hwritten⟩ := ucxMetricProperties_fileless c metricName
            (p := { p with ucxMetricName := metricName, nUcxCounters := ucxNumTemporaryCounters })
            hen (metricNameRead_eq_none hread)
          rw [hr'] at hr
          have heq := Except.ok.inj hr
          subst heq
          rw [ucxProperties_addNicProperties, namesFile_addNicProperties]
          exact ⟨hproperties, hwritten⟩

/-- Labels that fit a line are properties as they are. -/
theorem map_metricProperty_of_fits {labels : List Name} (h : ∀ label ∈ labels, FitsLine label) :
    labels.map metricProperty = labels := by
  refine List.map_congr_left (g := id) ?_ |>.trans (List.map_id labels)
  exact fun label hl => cStr_of_nul_notMem (h label hl).nul_notMem

/-! ## Enumerations that share the file -/

/-- An enumeration of the UCX metric `metricName` with UCX collection enabled: the plugin
that makes it, in whatever state its process has brought it to, and what it finds beside
the names file. `names` is the list of the aggregate API. -/
structure Visit (names : List AggrgtCounterName) where
  plugin : Plugin
  collects : plugin.ucxCountersCollectEnable ≠ 0
  environment : Environment
  metricName : Name
  isUcx : isUcxMetric metricName
  fits : ∀ label ∈ liveLabels names metricName, FitsLine label

variable {names : List AggrgtCounterName}

/-- The labels that the live path builds for a visit. -/
def Visit.labels (v : Visit names) : List Name := liveLabels names v.metricName

/-- What a visit finds: the file, the list of names, and appends that succeed. -/
def Visit.found (file : Option Name) (v : Visit names) : Environment :=
  { v.environment with namesFile := file, counterNames := names, appendOpens := fun _ => true }

/-- The call that a visit makes. -/
def Visit.call (c : Context) (file : Option Name) (v : Visit names) : Except Failure Enumeration :=
  getMetricProperties c (v.found file) v.metricName v.plugin

/-- The file after a visit. -/
def visitFile (c : Context) (file : Option Name) (v : Visit names) : Option Name :=
  match v.call c file with
  | .ok r => r.namesFile
  | .error _ => file

/-- A visit returns the UCX properties that the live path builds. -/
def AgreesWithLive (c : Context) (x : Option Name × Visit names) : Prop :=
  ∃ r, x.2.call c x.1 = .ok r ∧ r.ucxProperties = x.2.labels

/-- The file stores a cell: none until the first visit, then its labels. A list without
labels leaves no file. -/
def Stores (names : List AggrgtCounterName) (file : Option Name) (cell : Option (List Name)) :
    Prop :=
  file = namesFileOf (cell.getD []) ∧
    ∀ labels ∈ cell, labels.length = names.length ∧ ∀ label ∈ labels, FitsLine label

theorem stores_none (names : List AggrgtCounterName) : Stores names none none :=
  ⟨rfl, by simp⟩

/-- **One visit**: it returns what the cell answers, and the file stores the cell
afterwards. -/
theorem ucxProperties_stores (nicCountersEnable : Bool) {file : Option Name}
    {cell : Option (List Name)} (h : Stores names file cell) (v : Visit names) :
    ∃ r, v.call ⟨nicCountersEnable, 0⟩ file = .ok r ∧
      r.ucxProperties = WriteOnce.answer Visit.labels cell v ∧
      Stores names r.namesFile (WriteOnce.visit Visit.labels cell v) := by
  rcases h with ⟨hfile, hcell⟩
  have hlines : ∀ line ∈ cell.getD [], FitsLine line := by
    cases cell with
    | none => simp
    | some labels => exact (hcell labels rfl).2
  have hread : metricNameReadCountersListFromFile (v.found file).namesFile =
      .ok (if cell.getD [] = [] then none else some (cell.getD [])) := by
    rw [← metricNameRead_namesFileOf hlines, ← hfile]
    rfl
  obtain ⟨r, hr, hout⟩ :=
    getMetricProperties_enumeratesUcx ⟨nicCountersEnable, 0⟩ v.isUcx v.collects rfl hread
  have hanswer : r.ucxProperties = WriteOnce.answer Visit.labels cell v ∧
      r.namesFile = namesFileOf (WriteOnce.answer Visit.labels cell v) := by
    by_cases hnil : cell.getD [] = []
    · have hlive : WriteOnce.answer Visit.labels cell v = v.labels := by
        cases cell with
        | none => rfl
        | some labels =>
            -- Without labels in the cell there are none in the live path either.
            have hlen := (hcell labels rfl).1
            rw [show labels = [] from hnil] at hlen
            have hnone : names = [] := List.length_eq_zero_iff.mp hlen.symm
            subst hnone
            exact hnil
      rw [if_pos hnil] at hout
      rw [hlive, Visit.labels, ← map_metricProperty_of_fits v.fits]
      exact hout
    · have hsame : WriteOnce.answer Visit.labels cell v = cell.getD [] := by
        cases cell with
        | none => exact absurd rfl hnil
        | some labels => rfl
      rw [if_neg hnil] at hout
      rw [hsame, ← hfile, ← map_metricProperty_of_fits hlines]
      exact hout
  refine ⟨r, hr, hanswer.1, hanswer.2, ?_⟩
  rintro labels ⟨⟩
  cases cell with
  | none => exact ⟨by simp [Visit.labels, liveLabels], v.fits⟩
  | some labels => exact hcell labels rfl

/-- A visit agrees with the live path exactly when the cell answers with its labels. -/
theorem agreesWithLive_iff_answer (nicCountersEnable : Bool) {file : Option Name}
    {cell : Option (List Name)} (h : Stores names file cell) (v : Visit names) :
    AgreesWithLive ⟨nicCountersEnable, 0⟩ (file, v) ↔
      WriteOnce.answer Visit.labels cell v = v.labels := by
  rcases ucxProperties_stores nicCountersEnable h v with ⟨r, hr, hanswer, _⟩
  constructor
  · intro h
    rcases h with ⟨r', hr', hlive⟩
    obtain rfl : r = r' := Except.ok.inj (hr.symm.trans hr')
    exact hanswer.symm.trans hlive
  · intro hlive
    exact ⟨r, hr, hanswer.trans hlive⟩

theorem stores_visitFile (nicCountersEnable : Bool) {file : Option Name}
    {cell : Option (List Name)} (h : Stores names file cell) (v : Visit names) :
    Stores names (visitFile ⟨nicCountersEnable, 0⟩ file v)
      (WriteOnce.visit Visit.labels cell v) := by
  rcases ucxProperties_stores nicCountersEnable h v with ⟨r, hr, _, hstores⟩
  rw [visitFile, hr]
  exact hstores

/-- The label of a counter tells the metric name. -/
theorem ucxCounterLabel_injective (k : AggrgtCounterName) :
    Function.Injective (ucxCounterLabel · k) := by
  intro m n h
  simpa [ucxCounterLabel] using h

theorem labels_eq_iff (v w : Visit names) :
    v.labels = w.labels ↔ names = [] ∨ v.metricName = w.metricName := by
  constructor
  · intro h
    cases names with
    | nil => exact .inl rfl
    | cons k ks =>
        have hlabel : ucxCounterLabel v.metricName k = ucxCounterLabel w.metricName k := by
          simp only [Visit.labels, liveLabels, List.map_cons, List.cons.injEq] at h
          exact h.1
        exact .inr (ucxCounterLabel_injective k hlabel)
  · rintro (rfl | h)
    · rfl
    · simp [Visit.labels, h]

/-- **The cached path agrees with the live path** in a sequence of enumerations that starts
without a file exactly when there are no UCX counters or the metric names are all equal. -/
theorem agreesWithLive_iff (nicCountersEnable : Bool) (names : List AggrgtCounterName)
    (visits : List (Visit names)) :
    (∀ x ∈ Run.trace (visitFile ⟨nicCountersEnable, 0⟩) none visits,
        AgreesWithLive ⟨nicCountersEnable, 0⟩ x) ↔
      names = [] ∨ ∀ v ∈ visits, ∀ w ∈ visits, v.metricName = w.metricName := by
  have hcell : (∀ x ∈ Run.trace (visitFile ⟨nicCountersEnable, 0⟩) none visits,
      AgreesWithLive ⟨nicCountersEnable, 0⟩ x) ↔
      ∀ x ∈ Run.trace (WriteOnce.visit Visit.labels) none visits,
        WriteOnce.answer Visit.labels x.1 x.2 = x.2.labels := by
    refine Run.trace_forall_iff (Stores names) ?_ ?_ (stores_none names) visits
    · exact fun file cell v h => stores_visitFile nicCountersEnable h v
    · exact fun file cell v h => agreesWithLive_iff_answer nicCountersEnable h v
  rw [hcell, WriteOnce.forall_answer_eq_iff]
  simp only [labels_eq_iff]
  by_cases hnil : names = [] <;> simp [hnil]

/-- The visit of a fresh process, for a list with one counter. -/
def oneCounterVisit (metricName : Name) (isUcx : isUcxMetric metricName)
    (fits : FitsLine (ucxCounterLabel metricName ⟨"class".toList, "tx".toList⟩)) :
    Visit [⟨"class".toList, "tx".toList⟩] where
  plugin := .init 1 0 false []
  collects := by decide
  environment := .bare
  metricName := metricName
  isUcx := isUcx
  fits := by simpa [liveLabels] using fits

/-- The second of two processes asks for another metric and gets the label of the first. -/
theorem second_metric_cached :
    ¬ ∀ x ∈ Run.trace (visitFile ⟨false, 0⟩) none
        [oneCounterVisit "UCX@1".toList (by decide) ⟨by decide, by decide, by decide⟩,
          oneCounterVisit "UCX@2".toList (by decide) ⟨by decide, by decide, by decide⟩],
      AgreesWithLive ⟨false, 0⟩ x := by
  intro hall
  obtain ⟨r, hr, hlive⟩ := hall _ (List.mem_cons_of_mem _ List.mem_cons_self)
  obtain rfl := Except.ok.inj hr
  exact absurd hlive (by decide)

end ScorepPluginUcx
