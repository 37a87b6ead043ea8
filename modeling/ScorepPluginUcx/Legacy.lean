import ScorepPluginUcx.Lib.Collective
import ScorepPluginUcx.Plugin
import ScorepPluginUcx.Sampling.CurrentValue
import ScorepPluginUcx.Serialize

/-!
# The legacy enumeration

`ucx_statistics_enumerate_legacy` runs on every rank of the communicator. Rank 0 samples the
counters and broadcasts the length of the list, the size of the buffer with the names and the
buffer; the other ranks take another branch of the function, with collective operations of
its own.

## Main definitions

* `LegacyState`: what one rank keeps.
* `enumerateLegacy`: the program of a rank.
* `legacyHistory`: what the ranks tell each other.

## Main results

* `exists_replays_root`, `exists_replays_receiver`: every rank goes through against this history.
* `enumerateLegacy_agrees`: in every run the ranks agree.
-/

namespace ScorepPluginUcx

open Collective

/-- `MPI_LONG_LONG` and `MPI_CHAR`. -/
inductive Datatype where
  | longLong
  | char
  deriving DecidableEq

/-- The count and the datatype in a call of `MPI_Bcast`. -/
structure BcastArgs where
  count : ℤ
  datatype : Datatype
  deriving DecidableEq

/-- What a broadcast delivers. -/
inductive Payload where
  | longLong (x : ℕ)
  | char (bytes : Memory)

/-- The fields of the plugin that `ucx_statistics_enumerate_legacy` uses, and its variables. -/
structure LegacyState where
  ucxSampling : UcxSampling
  sampling : CountersSampling
  ucxCountersList : List ScorepCounterData
  metricNames : Memory
  nUcxCounters : ℕ
  data₀ : ℕ
  data₁ : ℕ
  metricNamesSize : ℕ

/-- The instructions of a rank. -/
abbrev LegacyInstr (n : ℕ) := Instr (Fin (n + 1)) LegacyState BcastArgs Payload

section Programs

variable {n : ℕ}

/-- `MPI_Bcast` of one `MPI_LONG_LONG` from rank 0. -/
def bcastLongLong (get : LegacyState → ℕ) (put : ℕ → LegacyState → LegacyState) :
    List (LegacyInstr n) :=
  bcast 0 (fun _ => ⟨1, .longLong⟩) (fun s => .longLong (get s)) fun payload s =>
    match payload with
    | .longLong x => put x s
    | .char _ => s

/-- `MPI_Bcast` of `data[0]`. -/
def bcastData₀ : List (LegacyInstr n) :=
  bcastLongLong LegacyState.data₀ fun x s => { s with data₀ := x }

/-- `MPI_Bcast` of `data[1]`. -/
def bcastData₁ : List (LegacyInstr n) :=
  bcastLongLong LegacyState.data₁ fun x s => { s with data₁ := x }

/-- `MPI_Bcast` of `m_metric_names`. The size becomes an `int`. -/
def bcastMetricNames : List (LegacyInstr n) :=
  bcast 0 (fun s => ⟨int32 s.metricNamesSize, .char⟩)
    (fun s => .char (s.metricNames.take (int32 s.metricNamesSize).toNat)) fun payload s =>
      match payload with
      | .longLong _ => s
      | .char bytes => { s with metricNames := bytes ++ s.metricNames.drop bytes.length }

/-- The branch of rank 0; `stats` is what its server has got when it samples. -/
def enumerateLegacyRoot (stats : List StatsRoot) (serverStartOk : Bool) : List (LegacyInstr n) :=
  [.compute fun s =>
      some { s with ucxSampling := (ucxStatisticsServerStart serverStartOk s.ucxSampling).2 },
    .compute fun s =>
      (ucxStatisticsCurrentValueGet stats 0 s.sampling s.ucxCountersList).map fun r =>
        { s with sampling := r.sampling, ucxCountersList := r.list }] ++
  (barrier ++
  ([.compute fun s =>
      (metricsNamesSerialize s.ucxCountersList).map fun x =>
        { s with metricNames := x.names, metricNamesSize := x.size },
    .compute fun s => some { s with data₀ := sizeT s.ucxCountersList.length }] ++
  (bcastData₀ ++
  ([.compute fun s => some { s with data₁ := s.metricNamesSize }] ++
  (bcastData₁ ++ bcastMetricNames)))))

/-- The branch of the other ranks. -/
def enumerateLegacyReceiver : List (LegacyInstr n) :=
  barrier ++
  (bcastData₀ ++
  (bcastData₁ ++
  ([.compute fun s => some { s with metricNamesSize := s.data₁ },
    .compute fun s => some { s with metricNames := malloc s.metricNamesSize }] ++
  bcastMetricNames)))

/-- The end of the function: `m_n_ucx_counters`, which a `dummy` other than 1 limits. -/
def limitCounters (dummy : ℕ) : List (LegacyInstr n) :=
  [.compute fun s =>
    some { s with nUcxCounters := if dummy ≠ 1 then min s.data₀ dummy else s.data₀ }]

/-- `ucx_statistics_enumerate_legacy`. -/
def enumerateLegacy (stats : List StatsRoot) (serverStartOk : Bool) (dummy : ℕ)
    (mpiRank : Fin (n + 1)) : List (LegacyInstr n) :=
  (if mpiRank = 0 then enumerateLegacyRoot stats serverStartOk else enumerateLegacyReceiver) ++
    limitCounters dummy

/-- What the ranks tell each other when the list of rank 0 is `list`. -/
def legacyHistory (list : List ScorepCounterData) : List (Event (Fin (n + 1)) BcastArgs Payload) :=
  [⟨.barrier, none⟩,
    ⟨.bcast 0 ⟨1, .longLong⟩, some (.longLong list.length)⟩,
    ⟨.bcast 0 ⟨1, .longLong⟩, some (.longLong (namesText list).length)⟩,
    ⟨.bcast 0 ⟨(namesText list).length, .char⟩, some (.char ((namesText list).map some))⟩]

/-- The collective operations of a rank. -/
def legacyCollectives (list : List ScorepCounterData) : List (Op (Fin (n + 1)) BcastArgs) :=
  [.barrier, .bcast 0 ⟨1, .longLong⟩, .bcast 0 ⟨1, .longLong⟩,
    .bcast 0 ⟨(namesText list).length, .char⟩]

/-- A rank has got the names of `list`, and their number up to the limit. -/
structure HasNames (dummy : ℕ) (list : List ScorepCounterData) (s : LegacyState) : Prop where
  metricNames : s.metricNames = (namesText list).map some
  nUcxCounters : s.nUcxCounters = if dummy ≠ 1 then min list.length dummy else list.length

end Programs

/-! ## One rank against the history -/

section Ranks

variable {n : ℕ} {stats : List StatsRoot} {serverStartOk : Bool} {dummy : ℕ}
  {list : List ScorepCounterData}

section Steps

variable {history : List (Event (Fin (n + 1)) BcastArgs Payload)} {rank : Fin (n + 1)} {k : ℕ}
  {rest : List (LegacyInstr n)} {s t : LegacyState} {get : LegacyState → ℕ}
  {put : ℕ → LegacyState → LegacyState}

theorem replays_sendLongLong
    (hevent : history[k]? = some ⟨.bcast 0 ⟨1, .longLong⟩, some (.longLong (get s))⟩)
    (hrest : Replays history 0 (k + 1) rest s t) :
    Replays history 0 k (bcastLongLong get put ++ rest) s t :=
  replays_bcast_root hevent hrest

theorem replays_receiveLongLong (hrank : rank ≠ 0) {x : ℕ}
    (hevent : history[k]? = some ⟨.bcast 0 ⟨1, .longLong⟩, some (.longLong x)⟩)
    (hrest : Replays history rank (k + 1) rest (put x s) t) :
    Replays history rank k (bcastLongLong get put ++ rest) s t :=
  replays_bcast (Ne.symm hrank) hevent hrest

theorem replays_receiveNames (hrank : rank ≠ 0) {bytes : Memory}
    (hevent : history[k]? = some ⟨.bcast 0 ⟨int32 s.metricNamesSize, .char⟩, some (.char bytes)⟩)
    (hrest : Replays history rank (k + 1) rest
      { s with metricNames := bytes ++ s.metricNames.drop bytes.length } t) :
    Replays history rank k (bcastMetricNames ++ rest) s t :=
  replays_bcast (Ne.symm hrank) hevent hrest

end Steps

/-- **Rank 0** goes through against the history that it makes. -/
theorem exists_replays_root {s : LegacyState} {r : CurrentValue}
    (hget : ucxStatisticsCurrentValueGet stats 0 s.sampling s.ucxCountersList = some r)
    (hsize : (namesText r.list).length < 2 ^ 31) :
    ∃ t, Replays (legacyHistory r.list) (0 : Fin (n + 1)) 0
      (enumerateLegacy stats serverStartOk dummy 0) s t ∧ HasNames dummy r.list t := by
  have hserialize : metricsNamesSerialize r.list = some
      ⟨(namesText r.list).map some, (namesText r.list).length,
        List.range (namesText r.list).length⟩ := metricsNamesSerialize_eq (by omega)
  have hlength : sizeT r.list.length = r.list.length := by
    have hle := length_le_length_namesText r.list
    exact sizeT_natCast (by omega)
  -- The states at the barrier, before the broadcasts, and at the end.
  let s₁ : LegacyState :=
    { s with
      ucxSampling := (ucxStatisticsServerStart serverStartOk s.ucxSampling).2
      sampling := r.sampling
      ucxCountersList := r.list }
  let s₂ : LegacyState :=
    { s₁ with
      metricNames := (namesText r.list).map some
      metricNamesSize := (namesText r.list).length
      data₀ := r.list.length }
  let s₃ : LegacyState := { s₂ with data₁ := (namesText r.list).length }
  let t : LegacyState :=
    { s₃ with nUcxCounters := if dummy ≠ 1 then min r.list.length dummy else r.list.length }
  have hend : Replays (legacyHistory r.list) (0 : Fin (n + 1)) 4 (limitCounters dummy) s₃ t :=
    .compute rfl (.done t)
  have hnames : Replays (legacyHistory r.list) (0 : Fin (n + 1)) 3
      (bcastMetricNames ++ limitCounters dummy) s₃ t := by
    refine replays_bcast_root ?_ hend
    simp [legacyHistory, s₃, s₂, int32_of_lt hsize]
  have hdata : Replays (legacyHistory r.list) (0 : Fin (n + 1)) 1
      (bcastData₀ ++ (.compute (fun s => some { s with data₁ := s.metricNamesSize }) ::
        (bcastData₁ ++ (bcastMetricNames ++ limitCounters dummy)))) s₂ t :=
    replays_sendLongLong rfl (.compute rfl (replays_sendLongLong rfl hnames))
  refine ⟨t, ?_, ⟨rfl, rfl⟩⟩
  rw [enumerateLegacy, if_pos rfl, enumerateLegacyRoot]
  simp only [List.append_assoc, List.cons_append, List.nil_append]
  refine .compute rfl (.compute (by rw [hget]; rfl) (replays_barrier rfl ?_))
  exact .compute (by rw [hserialize]; rfl) (.compute (by rw [hlength]) hdata)

/-- **The other ranks** go through against the history of rank 0. -/
theorem exists_replays_receiver (hsize : (namesText list).length < 2 ^ 31) {rank : Fin (n + 1)}
    (hrank : rank ≠ 0) (s : LegacyState) :
    ∃ t, Replays (legacyHistory list) rank 0
      (enumerateLegacy stats serverStartOk dummy rank) s t ∧ HasNames dummy list t := by
  -- The states before the names come, when they have come, and at the end.
  let s₁ : LegacyState :=
    { s with
      data₀ := list.length
      data₁ := (namesText list).length
      metricNamesSize := (namesText list).length
      metricNames := malloc (namesText list).length }
  let s₂ : LegacyState := { s₁ with metricNames := (namesText list).map some }
  let t : LegacyState :=
    { s₂ with nUcxCounters := if dummy ≠ 1 then min list.length dummy else list.length }
  have hend : Replays (legacyHistory list) rank 4 (limitCounters dummy) s₂ t :=
    .compute rfl (.done t)
  have hfilled : { s₁ with
      metricNames := (namesText list).map some ++
        s₁.metricNames.drop ((namesText list).map some).length } = s₂ := by
    simp [s₁, s₂, malloc]
  have hnames : Replays (legacyHistory list) rank 3
      (bcastMetricNames ++ limitCounters dummy) s₁ t := by
    refine replays_receiveNames hrank ?_ (hfilled.symm ▸ hend)
    simp [legacyHistory, s₁, int32_of_lt hsize]
  refine ⟨t, ?_, ⟨rfl, rfl⟩⟩
  rw [enumerateLegacy, if_neg hrank, enumerateLegacyReceiver]
  simp only [List.append_assoc, List.cons_append, List.nil_append]
  exact replays_barrier rfl (replays_receiveLongLong hrank rfl (replays_receiveLongLong hrank rfl
    (.compute rfl (.compute rfl hnames))))

end Ranks

/-! ## All ranks -/

/-- At the end of the function a rank has gone through all collective operations; the names in
its buffer are those of `list`, and `m_n_ucx_counters` is their number up to the limit. -/
structure LegacyAgreement {n : ℕ} (dummy : ℕ) (list : List ScorepCounterData)
    (p : Process (Fin (n + 1)) LegacyState BcastArgs Payload) : Prop where
  entered : p.entered.map Event.op = legacyCollectives list
  names : ∃ text, p.state.metricNames = text.map some ∧
    cutAtNul text = list.map ScorepCounterData.name
  nUcxCounters : p.state.nUcxCounters =
    if dummy = 1 then list.length else min list.length dummy
  le : p.state.nUcxCounters ≤ list.length

/-- **The ranks agree**, for every number of ranks, every list of rank 0 whose names fit into
one broadcast, and every order of the steps. `waits` says how much longer than it has to an
operation keeps a rank. -/
theorem enumerateLegacy_agrees {n : ℕ} {stats : List StatsRoot} {serverStartOk : Bool}
    {dummy : ℕ} {init : Fin (n + 1) → LegacyState} {r : CurrentValue}
    (hget : ucxStatisticsCurrentValueGet stats 0 (init 0).sampling (init 0).ucxCountersList =
      some r)
    (hnul : ∀ e ∈ r.list, '\x00' ∉ e.name) (hsize : (namesText r.list).length < 2 ^ 31)
    (waits : ℕ → Fin (n + 1) → Fin (n + 1) → Bool) :
    (∃ x, metricsNamesSerialize r.list = some x ∧ x.names.length = x.size ∧
      x.writes = List.range x.size) ∧
    (∀ (schedule : List (Fin (n + 1))) (rank : Fin (n + 1)),
      let p := Run.final (step waits)
        (start (enumerateLegacy stats serverStartOk dummy) init) schedule rank
      p.entered.map Event.op <+: legacyCollectives r.list ∧
        (p.rest = [] → LegacyAgreement dummy r.list p)) ∧
    (∀ schedule : ℕ → Fin (n + 1), (∀ rank m, ∃ m', m ≤ m' ∧ schedule m' = rank) →
      ∃ m, ∀ rank, (Run.final (step waits)
        (start (enumerateLegacy stats serverStartOk dummy) init)
        (Fairness.firstSteps schedule m) rank).rest = []) := by
  have hranks : ∀ rank : Fin (n + 1), ∃ t, Replays (legacyHistory r.list) rank 0
      (enumerateLegacy stats serverStartOk dummy rank) (init rank) t ∧
        HasNames dummy r.list t := by
    intro rank
    by_cases hrank : rank = 0
    · subst hrank
      exact exists_replays_root hget hsize
    · exact exists_replays_receiver hsize hrank _
  choose final hreplays hnames using hranks
  refine ⟨?_, ?_, exists_finished waits hreplays⟩
  · exact ⟨_, metricsNamesSerialize_eq (by omega), by rw [List.length_map], rfl⟩
  · intro schedule rank p
    have hfollows : Follows (legacyHistory r.list) rank (final rank) p :=
      follows_final waits hreplays schedule rank
    refine ⟨hfollows.map_op_prefix, ?_⟩
    intro hrest
    obtain ⟨hstate, hlength⟩ := hfollows.of_rest_eq_nil hrest
    obtain ⟨hmetric, hcounters⟩ := hnames rank
    rw [← hstate] at hmetric hcounters
    have hall : (p.entered.map Event.op).length =
        ((legacyHistory (n := n) r.list).map Event.op).length := by
      rw [List.length_map, List.length_map, hlength]
    have hlist : counterNames r.list = r.list.map ScorepCounterData.name :=
      List.map_congr_left fun e he => cStr_of_nul_notMem (hnul e he)
    refine ⟨hfollows.map_op_prefix.eq_of_length hall, ⟨_, hmetric, ?_⟩, ?_, ?_⟩
    · rw [cutAtNul_namesText, hlist]
    · rw [hcounters]
      by_cases hdummy : dummy = 1
      · rw [if_neg (not_not_intro hdummy), if_pos hdummy]
      · rw [if_pos hdummy, if_neg hdummy]
    · rw [hcounters]
      split
      · exact Nat.min_le_left _ _
      · exact Nat.le_refl _

/-- A rank when its process has just started. -/
def LegacyState.init : LegacyState where
  ucxSampling := ⟨false, .init, .init false [], 0⟩
  sampling := .init
  ucxCountersList := []
  metricNames := []
  nUcxCounters := 0
  data₀ := 0
  data₁ := 0
  metricNamesSize := 0

/-- A report of two counters. -/
def twoCounterReport : StatsRoot where
  node := ⟨"root".toList, []⟩
  children := .node ⟨"ep".toList, [⟨"tx".toList, 1⟩, ⟨"rx".toList, 2⟩]⟩ .nil .nil

/-- Two ranks that have just started and no limit: rank 0 runs to its barrier, where it has found
two counters, and then each of them to its end. -/
theorem enumerateLegacy_agrees_two :
    ∃ r, ucxStatisticsCurrentValueGet [twoCounterReport] 0 .init [] = some r ∧
      r.list.length = 2 ∧
      LegacyAgreement 1 r.list (Run.final (step fun _ _ _ => false)
        (start (enumerateLegacy [twoCounterReport] true 1) fun _ => .init)
        (List.replicate 3 0 ++ 1 :: (List.replicate 11 0 ++ List.replicate 10 1)) (1 : Fin 2)) := by
  obtain ⟨r, hget, hlength, hnul, hsize⟩ : ∃ r, ucxStatisticsCurrentValueGet [twoCounterReport] 0
      .init [] = some r ∧ r.list.length = 2 ∧ (∀ e ∈ r.list, '\x00' ∉ e.name) ∧
      (namesText r.list).length < 2 ^ 31 := ⟨_, rfl, by decide, by decide, by decide⟩
  have hranks := @enumerateLegacy_agrees 1 [twoCounterReport] true 1 (fun _ => .init) r hget hnul
    hsize fun _ _ _ => false
  exact ⟨r, hget, hlength, (hranks.2.1 _ 1).2 rfl⟩

end ScorepPluginUcx
