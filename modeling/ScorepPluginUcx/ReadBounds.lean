import ScorepPluginUcx.NicSession

/-!
# The bounds of a read

A read compares its id, an `int32_t`, with a `size_t`, and takes what is left of it for an index
into the data of the NIC. The array of UCX counters is never left this way, for any id. The data
of the NIC is, when the index is not among the counters of the latest query.

## Main results

* `readUcx_isSome`: a read of the UCX array.
* `read_outOfBounds_iff`: the reads, in every run, that leave a table.
-/

namespace ScorepPluginUcx

/-- An id that is below the size of an answer is an index into the array. -/
theorem uint32_lt_of_sizeT_lt {id : ℤ} {n : ℕ} (h : sizeT id < n)
    (hn : n ≤ aggregateSumNumCountersMax) : uint32 id < aggregateSumNumCountersMax := by
  rw [aggregateSumNumCountersMax] at hn ⊢
  rw [sizeT] at h
  rw [uint32]
  omega

/-- A read of the UCX array is in its bounds. -/
theorem readUcx_isSome (e : Environment) {index : ℕ} (hindex : index < aggregateSumNumCountersMax)
    (p : Plugin) : (readFrom e (.ucx index) p).1.isSome := by
  have hcells : ∀ a : AggregateCounters, (a.cells[index]?).isSome := by
    intro a
    rw [Option.isSome_iff_ne_none, ne_eq, List.getElem?_eq_none_iff, a.length_eq]
    omega
  rw [readFrom]
  by_cases hzero : index = 0
  · subst hzero
    rw [ucxStatisticsAggregateCounterGet_zero]
    exact hcells _
  · rw [ucxStatisticsAggregateCounterGet_of_ne _ hzero]
    exact hcells _

theorem nicCountersInitialized_update (device : List RawCounter) (s : NicCounters) :
    (nicCountersUpdate device s).2.nicCountersInitialized = s.nicCountersInitialized := by
  rw [nicCountersUpdate]
  split <;> rfl

/-- No call changes whether there is a device. -/
theorem nicCountersInitialized_step (s : NicCounters) (call : NicCall) :
    (s.step call).nicCountersInitialized = s.nicCountersInitialized := by
  obtain ⟨op, device⟩ := call
  cases op with
  | nicCountersAggregate => exact nicCountersInitialized_update device s
  | nicCounterValueGet index =>
      by_cases hindex : index = 0
      · subst hindex
        simp only [NicCounters.step, nicCounterValueGet, if_true]
        split
        · split
          · exact nicCountersInitialized_update device s
          · rfl
        · rfl
      · exact congrArg _ (nicCounterValueGet_of_ne device hindex)

/-- Without a device a NIC counter is 0. -/
theorem nicCounterValueGet_of_not_ready (device : List RawCounter) (index : ℕ) {s : NicCounters}
    (hready : s.nicCountersInitialized = false) :
    (nicCounterValueGet device index s).1 = some 0 := by
  simp [nicCounterValueGet, hready]

/-- The NIC side of a run has a device exactly when the process started with one. -/
theorem nicCountersInitialized_final (c : Context)
    (ucxCountersCollectEnable nicCountersCollectEnable : ℤ) (nicCountersInitialized : Bool)
    (handle : List RawCounter) (calls : List Call) :
    (Run.final (Plugin.step c) (.init ucxCountersCollectEnable nicCountersCollectEnable
      nicCountersInitialized handle) calls).nic.nicCountersInitialized =
        nicCountersInitialized := by
  rw [nic_final]
  apply Run.final_invariant fun s : NicCounters => s.nicCountersInitialized = nicCountersInitialized
  · intro s call _ h
    exact (nicCountersInitialized_step s call).trans h
  · rfl

/-- **A read leaves its table** exactly when there is a device, the answer that the plugin holds
has no counter for the id, and what is left of the id is no index into what the latest query has
stored. So it never does in a build without NIC counters, or for a UCX counter. -/
theorem read_outOfBounds_iff (c : Context)
    (ucxCountersCollectEnable nicCountersCollectEnable : ℤ) (nicCountersInitialized : Bool)
    (handle : List RawCounter) (before : List Call) (e : Environment) (id : ℤ) :
    let init := Plugin.init ucxCountersCollectEnable nicCountersCollectEnable
      nicCountersInitialized handle
    (currentValueGet c e id (Run.final (Plugin.step c) init before)).1 = none ↔
      c.nicCountersEnable ∧ nicCountersInitialized ∧
        ∃ r, answerAtRead (Run.final (answerAfter (ucxCountersCollectEnable ≠ 0)) none before) e =
            some r ∧ r.size ≤ sizeT id ∧
          ((latestQuery (nicCalls c init (before ++ [.currentValueGet e id]))).getD handle).length ≤
            uint32 (sizeT (id - r.size)) := by
  intro init
  have htracks := Run.final_related (Plugin.Tracks (ucxCountersCollectEnable ≠ 0))
    (fun _ _ call h => h.step c call)
    (Plugin.tracks_init ucxCountersCollectEnable nicCountersCollectEnable nicCountersInitialized
      handle) before
  have hready := nicCountersInitialized_final c ucxCountersCollectEnable nicCountersCollectEnable
    nicCountersInitialized handle before
  have hsource := readSource_of_holds htracks.1 c e id
  cases hheld : answerAtRead (Run.final (answerAfter (ucxCountersCollectEnable ≠ 0)) none before)
      e with
  | none =>
      rw [hheld] at hsource
      rw [currentValueGet_eq_readFrom, hsource]
      simp [readFrom]
  | some r =>
      rw [hheld] at hsource
      by_cases hlt : sizeT id < r.size
      · -- A counter of UCX.
        have hsome := readUcx_isSome e (uint32_lt_of_sizeT_lt hlt r.size_le)
          (noticeMpi c e (Run.final (Plugin.step c) init before))
        simp only [if_pos hlt] at hsource
        rw [currentValueGet_eq_readFrom, hsource]
        refine iff_of_false (Option.isSome_iff_ne_none.mp hsome) ?_
        rintro ⟨_, _, a, ha, hle, _⟩
        have heq : r = a := by simpa using ha
        subst heq
        omega
      · simp only [if_neg hlt] at hsource
        by_cases hbuild : c.nicCountersEnable = true
        · rw [if_pos hbuild] at hsource
          cases nicCountersInitialized with
          | true =>
              rw [nicCalls_append_read hsource, value_of_nic (nic_final c init before) hsource,
                Option.map_eq_none_iff, List.getElem?_eq_none_iff]
              constructor
              · exact fun hle => ⟨hbuild, rfl, r, rfl, Nat.not_lt.mp hlt, hle⟩
              · rintro ⟨_, _, a, ha, _, hle⟩
                have heq : r = a := by simpa using ha
                subst heq
                exact hle
          | false =>
              rw [← nic_noticeMpi c e] at hready
              have hvalue := nicCounterValueGet_of_not_ready e.device
                (uint32 (sizeT (id - r.size))) hready
              rw [currentValueGet_eq_readFrom, hsource]
              refine iff_of_false ?_ fun h => Bool.false_ne_true h.2.1
              exact fun hnone => Option.some_ne_none 0 (hvalue.symm.trans hnone)
        · rw [if_neg hbuild] at hsource
          rw [currentValueGet_eq_readFrom, hsource]
          simp [readFrom, hbuild]

end ScorepPluginUcx
