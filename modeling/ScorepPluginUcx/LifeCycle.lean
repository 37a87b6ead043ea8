import ScorepPluginUcx.Lib.Run
import ScorepPluginUcx.Sampling.CurrentValue

/-!
# The life cycle of the sampled counters

One list of counters goes through the calls of `ucx_statistics_current_value_get`. The history
of a run is kept beside the sampler: how many calls there were, which trees were scanned, and
what the last call for every index has returned. `Matches` says that the list is a cache of
the history, and every call keeps it.

## Main definitions

* `SampleHistory`: the sampler, the list and the history.
* `LifeCycleStep`: what one call does in terms of the history.

## Main results

* `SampleHistory.call_spec`: one call.
* `lifeCycle`: every run.
-/

namespace ScorepPluginUcx

/-- One call: its index, and the reports that the server has got when the call scans. -/
structure SampleCall where
  index : ℕ
  root : StatsRoot
  roots : List StatsRoot

/-- A run so far: the sampler and the list, the number of calls, the counters of the scanned
trees, the latest tree first, and the value that the last call for an index has returned. -/
structure SampleHistory where
  sampling : CountersSampling
  list : List ScorepCounterData
  calls : ℕ
  scanned : List (List StatsCounter)
  returned : ℕ → Option UInt64

/-- Counter `i` of the latest scanned tree with more than `i` counters. -/
def latestCounter (scanned : List (List StatsCounter)) (i : ℕ) : Option StatsCounter :=
  (scanned.find? fun ks => i < ks.length).bind (·[i]?)

/-- A tree that has counter `i` supersedes the earlier ones. -/
theorem latestCounter_cons (ks : List StatsCounter) (scanned : List (List StatsCounter)) (i : ℕ) :
    latestCounter (ks :: scanned) i = (ks[i]?).or (latestCounter scanned i) := by
  by_cases hi : i < ks.length
  · simp [latestCounter, hi]
  · simp [latestCounter, hi]

namespace SampleHistory

/-- A run without calls. -/
def init : SampleHistory := ⟨.init, [], 0, [], fun _ => none⟩

/-- The call `c`. -/
def call (h : SampleHistory) (c : SampleCall) : Option CurrentValue :=
  ucxStatisticsCurrentValueGet (c.root :: c.roots) c.index h.sampling h.list

/-- What the last calls have returned, after a call for `index`. -/
def returnedAfter (h : SampleHistory) (index : ℕ) (stored : Option (UInt64 × UInt64)) :
    ℕ → Option UInt64 :=
  match stored with
  | some (value, _) => Function.update h.returned index (some value)
  | none => h.returned

/-- The run with one more call, which has left `r`. -/
def after (h : SampleHistory) (c : SampleCall) (r : CurrentValue) : SampleHistory where
  sampling := r.sampling
  list := r.list
  calls := h.calls + 1
  scanned := if r.scan.isSome then flat c.root.children :: h.scanned else h.scanned
  returned := h.returnedAfter c.index r.stored

/-- One call of a run. -/
def step (h : SampleHistory) (c : SampleCall) : SampleHistory :=
  match h.call c with
  | some r => h.after c r
  | none => h

/-- Whether a call returns 1. -/
def returnsOne (x : SampleHistory × SampleCall) : Bool := (x.1.call x.2).any (·.ret = 1)

end SampleHistory

/-! ## The list is a cache of the history -/

/-- Every entry has the value of the latest tree that has the counter, and the value that the
last call for its index has returned, or `(uint64_t)-1` if there was none. -/
def Matches (list : List ScorepCounterData) (scanned : List (List StatsCounter))
    (returned : ℕ → Option UInt64) : Prop :=
  ∀ i e, list[i]? = some e →
    (latestCounter scanned i).map StatsCounter.value = some e.value ∧
      e.prevValue = (returned i).getD noPrevValue

section

variable {list : List ScorepCounterData} {scanned : List (List StatsCounter)}
  {returned : ℕ → Option UInt64}

/-- An initializing scan, when no call has returned a value yet. -/
theorem matches_freshEntries (rootName : Name) (f : StatsNodes) (numObjects : ℕ)
    (scanned : List (List StatsCounter)) :
    Matches (freshEntries 0 (scannedCounters rootName f numObjects)) (flat f :: scanned)
      fun _ => none := by
  intro i e he
  have hrecords := map_record_freshEntries 0 (scannedCounters rootName f numObjects)
  rw [map_snd_scannedCounters] at hrecords
  have hi := congrArg (·[i]?) hrecords
  simp only [List.getElem?_map, he, getElem?_freshRecords, Option.map_some] at hi
  obtain ⟨k, hk, hrecord⟩ := Option.map_eq_some_iff.mp hi.symm
  simp only [ScorepCounterData.record, Prod.mk.injEq] at hrecord
  rw [latestCounter_cons, hk]
  exact ⟨congrArg some hrecord.2.2.1, hrecord.2.2.2.symm⟩

/-- An update scan brings the values up to date and never touches `prev_value`. -/
theorem Matches.update (h : Matches list scanned returned) (ks : List StatsCounter) :
    Matches (Overwrite.overwrite putValue 0 (ks.map StatsCounter.value) list) (ks :: scanned)
      returned := by
  intro i e he
  rw [getElem?_overwrite_putValue, Option.map_eq_some_iff] at he
  obtain ⟨old, hold, rfl⟩ := he
  obtain ⟨hvalue, hprev⟩ := h i old hold
  refine ⟨?_, hprev⟩
  rw [latestCounter_cons]
  cases hk : ks[i]? with
  | some k => rfl
  | none => exact hvalue

/-- A read of an entry. -/
theorem Matches.read (h : Matches list scanned returned) {i : ℕ} {e : ScorepCounterData}
    (he : list[i]? = some e) :
    Matches (list.modify i keepPrevValue) scanned
      (Function.update returned i (some e.value)) := by
  intro j e' he'
  by_cases hij : i = j
  · subst hij
    rw [List.getElem?_modify_eq, he] at he'
    obtain rfl : keepPrevValue e = e' := Option.some.inj he'
    rw [Function.update_self]
    exact ⟨(h i e he).1, rfl⟩
  · rw [List.getElem?_modify_ne _ _ hij] at he'
    rw [Function.update_of_ne (Ne.symm hij)]
    exact h j e' he'

/-- A read past the list. -/
theorem Matches.readBeyond (h : Matches list scanned returned) {i : ℕ} (hi : list.length ≤ i)
    (v : UInt64) : Matches list scanned (Function.update returned i (some v)) := by
  intro j e he
  obtain ⟨hj, _⟩ := List.getElem?_eq_some_iff.mp he
  rw [Function.update_of_ne (by omega)]
  exact h j e he

end

/-! ## One call -/

/-- What the call `c` does, in terms of the history `h` that it finds; `r` is what it leaves. -/
structure LifeCycleStep (h : SampleHistory) (c : SampleCall) (r : CurrentValue) : Prop where
  call : h.call c = some r
  flag : h.sampling.countersInitializedOnScorep = if h.list = [] then 0 else 1
  /-- While the list is empty, the calls number 1, 257, 513 and so on look for counters. -/
  attempt : h.list = [] → r.scan = if (h.calls + 1) % 256 = 1 then some true else none
  update : h.list ≠ [] → r.scan = if c.index = 0 then some false else none
  /-- The length changes in a call that returns 1 and in no other one. -/
  length : r.list.length ≠ h.list.length ↔ r.ret = 1
  first : r.ret = 1 → h.list = [] ∧ r.list ≠ []
  /-- A call that looks for counters returns 1 exactly when the tree has some, and makes an entry
  of each. -/
  found : r.scan = some true → (r.ret = 1 ↔ flat c.root.children ≠ []) ∧
    r.list.length = (flat c.root.children).length
  /-- A call for an entry returns the counter of the latest tree that has it, with the value
  that the previous call for this entry has returned. -/
  value : c.index < h.list.length → ∃ k, latestCounter (h.after c r).scanned c.index = some k ∧
    r.stored = some (k.value, (h.returned c.index).getD noPrevValue)
  beyond : h.list ≠ [] → h.list.length ≤ c.index → r.stored = some (0, 0)

/-- What holds between the calls. -/
structure SampleHistory.Inv (h : SampleHistory) : Prop where
  flag : h.sampling.countersInitializedOnScorep = if h.list = [] then 0 else 1
  counter : h.list = [] → h.sampling.counter = h.calls % 2 ^ 64
  unread : h.list = [] → h.returned = fun _ => none
  cache : Matches h.list h.scanned h.returned

namespace SampleHistory

theorem inv_init : init.Inv := ⟨rfl, fun _ => rfl, fun _ => rfl, by intro i e he; cases he⟩

/-- The static wraps around at a multiple of 256. -/
theorem Inv.turn_iff {h : SampleHistory} (hinv : h.Inv) (hempty : h.list = []) :
    h.sampling.counter &&& 0xFF = 0 ↔ (h.calls + 1) % 256 = 1 := by
  have hmask : h.sampling.counter &&& 0xFF = h.sampling.counter % 2 ^ 8 :=
    Nat.and_two_pow_sub_one_eq_mod _ 8
  rw [hmask, hinv.counter hempty]
  omega

/-- A read of the list, once it is up to date with the trees `scanned`. -/
theorem readCounter_spec {h : SampleHistory} {list : List ScorepCounterData}
    {scanned : List (List StatsCounter)} (hmatches : Matches list scanned h.returned)
    (index : ℕ) (scan : Option Bool) :
    Matches (readCounter index scan h.sampling list).list scanned
        (h.returnedAfter index (readCounter index scan h.sampling list).stored) ∧
      (index < list.length → ∃ k, latestCounter scanned index = some k ∧
        (readCounter index scan h.sampling list).stored =
          some (k.value, (h.returned index).getD noPrevValue)) ∧
      (list.length ≤ index →
        (readCounter index scan h.sampling list).stored = some (0, 0)) := by
  cases he : list[index]? with
  | some e =>
      obtain ⟨hlt, _⟩ := List.getElem?_eq_some_iff.mp he
      obtain ⟨hvalue, hprev⟩ := hmatches index e he
      obtain ⟨k, hk, hkvalue⟩ := Option.map_eq_some_iff.mp hvalue
      simp only [readCounter, he]
      refine ⟨hmatches.read he, ?_, ?_⟩
      · intro _
        exact ⟨k, hk, by rw [hkvalue, hprev]⟩
      · intro hle
        omega
  | none =>
      have hle := List.getElem?_eq_none_iff.mp he
      simp only [readCounter, he]
      refine ⟨hmatches.readBeyond hle 0, ?_, fun _ => trivial⟩
      intro hlt
      omega

/-- **A call for an initialized list** refreshes it for index 0, and reads it. -/
theorem call_of_ne_nil {h : SampleHistory} (hinv : h.Inv) (hlist : h.list ≠ []) (c : SampleCall) :
    ∃ r, LifeCycleStep h c r ∧ (h.after c r).Inv := by
  have hone : h.sampling.countersInitializedOnScorep = 1 := by rw [hinv.flag, if_neg hlist]
  -- The list that is read, and the trees that it is up to date with.
  obtain ⟨list, scan, hcall, hlength, hscan, hmatches⟩ : ∃ list scan,
      h.call c = some (readCounter c.index scan h.sampling list) ∧
      list.length = h.list.length ∧ scan = (if c.index = 0 then some false else none) ∧
      Matches list (if scan.isSome then flat c.root.children :: h.scanned else h.scanned)
        h.returned := by
    by_cases hindex : c.index = 0
    · refine ⟨_, some false, ?_, Overwrite.length_overwrite _ _ _ _, by rw [if_pos hindex],
        hinv.cache.update (flat c.root.children)⟩
      rw [SampleHistory.call, hindex]
      exact ucxStatisticsCurrentValueGet_zero c.root c.roots hone
    · exact ⟨h.list, none, ucxStatisticsCurrentValueGet_of_ne _ hone hindex, rfl,
        by rw [if_neg hindex], hinv.cache⟩
  obtain ⟨hcache, hvalue, hbeyond⟩ := readCounter_spec hmatches c.index scan
  have hne : (readCounter c.index scan h.sampling list).list ≠ [] := by
    rw [← List.length_pos_iff, length_list_readCounter, hlength]
    exact List.length_pos_iff.mpr hlist
  refine ⟨_, ⟨hcall, hinv.flag, ?_, ?_, ?_, ?_, ?_, ?_, ?_⟩, ⟨?_, ?_, ?_, ?_⟩⟩
  · exact fun hempty => absurd hempty hlist
  · intro _
    rw [scan_readCounter, hscan]
  · simp [hlength]
  · simp
  · rw [scan_readCounter, hscan]
    split <;> simp
  · intro hindex
    rw [← hlength] at hindex
    simpa [after] using hvalue hindex
  · intro _ hindex
    rw [← hlength] at hindex
    exact hbeyond hindex
  · simp [after, hinv.flag, hlist, hne]
  · exact fun hempty => absurd hempty hne
  · exact fun hempty => absurd hempty hne
  · simpa [after] using hcache

/-- A call that leaves the list empty only counts. -/
theorem call_of_nil {h : SampleHistory} (hinv : h.Inv) (hlist : h.list = []) {c : SampleCall}
    {scan : Option Bool} (hscan : scan = if (h.calls + 1) % 256 = 1 then some true else none)
    (hflat : scan = some true → flat c.root.children = [])
    (hcall : h.call c = some ⟨0, none, scan,
      { h.sampling with counter := (h.sampling.counter + 1) % 2 ^ 64 }, []⟩) :
    ∃ r, LifeCycleStep h c r ∧ (h.after c r).Inv := by
  refine ⟨_, ⟨hcall, hinv.flag, fun _ => hscan, ?_, ?_, ?_, ?_, ?_, ?_⟩, ⟨?_, ?_, ?_, ?_⟩⟩
  · exact fun hne => absurd hlist hne
  · simp [hlist]
  · simp
  · intro hattempt
    simp [hflat hattempt]
  · intro hlt
    simp [hlist] at hlt
  · exact fun hne => absurd hlist hne
  · simp [after, hinv.flag, hlist]
  · intro _
    simp only [after, hinv.counter hlist]
    omega
  · intro _
    exact hinv.unread hlist
  · intro i e he
    simp [after] at he

/-- **An attempt to find counters** gives the list its entries, if there are any. -/
theorem call_attempt {h : SampleHistory} (hinv : h.Inv) (hlist : h.list = [])
    (hturn : h.sampling.counter &&& 0xFF = 0) (c : SampleCall) :
    ∃ r, LifeCycleStep h c r ∧ (h.after c r).Inv := by
  have hzero : h.sampling.countersInitializedOnScorep = 0 := by rw [hinv.flag, if_pos hlist]
  have hcall := ucxStatisticsCurrentValueGet_attempt c.root c.roots c.index hzero hlist hturn
  have hnumber := (hinv.turn_iff hlist).mp hturn
  by_cases hflat : flat c.root.children = []
  · rw [if_neg (not_not_intro hflat)] at hcall
    exact call_of_nil hinv hlist (by rw [if_pos hnumber]) (fun _ => hflat) hcall
  · rw [if_pos hflat] at hcall
    have hne := mt (freshEntries_eq_nil_iff "cnt".toList c.root.children).mp hflat
    refine ⟨_, ⟨hcall, hinv.flag, ?_, ?_, ?_, ?_, ?_, ?_, ?_⟩, ⟨?_, ?_, ?_, ?_⟩⟩
    · intro _
      rw [if_pos hnumber]
    · exact fun hlist' => absurd hlist hlist'
    · simpa [hlist] using hne
    · exact fun _ => ⟨hlist, hne⟩
    · intro _
      exact ⟨iff_of_true rfl hflat, length_freshEntries "cnt".toList c.root.children⟩
    · intro hlt
      simp [hlist] at hlt
    · exact fun hlist' => absurd hlist hlist'
    · simpa [after] using hne
    · exact fun hnil => absurd hnil hne
    · exact fun hnil => absurd hnil hne
    · simp only [after, returnedAfter, hinv.unread hlist]
      exact matches_freshEntries _ _ _ _

/-- **One call**, whatever the state. -/
theorem call_spec {h : SampleHistory} (hinv : h.Inv) (c : SampleCall) :
    ∃ r, LifeCycleStep h c r ∧ (h.after c r).Inv := by
  by_cases hlist : h.list = []
  · by_cases hturn : h.sampling.counter &&& 0xFF = 0
    · exact call_attempt hinv hlist hturn c
    · have hzero : h.sampling.countersInitializedOnScorep = 0 := by rw [hinv.flag, if_pos hlist]
      have hnumber := mt (hinv.turn_iff hlist).mpr hturn
      exact call_of_nil hinv hlist (by rw [if_neg hnumber]) (fun hattempt => by cases hattempt)
        (ucxStatisticsCurrentValueGet_skip _ c.index hzero hlist hturn)
  · exact call_of_ne_nil hinv hlist c

theorem step_of_call {h : SampleHistory} {c : SampleCall} {r : CurrentValue}
    (hcall : h.call c = some r) : h.step c = h.after c r := by
  rw [step, hcall]

/-- Every call keeps what holds between the calls. -/
theorem Inv.step {h : SampleHistory} (hinv : h.Inv) (c : SampleCall) : (h.step c).Inv := by
  obtain ⟨r, hstep, hafter⟩ := call_spec hinv c
  rwa [step_of_call hstep.call]

/-! ## Runs -/

/-- One call of a run at most returns 1, and none does once the list has entries. -/
theorem countP_returnsOne_le {h : SampleHistory} (hinv : h.Inv) (calls : List SampleCall) :
    (Run.trace step h calls).countP returnsOne ≤ if h.list = [] then 1 else 0 := by
  induction calls generalizing h with
  | nil => exact Nat.zero_le _
  | cons c calls ih =>
      obtain ⟨r, hstep, _⟩ := call_spec hinv c
      have hrest := ih (hinv.step c)
      rw [Run.trace_cons, List.countP_cons]
      have hone : returnsOne (h, c) = true ↔ r.ret = 1 := by
        simp [returnsOne, hstep.call]
      rw [step_of_call hstep.call] at hrest ⊢
      by_cases hret : r.ret = 1
      · obtain ⟨hempty, hne⟩ := hstep.first hret
        have hzero : (h.after c r).list ≠ [] := hne
        rw [if_neg hzero] at hrest
        rw [if_pos (hone.mpr hret), if_pos hempty]
        omega
      · have hsame : (h.after c r).list = [] ↔ h.list = [] := by
          have hlength := not_ne_iff.mp (mt hstep.length.mp hret)
          rw [← List.length_eq_zero_iff, ← List.length_eq_zero_iff (l := h.list), ← hlength]
          rfl
        rw [if_neg (mt hone.mp hret)]
        simpa only [hsame, Nat.add_zero] using hrest

end SampleHistory

/-- **The life cycle** of the list, for every run of calls: the flag says whether the list has
entries, every call does what `LifeCycleStep` says, and at most one of them returns 1. -/
theorem lifeCycle (calls : List SampleCall) :
    ((Run.final SampleHistory.step .init calls).sampling.countersInitializedOnScorep =
        if (Run.final SampleHistory.step .init calls).list = [] then 0 else 1) ∧
      (∀ x ∈ Run.trace SampleHistory.step .init calls, ∃ r, LifeCycleStep x.1 x.2 r) ∧
      (Run.trace SampleHistory.step .init calls).countP SampleHistory.returnsOne ≤ 1 := by
  have hinit := SampleHistory.inv_init
  refine ⟨?_, ?_, SampleHistory.countP_returnsOne_le hinit calls⟩
  · exact (Run.final_invariant SampleHistory.Inv (fun h c _ hinv => hinv.step c) hinit).flag
  · intro x hx
    have hinv : x.1.Inv :=
      Run.trace_invariant SampleHistory.Inv (fun h c hinv => hinv.step c) hinit calls x hx
    obtain ⟨r, hstep, _⟩ := SampleHistory.call_spec hinv x.2
    exact ⟨r, hstep⟩

end ScorepPluginUcx
