import ScorepPluginUcx.NamesFile

/-!
# Reading the names file back

The writer puts a name of any length on a line, and the reader takes pieces of at most 511
characters. It looks for the newline at the index `len - 1` of its buffer, which is no index
when a piece begins with a NUL.

## Main results

* `roundTrips_iff`: the names come back exactly when each of them fits into a piece.
* `readerSafe_iff`: the reader stays within its buffer exactly when no piece of the file
  begins with a NUL.
-/

namespace ScorepPluginUcx

/-! ## Piece by piece -/

theorem mapM_nameOfLine_cons_iff {buffer : Name} {buffers names : List Name} :
    (buffer :: buffers).mapM nameOfLine = .ok names ↔
      ∃ name rest, nameOfLine buffer = .ok name ∧ buffers.mapM nameOfLine = .ok rest ∧
        names = name :: rest := by
  rw [List.mapM_cons]
  cases hone : nameOfLine buffer with
  | error f => simp [bind, Except.bind]
  | ok name =>
      cases hmore : buffers.mapM nameOfLine with
      | error f => simp [bind, Except.bind]
      | ok rest => simp [bind, Except.bind, pure, Except.pure, eq_comm]

/-- The reader returns exactly when every piece yields a name. -/
theorem mapM_nameOfLine_isOk_iff (buffers : List Name) :
    (∃ names, buffers.mapM nameOfLine = .ok names) ↔
      ∀ buffer ∈ buffers, ∃ name, nameOfLine buffer = .ok name := by
  induction buffers with
  | nil => simp [pure, Except.pure]
  | cons buffer buffers ih =>
      rw [List.forall_mem_cons, ← ih]
      simp only [mapM_nameOfLine_cons_iff]
      constructor
      · intro h
        obtain ⟨_, name, rest, hone, hmore, rfl⟩ := h
        exact ⟨⟨name, hone⟩, rest, hmore⟩
      · intro h
        obtain ⟨⟨name, hone⟩, rest, hmore⟩ := h
        exact ⟨_, name, rest, hone, hmore, rfl⟩

/-- Each piece yields one name. -/
theorem length_of_mapM_nameOfLine {buffers names : List Name}
    (h : buffers.mapM nameOfLine = .ok names) : names.length = buffers.length := by
  induction buffers generalizing names with
  | nil =>
      obtain rfl := Except.ok.inj h
      rfl
  | cons buffer buffers ih =>
      rcases mapM_nameOfLine_cons_iff.mp h with ⟨name, rest, _, hmore, rfl⟩
      rw [List.length_cons, List.length_cons, ih hmore]

theorem metricNameRead_some_iff {content : Name} {names : List Name} :
    metricNameReadCountersListFromFile (some content) = .ok (some names) ↔
      (Line.pieces '\n' (lineBufferSize - 1) content).mapM nameOfLine = .ok names := by
  rw [metricNameReadCountersListFromFile]
  cases (Line.pieces '\n' (lineBufferSize - 1) content).mapM nameOfLine <;>
    simp [bind, Except.bind]

/-! ## The round trip -/

/-- The file after writing the names, one after the other, where there was none. -/
def writtenFile (names : List Name) : Option Name :=
  names.foldl (fun file name => metricNameAddToFile true name file) none

theorem foldl_metricNameAddToFile (lines names : List Name) :
    names.foldl (fun file name => metricNameAddToFile true name file) (namesFileOf lines) =
      namesFileOf (lines ++ names.map cStr) := by
  induction names generalizing lines with
  | nil => simp
  | cons name names ih =>
      rw [List.foldl_cons, metricNameAddToFile_namesFileOf, ih, List.append_assoc]
      rfl

/-- Names without NUL are written as they are. -/
theorem writtenFile_eq {names : List Name} (h : ∀ name ∈ names, '\x00' ∉ name) :
    writtenFile names = namesFileOf names := by
  have hcStr : names.map cStr = names.map id :=
    List.map_congr_left fun name hname => cStr_of_nul_notMem (h name hname)
  have hfold := foldl_metricNameAddToFile [] names
  rwa [hcStr, List.map_id, List.nil_append] at hfold

/-- Reading the written file yields the names. -/
def RoundTrips (names : List Name) : Prop :=
  ∃ found, metricNameReadCountersListFromFile (writtenFile names) = .ok found ∧
    found.getD [] = names

/-- A name that does not fit comes back in more than one piece. -/
theorem RoundTrips.length_le {names : List Name}
    (hchars : ∀ name ∈ names, '\n' ∉ name ∧ '\x00' ∉ name) (h : RoundTrips names) :
    ∀ name ∈ names, name.length ≤ 510 := by
  rcases h with ⟨found, hread, hnames⟩
  rw [writtenFile_eq fun name hname => (hchars name hname).2, namesFileOf] at hread
  by_cases hnil : names = []
  · simp [hnil]
  rw [if_neg hnil] at hread
  cases found with
  | none => exact absurd hnames.symm hnil
  | some read =>
      obtain rfl : read = names := hnames
      have hlines : ∀ name ∈ read, '\n' ∉ name := fun name hname => (hchars name hname).1
      have hcount := length_of_mapM_nameOfLine (metricNameRead_some_iff.mp hread)
      have hfits := Line.length_lt_of_length_pieces (by decide) hlines hcount.symm
      intro name hname
      have hlt : name.length < 511 := hfits name hname
      omega

/-- **The names file round-trips** exactly when every name fits into the reader's buffer
together with its newline. -/
theorem roundTrips_iff {names : List Name}
    (hchars : ∀ name ∈ names, '\n' ∉ name ∧ '\x00' ∉ name) :
    RoundTrips names ↔ ∀ name ∈ names, name.length ≤ 510 := by
  constructor
  · exact RoundTrips.length_le hchars
  · intro hlength
    have hfits : ∀ name ∈ names, FitsLine name := by
      intro name hname
      exact ⟨hlength name hname, (hchars name hname).1, (hchars name hname).2⟩
    refine ⟨if names = [] then none else some names, ?_, ?_⟩
    · rw [writtenFile_eq fun name hname => (hchars name hname).2, metricNameRead_namesFileOf hfits]
    · by_cases hnil : names = [] <;> simp [hnil]

/-- Two labels of the usual kind. -/
theorem roundTrips_two : RoundTrips ["UCX@1_c_tx".toList, "UCX@1_c_rx".toList] :=
  (roundTrips_iff (by decide)).mpr (by decide)

/-- A name of 511 characters fills the buffer, and its newline becomes a name of its own. -/
theorem long_name_not_roundTrips : ¬ RoundTrips [List.replicate 511 'a'] := by
  have hnot : ∀ c : Char, c ≠ 'a' → c ∉ List.replicate 511 'a' := by
    intro c hc hmem
    exact hc (List.eq_of_mem_replicate hmem)
  have hchars : ∀ name ∈ [List.replicate 511 'a'], '\n' ∉ name ∧ '\x00' ∉ name := by
    intro name hname
    rw [List.mem_singleton.mp hname]
    exact ⟨hnot _ (by decide), hnot _ (by decide)⟩
  intro h
  have hle := h.length_le hchars _ List.mem_cons_self
  rw [List.length_replicate] at hle
  omega

/-! ## The index in the line buffer -/

/-- The index at which the reader looks for the newline. -/
def lineIndex (buffer : Name) : ℕ := uint32 ((cStr buffer).length - 1)

/-- It is within the piece, or wraps when the piece begins with a NUL. -/
theorem lineIndex_cases {buffer : Name}
    (h : 0 < buffer.length ∧ buffer.length ≤ lineBufferSize - 1) :
    (∀ c ∈ buffer.head?, c ≠ '\x00') ∧ lineIndex buffer < buffer.length ∨
      (¬ ∀ c ∈ buffer.head?, c ≠ '\x00') ∧ lineIndex buffer = 2 ^ 32 - 1 := by
  obtain ⟨c, cs, rfl⟩ := List.exists_cons_of_length_pos h.1
  by_cases hc : c = '\x00'
  · have hnil : cStr (c :: cs) = [] := List.takeWhile_cons_of_neg (by simp [hc])
    exact .inr ⟨by simp [hc], by rw [lineIndex, hnil]; rfl⟩
  · have hcons : cStr (c :: cs) = c :: cStr cs := List.takeWhile_cons_of_pos (by simp [hc])
    have hle : (cStr cs).length ≤ cs.length := (List.takeWhile_prefix _).length_le
    have hroom : cs.length + 1 ≤ 511 := h.2
    have hindex : lineIndex (c :: cs) = (cStr cs).length := by
      rw [lineIndex, hcons, List.length_cons, uint32]
      omega
    rw [hindex, List.length_cons]
    exact .inl ⟨by simp [hc], by omega⟩

/-- One round of the reader succeeds exactly when the index is within the piece. -/
theorem nameOfLine_isOk_iff (buffer : Name) :
    (∃ name, nameOfLine buffer = .ok name) ↔ lineIndex buffer < buffer.length := by
  rw [lineIndex]
  by_cases h : uint32 ((cStr buffer).length - 1) < buffer.length
  · simp [nameOfLine, h]
  · simp [nameOfLine, h]

/-- The reader is safe on a file: it takes pieces until all of the file is read, the index
that it uses into the line buffer is always one of its 512, and it returns. -/
structure ReaderSafe (content : Name) : Prop where
  whole : (Line.pieces '\n' (lineBufferSize - 1) content).flatten = content
  index_lt : ∀ buffer ∈ Line.pieces '\n' (lineBufferSize - 1) content,
    lineIndex buffer < lineBufferSize
  returns : ∃ names, metricNameReadCountersListFromFile (some content) = .ok (some names)

/-- **The reader is safe** on exactly the files in which no NUL stands where a piece starts:
at a multiple of 511 characters behind a newline or behind the start of the file. -/
theorem readerSafe_iff (content : Name) :
    ReaderSafe content ↔ ∀ before after, content = before ++ '\x00' :: after →
      Line.column '\n' before % 511 ≠ 0 := by
  have hroom : 0 < lineBufferSize - 1 := by decide
  have hheads := Line.forall_head_pieces_iff '\n' hroom (· ≠ '\x00') content
  have hstarts : (∀ before c after, content = before ++ c :: after →
      Line.column '\n' before % (lineBufferSize - 1) = 0 → c ≠ '\x00') ↔
      ∀ before after, content = before ++ '\x00' :: after →
        Line.column '\n' before % 511 ≠ 0 := by
    constructor
    · intro h before after heq hcolumn
      exact h before '\x00' after heq hcolumn rfl
    · rintro h before c after heq hcolumn rfl
      exact h before after heq hcolumn
  rw [← hstarts, ← hheads]
  constructor
  · intro h buffer hbuffer
    rcases lineIndex_cases (Line.length_of_mem_pieces hroom hbuffer) with ⟨hhead, _⟩ | ⟨_, hfar⟩
    · exact hhead
    · have hlt : lineIndex buffer < 512 := h.index_lt buffer hbuffer
      omega
  · intro h
    have hnear : ∀ buffer ∈ Line.pieces '\n' (lineBufferSize - 1) content,
        lineIndex buffer < buffer.length := by
      intro buffer hbuffer
      rcases lineIndex_cases (Line.length_of_mem_pieces hroom hbuffer) with ⟨_, hlt⟩ | ⟨hno, _⟩
      · exact hlt
      · exact absurd (h buffer hbuffer) hno
    refine ⟨Line.flatten_pieces hroom content, ?_, ?_⟩
    · intro buffer hbuffer
      have hle : buffer.length ≤ 511 := (Line.length_of_mem_pieces hroom hbuffer).2
      have hlt := hnear buffer hbuffer
      rw [lineBufferSize]
      omega
    · simp only [metricNameRead_some_iff, mapM_nameOfLine_isOk_iff, nameOfLine_isOk_iff]
      exact hnear

/-- A file that begins with a NUL sends the reader to the index `2 ^ 32 - 1`. -/
theorem nul_not_readerSafe : ¬ ReaderSafe ['\x00'] := by
  intro h
  have hlt := h.index_lt ['\x00'] (by decide)
  exact absurd hlt (by decide)

end ScorepPluginUcx
