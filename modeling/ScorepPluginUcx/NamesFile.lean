import ScorepPluginUcx.Lib.Line
import ScorepPluginUcx.Types

/-!
# The metric-names file

Rank 0 appends one line for each counter; the next run reads the lines back through a
512-byte buffer. The file is `none` when it does not exist.
-/

namespace ScorepPluginUcx

/-- The size of `temp_counter_name`, the line buffer of the reader. -/
def lineBufferSize : ℕ := 512

/-- `metric_name_add_to_file`: append the name and a newline, if the file opens. -/
def metricNameAddToFile (opens : Bool) (metricName : Name) (file : Option Name) : Option Name :=
  if opens then some (file.getD [] ++ cStr metricName ++ ['\n']) else file

/-- One round of the reader: `buffer` is what `fgets` delivered. The newline is looked for
at `len - 1`, which wraps when `strlen` is 0. -/
def nameOfLine (buffer : Name) : Except Failure Name :=
  let len := (cStr buffer).length
  match buffer[uint32 (len - 1)]? with
  | none => .error .outOfBounds
  | some c => .ok (if c = '\n' then buffer.take (len - 1) else cStr buffer)

/-- `metric_name_read_counters_list_from_file`: `none` when there is no file. -/
def metricNameReadCountersListFromFile : Option Name → Except Failure (Option (List Name))
  | none => .ok none
  | some content => do
      let countersList ← (Line.pieces '\n' (lineBufferSize - 1) content).mapM nameOfLine
      .ok (some countersList)

/-- The reader finds nothing only when there is no file. -/
theorem metricNameRead_eq_none {file : Option Name}
    (h : metricNameReadCountersListFromFile file = .ok none) : file = none := by
  cases file with
  | none => rfl
  | some content =>
      cases hnames : (Line.pieces '\n' (lineBufferSize - 1) content).mapM nameOfLine <;>
        simp [metricNameReadCountersListFromFile, hnames, bind, Except.bind] at h

/-- What a name must satisfy to take one line of the file and one piece of the reader. -/
structure FitsLine (name : Name) : Prop where
  length_le : name.length ≤ 510
  newline_notMem : '\n' ∉ name
  nul_notMem : '\x00' ∉ name

/-- A line with a name on it, as `fgets` delivers it, yields the name. -/
theorem nameOfLine_of_fits {name : Name} (h : FitsLine name) :
    nameOfLine (name ++ ['\n']) = .ok name := by
  have hnul : '\x00' ∉ name ++ ['\n'] := by
    simpa using h.nul_notMem
  have hlen : (cStr (name ++ ['\n'])).length = name.length + 1 := by
    simp [cStr_of_nul_notMem hnul]
  have hindex : uint32 (name.length : ℤ) = name.length :=
    uint32_natCast (by have := h.length_le; omega)
  simp [nameOfLine, hlen, hindex]

/-- Reading back a text of names that fit yields these names. -/
theorem metricNameRead_unlines {names : List Name} (h : ∀ name ∈ names, FitsLine name) :
    metricNameReadCountersListFromFile (some (Line.unlines '\n' names)) = .ok (some names) := by
  have hpieces : Line.pieces '\n' (lineBufferSize - 1) (Line.unlines '\n' names) =
      names.map (· ++ ['\n']) := by
    apply Line.pieces_unlines
    intro name hname
    have hfits := h name hname
    exact ⟨hfits.newline_notMem, by have := hfits.length_le; simp [lineBufferSize]; omega⟩
  have hmap : ∀ names : List Name, (∀ name ∈ names, FitsLine name) →
      (names.map (· ++ ['\n'])).mapM nameOfLine = .ok names := by
    intro names
    induction names with
    | nil => intro _; rfl
    | cons name names ih =>
        intro hall
        have hname := nameOfLine_of_fits (hall name (by simp))
        have hrest := ih fun m hm => hall m (List.mem_cons_of_mem name hm)
        rw [List.map_cons, List.mapM_cons, hname, hrest]
        rfl
  simp only [metricNameReadCountersListFromFile, hpieces, hmap names h]
  rfl

/-- The file that a list of appends makes out of none. -/
def namesFileOf (names : List Name) : Option Name :=
  if names = [] then none else some (Line.unlines '\n' names)

@[simp] theorem namesFileOf_nil : namesFileOf [] = none := rfl

/-- An append that succeeds adds one line, and creates the file if it has to. -/
theorem metricNameAddToFile_namesFileOf (name : Name) (names : List Name) :
    metricNameAddToFile true name (namesFileOf names) = namesFileOf (names ++ [cStr name]) := by
  cases names with
  | nil => simp [metricNameAddToFile, namesFileOf]
  | cons first rest => simp [metricNameAddToFile, namesFileOf, Line.unlines_append]

/-- Reading back a file of names that fit yields these names. -/
theorem metricNameRead_namesFileOf {names : List Name} (h : ∀ name ∈ names, FitsLine name) :
    metricNameReadCountersListFromFile (namesFileOf names) =
      .ok (if names = [] then none else some names) := by
  by_cases hnil : names = []
  · simp [hnil, metricNameReadCountersListFromFile]
  · simp only [namesFileOf, if_neg hnil, metricNameRead_unlines h]

end ScorepPluginUcx
