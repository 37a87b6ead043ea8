import ScorepPluginUcx.Lib.Line
import ScorepPluginUcx.Sampling.Scan

/-!
# The names in one buffer

`metrics_names_serialize` goes over the counters list twice, once for the size of the buffer
and once to copy the names, each with its NUL character.

## Main definitions

* `metricsNamesSerialize`: the serializer.
* `cutAtNul`: the names in a buffer.

## Main results

* `metricsNamesSerialize_eq`: the two passes agree, byte for byte.
-/

namespace ScorepPluginUcx

/-- Allocated memory. A byte that was never written is `none`. -/
abbrev Memory := List (Option Char)

/-- `malloc`, when it succeeds. -/
def malloc (size : ℕ) : Memory := List.replicate size none

/-- `strlen`. -/
def strlen (s : Name) : ℕ := (cStr s).length

/-- `strcpy` to `memory[offset]`; `none` is a write outside the memory. -/
def strcpy (memory : Memory) (offset : ℕ) (s : Name) : Option Memory :=
  if offset + (strlen s + 1) ≤ memory.length then
    some (memory.take offset ++ (cStr s ++ ['\x00']).map some ++
      memory.drop (offset + (strlen s + 1)))
  else none

/-- What `metrics_names_serialize` returns, and the addresses that it has written, in order. -/
structure Serialized where
  names : Memory
  size : ℕ
  writes : List ℕ
  deriving DecidableEq

/-- The variables of the second loop. -/
structure SerializeLoop where
  offset : ℕ
  serialized : Memory
  writes : List ℕ

/-- One round of the second loop. -/
def serializeStep (l : SerializeLoop) (e : ScorepCounterData) : Option SerializeLoop :=
  (strcpy l.serialized l.offset e.name).map fun memory =>
    { offset := sizeT ((l.offset + (strlen e.name + 1) : ℕ) : ℤ)
      serialized := memory
      writes := l.writes ++ List.range' l.offset (strlen e.name + 1) }

/-- The first loop. -/
def serializedSize (list : List ScorepCounterData) : ℕ :=
  list.foldl (fun size e => sizeT ((size + (strlen e.name + 1) : ℕ) : ℤ)) 0

/-- `metrics_names_serialize`. -/
def metricsNamesSerialize (list : List ScorepCounterData) : Option Serialized :=
  let totalSize := serializedSize list
  (list.foldlM serializeStep ⟨0, malloc totalSize, []⟩).map fun l =>
    ⟨l.serialized, totalSize, l.writes⟩

/-- The names of the entries, as C sees them. -/
def counterNames (list : List ScorepCounterData) : List Name := list.map fun e => cStr e.name

/-- The text of a list of entries: the names, each ended by a NUL character. -/
def namesText (list : List ScorepCounterData) : Name := Line.unlines '\x00' (counterNames list)

/-- The names in a text: what stands in front of each NUL character. -/
def cutAtNul (text : Name) : List Name := (text.splitOn '\x00').dropLast

theorem cutAtNul_namesText (list : List ScorepCounterData) :
    cutAtNul (namesText list) = counterNames list := by
  have hnul : ∀ name ∈ counterNames list, '\x00' ∉ name := by
    intro name hname
    obtain ⟨e, _, rfl⟩ := List.mem_map.mp hname
    exact nul_notMem_cStr e.name
  rw [cutAtNul, namesText, Line.splitOn_unlines hnul, List.dropLast_concat]

theorem length_le_length_namesText (list : List ScorepCounterData) :
    list.length ≤ (namesText list).length := by
  have hle := Line.length_le_length_unlines '\x00' (counterNames list)
  rwa [counterNames, List.length_map] at hle

theorem namesText_append_singleton (list : List ScorepCounterData) (e : ScorepCounterData) :
    namesText (list ++ [e]) = namesText list ++ (cStr e.name ++ ['\x00']) := by
  rw [namesText, counterNames, List.map_append, Line.unlines_append]
  simp [namesText, counterNames]

theorem length_namesText_append_singleton (list : List ScorepCounterData)
    (e : ScorepCounterData) :
    (namesText (list ++ [e])).length = (namesText list).length + (strlen e.name + 1) := by
  rw [namesText_append_singleton, List.length_append, List.length_append, strlen]
  rfl

/-- The first pass finds the length of the text. -/
theorem serializedSize_eq {list : List ScorepCounterData}
    (hsize : (namesText list).length < 2 ^ 64) : serializedSize list = (namesText list).length := by
  induction list using List.reverseRecOn with
  | nil => rfl
  | append_singleton list e ih =>
      rw [length_namesText_append_singleton] at hsize ⊢
      have hlist := ih (by omega)
      rw [serializedSize] at hlist ⊢
      rw [List.foldl_append, hlist, List.foldl_cons, List.foldl_nil, sizeT_natCast hsize]

/-- Copying a string behind what is written already. -/
theorem strcpy_malloc {text s : Name} {size : ℕ} (h : text.length + (strlen s + 1) ≤ size) :
    strcpy (text.map some ++ malloc (size - text.length)) text.length s =
      some ((text ++ (cStr s ++ ['\x00'])).map some ++
        malloc (size - (text.length + (strlen s + 1)))) := by
  have hfits : text.length + (strlen s + 1) ≤
      (text.map some ++ malloc (size - text.length)).length := by
    rw [List.length_append, List.length_map, malloc, List.length_replicate]
    omega
  have htake : (text.map some ++ malloc (size - text.length)).take text.length =
      text.map some := List.take_left' (by rw [List.length_map])
  have hdrop : (text.map some ++ malloc (size - text.length)).drop
      (text.length + (strlen s + 1)) = malloc (size - (text.length + (strlen s + 1))) := by
    rw [← List.drop_drop, List.drop_left' (by rw [List.length_map]), malloc, malloc,
      List.drop_replicate]
    congr 1
    omega
  rw [strcpy, if_pos hfits, htake, hdrop, List.map_append, List.map_append,
    List.map_append]

/-- **The second pass** writes the text, one byte behind the other. -/
theorem foldlM_serializeStep {list : List ScorepCounterData} {size : ℕ} (hsize : size < 2 ^ 64)
    (hle : (namesText list).length ≤ size) :
    list.foldlM serializeStep ⟨0, malloc size, []⟩ =
      some ⟨(namesText list).length,
        (namesText list).map some ++ malloc (size - (namesText list).length),
        List.range (namesText list).length⟩ := by
  induction list using List.reverseRecOn with
  | nil => rfl
  | append_singleton list e ih =>
      rw [length_namesText_append_singleton] at hle ⊢
      have hcopy := strcpy_malloc hle
      rw [← namesText_append_singleton] at hcopy
      have hoffset : sizeT (((namesText list).length + (strlen e.name + 1) : ℕ) : ℤ) =
          (namesText list).length + (strlen e.name + 1) := sizeT_natCast (by omega)
      rw [List.foldlM_append, ih (by omega)]
      simp only [Option.bind_eq_bind, Option.bind_some, List.foldlM_cons, List.foldlM_nil,
        serializeStep, hcopy, Option.map_some, hoffset, Option.pure_def]
      have hwrites : List.range (namesText list).length ++
          List.range' (namesText list).length (strlen e.name + 1) =
            List.range ((namesText list).length + (strlen e.name + 1)) := by
        have happend := List.range'_append_1 (s := 0) (m := (namesText list).length)
          (n := strlen e.name + 1)
        rwa [Nat.zero_add, ← List.range_eq_range', ← List.range_eq_range'] at happend
      rw [hwrites]

/-- **The serializer** writes every byte of a buffer that has just the size of the text. -/
theorem metricsNamesSerialize_eq {list : List ScorepCounterData}
    (hsize : (namesText list).length < 2 ^ 64) :
    metricsNamesSerialize list =
      some ⟨(namesText list).map some, (namesText list).length,
        List.range (namesText list).length⟩ := by
  have hcopy := foldlM_serializeStep hsize (Nat.le_refl _)
  have hnone : malloc ((namesText list).length - (namesText list).length) = [] := by
    rw [Nat.sub_self]
    rfl
  rw [hnone, List.append_nil] at hcopy
  simp only [metricsNamesSerialize, serializedSize_eq hsize, hcopy, Option.map_some]

end ScorepPluginUcx
