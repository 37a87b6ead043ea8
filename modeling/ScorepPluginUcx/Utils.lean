import ScorepPluginUcx.Types

/-!
# Parsing a metric

`split` is the `getline` loop of the source: a delimiter at the very end of the text
starts no further piece. `parseMetric` converts the piece after the `@` twice, once in
base 16 by `strtoull` and once in base 10 by `std::stoull`, which may throw.
-/

namespace ScorepPluginUcx

/-- `getline` until it fails. `token` holds what the current call has extracted; at the
end of the text a call that has extracted nothing fails. -/
def splitFrom (delimiter : Char) (token : Name) : Name → List Name
  | [] => if token = [] then [] else [token]
  | c :: cs =>
      if c = delimiter then token :: splitFrom delimiter [] cs
      else splitFrom delimiter (token ++ [c]) cs

def split (s : Name) (delimiter : Char) : List Name := splitFrom delimiter [] s

/-- `isspace` in the C locale. -/
def isSpace (c : Char) : Bool := c ∈ [' ', '\t', '\n', '\x0b', '\x0c', '\r']

/-- The value of a digit, in any base up to 16. -/
def digitValue (c : Char) : ℕ :=
  if '0' ≤ c ∧ c ≤ '9' then c.toNat - '0'.toNat
  else if 'a' ≤ c ∧ c ≤ 'f' then c.toNat - 'a'.toNat + 10
  else if 'A' ≤ c ∧ c ≤ 'F' then c.toNat - 'A'.toNat + 10
  else 16

def isDigitIn (base : ℕ) (c : Char) : Bool := digitValue c < base

/-- The number that a list of digits writes. -/
def digitsValue (base : ℕ) (digits : Name) : ℕ :=
  digits.foldl (fun acc c => acc * base + digitValue c) 0

/-- The outcome of `strtoull`: the value, whether any digit was converted, and whether
`errno` is set to `ERANGE`. -/
structure Converted where
  value : ℕ
  converted : Bool
  range : Bool
  deriving DecidableEq, Repr

/-- An optional sign. -/
def dropSign : Name → Bool × Name
  | '-' :: cs => (true, cs)
  | '+' :: cs => (false, cs)
  | cs => (false, cs)

/-- An optional `0x`, which counts only in front of a hexadecimal digit. -/
def dropHexPrefix (base : ℕ) (s : Name) : Name :=
  match s with
  | '0' :: x :: c :: cs =>
      if base = 16 ∧ (x = 'x' ∨ x = 'X') ∧ isDigitIn 16 c then c :: cs else s
  | _ => s

/-- `strtoull`: an overflowing number is `ULLONG_MAX`, a negative one wraps. -/
def strtoull (s : Name) (base : ℕ) : Converted :=
  let signed := dropSign ((cStr s).dropWhile isSpace)
  let digits := (dropHexPrefix base signed.2).takeWhile (isDigitIn base)
  let value := digitsValue base digits
  if 2 ^ 64 ≤ value then ⟨2 ^ 64 - 1, true, true⟩
  else ⟨if signed.1 then (2 ^ 64 - value) % 2 ^ 64 else value, digits ≠ [], false⟩

/-- `std::stoull` in base 10. -/
def stoull (s : Name) : Except Failure ℕ :=
  let r := strtoull s 10
  if r.converted = false then .error .invalidArgument
  else if r.range then .error .outOfRange
  else .ok r.value

/-- What `parse_metric` yields: the event, the number narrowed to `unsigned int`, and
the number that is stored through `hex_dummy`. -/
structure ParsedMetric where
  event : Name
  dummy : ℕ
  hexDummy : ℕ
  deriving DecidableEq, Repr

def parseMetric (metric : Name) : Except Failure ParsedMetric :=
  match split metric '@' with
  | [event, number] => do
      let value ← stoull number
      .ok ⟨event, value % 2 ^ 32, (strtoull number 16).value⟩
  | _ => .error .invalidArgument

example : parseMetric "UCX@20_class_counter".toList = .ok ⟨"UCX".toList, 20, 32⟩ := by decide

end ScorepPluginUcx
