/-
  Values of one type in JSON, read and written.

  A `Codec` is a reader and a writer that belong together.  A reader that meets
  a value of another kind reads it to its end where it is no list or object, so
  that a malformed one is reported as such, and then says what it found.

  * `boolean`, `text`, `real`, `single` and the integers are the scalars;
  * `optional` allows `null`, and `list` reads a list.
-/
import SidPlayback.Json.Number
import SidPlayback.Json.Text

namespace SidPlayback.Json

/-- How values of type `α` are read and written. -/
structure Codec (α : Type) where
  read : Reader α
  write : α → List Char

namespace Codec

open Reader

variable {α : Type}

/-! ## Values of another kind -/

/-- Reads what the next value is. -/
def found : Reader Found := do
  match ← look with
  | some 'n' => do take; word ['u', 'l', 'l']; pure .null
  | some 't' => do take; word ['r', 'u', 'e']; pure (.boolean true)
  | some 'f' => do take; word ['a', 'l', 's', 'e']; pure (.boolean false)
  | some '"' => do take; .text <$> Text.read
  | some '[' => pure .list
  | some '\x7b' => pure .object
  | some c => if c = '-' ∨ c.isDigit then Number.found <$> Number.read else refuse .noValue
  | none => refuse .endInValue

/-- Stops at a value of another kind than `expected`. -/
def mismatch (expected : String) : Reader α := do
  let value ← found
  stop (.wrongType value expected)

/-! ## Scalars -/

/-- Truth values. -/
def boolean : Codec Bool where
  read := do
    match ← look with
    | some 't' => do take; word ['r', 'u', 'e']; pure true
    | some 'f' => do take; word ['a', 'l', 's', 'e']; pure false
    | _ => mismatch "a boolean"
  write b := if b then ['t', 'r', 'u', 'e'] else ['f', 'a', 'l', 's', 'e']

/-- Texts. -/
def text : Codec String where
  read := do
    match ← look with
    | some '"' => do take; Text.read
    | _ => mismatch "a string"
  write := Text.write

/-- Reads a number as a value of a type with the given name. -/
def number (expected : String) (convert : Number → Except Cause α) : Reader α := do
  match ← look with
  | none => refuse .endInValue
  | some c =>
    if c = '-' ∨ c.isDigit then do
      match convert (← Number.read) with
      | .ok a => pure a
      | .error cause => stop cause
    else mismatch expected

/-- Reads an integer from `low` to `high`. -/
def bounded (expected : String) (low high : Int) : Reader Int :=
  number expected fun n =>
    match n.integer? with
    | some i => if low ≤ i ∧ i ≤ high then .ok i else .error (.wrongValue n.found expected)
    | none => .error (.wrongType n.found expected)

/-- Signed words of 32 bits. -/
def int32 : Codec Int32 where
  read := Int32.ofInt <$> bounded "i32" Int32.minValue.toInt Int32.maxValue.toInt
  write n := writeInteger n.toInt

/-- Signed bytes. -/
def int8 : Codec Int8 where
  read := Int8.ofInt <$> bounded "i8" Int8.minValue.toInt Int8.maxValue.toInt
  write n := writeInteger n.toInt

/-- Unsigned words of 32 bits. -/
def uint32 : Codec UInt32 where
  read := (fun i => UInt32.ofNat i.toNat) <$> bounded "u32" 0 (UInt32.size - 1)
  write n := writeInteger n.toNat

/-- Doubles.  What is no number is written as `null`. -/
def real : Codec Float where
  read := number "f64" fun n => .ok n.toFloat
  write := Decimal.jsonText

/-- Single-precision numbers.  What is no number is written as `null`. -/
def single : Codec Float32 where
  read := number "f32" fun n => .ok n.toFloat32
  write := Decimal.jsonText32

/-! ## Composed values -/

/-- A value or `null`. -/
def optional (codec : Codec α) : Codec (Option α) where
  read := do
    match ← look with
    | some 'n' => do take; word ['u', 'l', 'l']; pure none
    | _ => some <$> codec.read
  write
    | none => ['n', 'u', 'l', 'l']
    | some a => codec.write a

/-- Looks for the next element of a list: whether there is one, or the closing
    bracket, which is not taken. -/
def nextElement (first : Bool) : Reader Bool := do
  match ← look with
  | none => refuse .endInList
  | some ']' => pure false
  | some c =>
    if first then pure true
    else if c = ',' then do
      take
      match ← look with
      | none => refuse .endInValue
      | some ']' => refuse .trailingComma
      | some _ => pure true
    else refuse .noListSeparator

/-- Reads the elements of a list and takes the closing bracket.  An element takes
    a character at least, which bounds their number. -/
def elements (read : Reader α) : Nat → Bool → Reader (List α)
  | 0, _ => refuse .endInList
  | steps + 1, first => do
    if ← nextElement first then
      let a ← read
      let rest ← elements read steps false
      pure (a :: rest)
    else
      take
      pure []

/-- A list of values. -/
def list (codec : Codec α) : Codec (List α) where
  read := do
    match ← look with
    | some '[' => do
      take
      fun i => elements codec.read (i.rest.length + 1) true i
    | _ => mismatch "a sequence"
  write as := ['['] ++ [','].intercalate (as.map codec.write) ++ [']']

end Codec
end SidPlayback.Json
