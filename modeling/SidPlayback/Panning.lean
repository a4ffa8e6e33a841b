/-
  Stereo panning: one position for each voice of each chip slot.

  * `Panning` holds thirty positions from `0` (left) to `1` (right), chip by
    chip and voice by voice;
  * `Panning.check` accepts a list of values as a panning, or says what is wrong
    with it (`Panning.Fault`).
-/
import SidPlayback.Decimal.Layout
import SidPlayback.Failure

namespace SidPlayback

/-- The number of chips that a song may use. -/
def chipSlots : Nat := 10

/-- The number of voices of a chip. -/
def chipVoices : Nat := 3

/-- The positions of all voices. -/
structure Panning where
  values : List Float32
  size_eq : values.length = chipSlots * chipVoices

namespace Panning

/-- The number of positions. -/
def size : Nat := chipSlots * chipVoices

/-- Every voice in the middle. -/
def centered : Panning := ⟨List.replicate size 0.5, List.length_replicate⟩

/-! ## Validation -/

/-- Whether a value is a position. -/
def isPosition (v : Float32) : Bool := v.isFinite && 0.0 ≤ v && v ≤ 1.0

/-- What is wrong with a list of values. -/
inductive Fault where
  /-- It has the wrong length. -/
  | length (actual : Nat)
  /-- The value at `index`, the first such, is no position. -/
  | range (value : Float32) (index : Nat)

namespace Fault

/-- The text of a fault. -/
def message : Fault → String
  | length actual =>
    s!"panning requires {size} values ({chipSlots} SIDs x {chipVoices} voices), got {actual}"
  | range value index =>
    "panning value " ++ Decimal.plainText32 value ++ s!" at index {index} is outside 0.0..=1.0"

/-- A fault as a failure of the operation that was given the values. -/
def failure (fault : Fault) : Failure := .rejected fault.message

end Fault

/-- The first value that is no position, and its index counted from `start`. -/
def firstOutside : Nat → List Float32 → Option (Float32 × Nat)
  | _, [] => none
  | start, v :: rest => if isPosition v then firstOutside (start + 1) rest else some (v, start)

/-- Accepts a list of thirty positions as it is, and nothing else. -/
def check (values : List Float32) : Except Fault Panning :=
  if h : values.length = chipSlots * chipVoices then
    match firstOutside 0 values with
    | none => .ok ⟨values, h⟩
    | some (v, index) => .error (.range v index)
  else .error (.length values.length)

/-- The position of a voice of a chip. -/
def get? (p : Panning) (chip voice : Nat) : Option Float32 :=
  if chip < chipSlots ∧ voice < chipVoices then p.values[chip * chipVoices + voice]? else none

end Panning
end SidPlayback
