/-
  Numbers in JSON.

  A `Lexeme` is a number as it is written.  `Lexeme.value` evaluates it the fast
  way: the digits are collected in a word of 64 bits, as far as they fit, and
  the result is scaled once by a power of ten in floating point.  The result is
  therefore not always the nearest double to what is written.

  * `Lexeme.read` reads a number as it is written;
  * `Lexeme.value` is its value, or the number of exponent digits after which it
    is out of range;
  * `Number.read` does both;
  * `writeInteger` writes an integer.
-/
import SidPlayback.Json.Reader

namespace SidPlayback.Json

/-! ## Written numbers -/

/-- A number as it is written, digit by digit. -/
structure Lexeme where
  negative : Bool
  whole : List Nat
  /-- The digits behind the point. -/
  fraction : Option (List Nat)
  /-- The sign and the digits of the exponent. -/
  exponent : Option (Bool × List Nat)

namespace Lexeme

open Reader

/-- Takes all digits at the beginning of the input. -/
def digits : Reader (List Nat) := fun i =>
  let run := i.rest.takeWhile Char.isDigit
  .ok (run.map fun c => c.toNat - 48, ⟨i.rest.dropWhile Char.isDigit, i.offset + run.length⟩)

/-- Refuses the next character as part of a number; `atEnd` is the cause at the
    end of the text. -/
def refuseDigit {α : Type} (atEnd : Cause) : Reader α := do
  match ← look? with
  | none => stop atEnd
  | some _ => refuse .badNumber

/-- Takes digits, of which there has to be one. -/
def someDigits (atEnd : Cause) : Reader (List Nat) := do
  let run ← digits
  if run.isEmpty then refuseDigit atEnd else pure run

/-- Takes the digits before the point: a zero alone, or others without a zero
    in front. -/
def wholeDigits (atEnd : Cause) : Reader (List Nat) := do
  match ← look? with
  | some '0' => do
    take
    match ← look? with
    | some c => if c.isDigit then refuse .badNumber else pure [0]
    | none => pure [0]
  | _ => someDigits atEnd

/-- Takes the digits behind the point, if there is a point. -/
def fractionDigits (atEnd : Cause) : Reader (Option (List Nat)) := do
  match ← look? with
  | some '.' => do
    take
    some <$> someDigits atEnd
  | _ => pure none

/-- Takes the sign and the digits of an exponent, if there is one. -/
def exponentDigits (atEnd : Cause) : Reader (Option (Bool × List Nat)) := do
  match ← look? with
  | some 'e' | some 'E' => do
    take
    let negative ← match ← look? with
      | some '-' => do take; pure true
      | some '+' => do take; pure false
      | _ => pure false
    let run ← someDigits atEnd
    pure (some (negative, run))
  | _ => pure none

/-- Reads a number as it is written. -/
def read (atEnd : Cause) : Reader Lexeme := do
  let negative ← match ← look? with
    | some '-' => do take; pure true
    | _ => pure false
  let whole ← wholeDigits atEnd
  let fraction ← fractionDigits atEnd
  let exponent ← exponentDigits atEnd
  pure ⟨negative, whole, fraction, exponent⟩

end Lexeme

/-! ## Values -/

/-- The value of a number: a natural number below `2 ^ 64`, minus a number from
    `1` to `2 ^ 63`, or a double. -/
inductive Number where
  | natural (n : Nat)
  | negative (n : Nat)
  | real (x : Float)

/-- Appends digits to `n` as long as the result does not exceed `limit`, and
    returns the digits left. -/
def collect (limit : Nat) : Nat → List Nat → Nat × List Nat
  | n, [] => (n, [])
  | n, d :: rest => if n * 10 + d ≤ limit then collect limit (n * 10 + d) rest else (n, d :: rest)

/-- The double `10 ^ e`, for `e` up to `308`. -/
def powerOfTen (e : Nat) : Float := Float.ofScientific 1 false e

/-- Divides by `10 ^ 308`, at most the given number of times; a zero stays as it is. -/
def lower : Nat → Float → Float
  | 0, x => x
  | times + 1, x => if x == 0.0 then x else lower times (x / powerOfTen 308)

/-- The double `significand · 10 ^ exponent`, scaled once, unless the exponent is
    below every power of ten; `none` if it is out of range. -/
def scale (significand : Nat) (exponent : Int) : Option Float :=
  let x := (UInt64.ofNat significand).toFloat
  if 308 < exponent then
    if x == 0.0 then some x else none
  else if 0 ≤ exponent then
    let y := x * powerOfTen exponent.toNat
    if y.isInf then none else some y
  else
    let places := exponent.natAbs
    let times := (places - 1) / 308
    some (lower times x / powerOfTen (places - 308 * times))

namespace Lexeme

/-- The value of a number.  If it is out of range, the number of characters that
    the reader has not looked at when it finds out. -/
def value (l : Lexeme) : Except Nat Number :=
  let (n, extra) := collect (UInt64.size - 1) 0 l.whole
  let fraction := l.fraction.getD []
  let (significand, dropped) := collect (UInt64.size - 1) n fraction
  let places : Int := extra.length - (fraction.length - dropped.length : Nat)
  let real (x : Float) : Number := .real (if l.negative then -x else x)
  let scaled (exponent : Int) : Except Nat Number :=
    match scale significand exponent with
    | some x => .ok (real x)
    | none => .error 0
  match l.fraction, l.exponent with
  | none, none =>
    if extra.isEmpty then
      if !l.negative then .ok (.natural n)
      else if 0 < n ∧ n ≤ UInt64.size / 2 then .ok (.negative n)
      else .ok (real (UInt64.ofNat n).toFloat)
    else scaled places
  | _, none => scaled places
  | _, some (negative, digits) =>
    let (e, unread) := collect (UInt32.size / 2 - 1) 0 digits
    if unread.isEmpty then scaled (if negative then places - e else places + e)
    else if significand ≠ 0 ∧ !negative then .error (unread.length - 1)
    else .ok (real 0.0)

end Lexeme

namespace Number

/-- Reads a number and evaluates it. -/
def read : Reader Number := do
  let l ← Lexeme.read .endInValue
  match l.value with
  | .ok n => pure n
  | .error unread => fun i => .error ⟨.hugeNumber, i.offset - unread⟩

/-- A number as a value that was found. -/
def found : Number → Found
  | natural n => .integer n
  | negative n => .integer (-n)
  | real x => .real x

/-- The number as an integer, if it is written as one. -/
def integer? : Number → Option Int
  | natural n => some n
  | negative n => some (-n)
  | real _ => none

/-- The number as a double. -/
def toFloat : Number → Float
  | natural n => (UInt64.ofNat n).toFloat
  | negative n => -(UInt64.ofNat n).toFloat
  | real x => x

/-- The number as a single-precision number, rounded once. -/
def toFloat32 : Number → Float32
  | natural n => (UInt64.ofNat n).toFloat32
  | negative n => -(UInt64.ofNat n).toFloat32
  | real x => Decimal.narrow x

end Number

/-- Writes an integer. -/
def writeInteger (n : Int) : List Char :=
  if n < 0 then '-' :: Nat.toDigits 10 n.natAbs else Nat.toDigits 10 n.natAbs

end SidPlayback.Json
