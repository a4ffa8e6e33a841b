/-
  Binary floating-point numbers, read and written exactly.

  A finite number is a sign and a magnitude `m · 2^q` with natural `m`, so what
  is computed from it (digits, roundings, conversions between widths) is exact
  arithmetic on `Nat`.

  * `Format` holds the widths of an encoding; `Format.double` and
    `Format.single` are the two in use;
  * `Format.read` decodes a bit pattern into a `Reading`;
  * `Format.nearest` is the encoding of the number nearest to `m · 2^q`, ties
    to the even neighbour, too large ones becoming infinite;
  * `roundSaturating` rounds a number to a natural one, halves upwards.
-/

namespace SidPlayback.Decimal

/-- The widths of a binary encoding: sign, exponent, fraction. -/
structure Format where
  /-- The number of stored fraction bits. -/
  fractionBits : Nat
  /-- The number of exponent bits. -/
  exponentBits : Nat

namespace Format

/-- The encoding of `Float`. -/
def double : Format := ⟨52, 11⟩

/-- The encoding of `Float32`. -/
def single : Format := ⟨23, 8⟩

/-- The exponent `q` of the smallest positive number, which is `1 · 2^q`. -/
def leastExponent (f : Format) : Int :=
  2 - (Nat.pow 2 (f.exponentBits - 1) : Nat) - f.fractionBits

/-- The bit pattern of positive infinity. -/
def infinity (f : Format) : Nat := (Nat.pow 2 f.exponentBits - 1) * Nat.pow 2 f.fractionBits

end Format

/-- A magnitude `coefficient · 2 ^ exponent`, with what its neighbours need. -/
structure Magnitude where
  /-- The integer that is scaled. -/
  coefficient : Nat
  /-- The power of two that scales it. -/
  exponent : Int
  /-- The next smaller number is only half as far away as the next larger one:
      the magnitude is the first of its binade. -/
  narrowBelow : Bool

/-- What a bit pattern stands for. -/
inductive Reading where
  | nan
  | infinite (negative : Bool)
  | finite (negative : Bool) (magnitude : Magnitude)

/-- What the bit pattern `bits` stands for. -/
def Format.read (f : Format) (bits : Nat) : Reading :=
  let fraction := bits % Nat.pow 2 f.fractionBits
  let biased := bits / Nat.pow 2 f.fractionBits % Nat.pow 2 f.exponentBits
  let negative := bits.testBit (f.fractionBits + f.exponentBits)
  if biased = Nat.pow 2 f.exponentBits - 1 then
    if fraction = 0 then .infinite negative else .nan
  else if biased = 0 then
    .finite negative ⟨fraction, f.leastExponent, false⟩
  else
    .finite negative ⟨Nat.pow 2 f.fractionBits + fraction, f.leastExponent + (biased - 1 : Nat),
      fraction == 0 && 1 < biased⟩

/-- The quotient `a / 2 ^ s` rounded to the nearest integer, ties to even. -/
def shiftNearest (a s : Nat) : Nat :=
  let quotient := a / Nat.pow 2 s
  let twice := 2 * (a % Nat.pow 2 s)
  if twice < Nat.pow 2 s then quotient
  else if Nat.pow 2 s < twice then quotient + 1
  else quotient + quotient % 2

/-- The bit pattern of the number nearest to `m · 2 ^ q`: the coefficient is cut
    to the stored width (or to the least exponent), and a carry into the next
    binade is the carry into the exponent field. -/
def Format.nearest (f : Format) (m : Nat) (q : Int) : Nat :=
  if m = 0 then 0
  else
    let unit := max (q + m.log2 - f.fractionBits) f.leastExponent
    let rounded :=
      if unit ≤ q then m * Nat.pow 2 (q - unit).toNat else shiftNearest m (unit - q).toNat
    min ((unit - f.leastExponent).toNat * Nat.pow 2 f.fractionBits + rounded) f.infinity

/-- A number and its sign in the encoding `f`. -/
def Format.withSign (f : Format) (negative : Bool) (bits : Nat) : Nat :=
  if negative then Nat.pow 2 (f.fractionBits + f.exponentBits) + bits else bits

/-- What a double stands for. -/
def ofFloat (x : Float) : Reading := Format.double.read x.toBits.toNat

/-- The single-precision number nearest to a double; out of range it is infinite. -/
def narrow (x : Float) : Float32 :=
  let bits := match ofFloat x with
    | .nan => Format.single.infinity + 1
    | .infinite negative => Format.single.withSign negative Format.single.infinity
    | .finite negative m =>
      Format.single.withSign negative (Format.single.nearest m.coefficient m.exponent)
  Float32.ofBits (UInt32.ofNat bits)

/-- A magnitude rounded to a natural number, a half upwards. -/
def Magnitude.round (m : Magnitude) : Nat :=
  if 0 ≤ m.exponent then m.coefficient * Nat.pow 2 m.exponent.toNat
  else (2 * m.coefficient / Nat.pow 2 (-m.exponent).toNat + 1) / 2

/-- A number rounded to a natural one in `0..limit`: halves go upwards, negative
    numbers and `NaN` become `0`, and what exceeds the limit becomes the limit. -/
def roundSaturating (limit : Nat) (x : Float) : Nat :=
  match ofFloat x with
  | .nan | .infinite true | .finite true _ => 0
  | .infinite false => limit
  | .finite false m => min m.round limit

end SidPlayback.Decimal
