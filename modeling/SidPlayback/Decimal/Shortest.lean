/-
  Shortest decimal digits of a binary floating-point number.

  Of all decimals that read back as the given number, the one with the fewest
  digits is taken, and of those the one nearest to the number.  The search runs
  over ever finer decimal grids; on each grid only the two neighbours of the
  number have to be tried, since a grid point between them and an end of the
  interval lies in the interval only if a neighbour does.

  * `Span` is the interval of the decimals that read back, over a common
    denominator;
  * `Span.onGrid` picks the grid point to write, if there is one;
  * `Magnitude.numeral` is the result, as digits and the place of the point.
-/
import SidPlayback.Decimal.Binary

namespace SidPlayback.Decimal

/-- Which of two equally near decimals is written. -/
inductive Tie where
  | even
  | upward

/-- A number and the interval of the decimals that read back as it: the
    numerators `low`, `value` and `high` over one denominator. -/
structure Span where
  low : Nat
  value : Nat
  high : Nat
  denominator : Nat
  /-- The ends of the interval read back too. -/
  closed : Bool

namespace Span

/-- The span of a magnitude: up to half the way to either neighbour, ends
    included if the coefficient is even, since ties are read to even. -/
def ofMagnitude (m : Magnitude) : Span :=
  let q := m.exponent - 2
  let scale := Nat.pow 2 q.toNat
  let four := 4 * m.coefficient
  { low := (four - if m.narrowBelow then 1 else 2) * scale
    value := four * scale
    high := (four + 2) * scale
    denominator := Nat.pow 2 (-q).toNat
    closed := m.coefficient % 2 == 0 }

/-- The span in units of `10 ^ p`. -/
def inUnits (s : Span) (p : Int) : Span :=
  let up := Nat.pow 10 (-p).toNat
  { s with
    low := s.low * up
    value := s.value * up
    high := s.high * up
    denominator := s.denominator * Nat.pow 10 p.toNat }

/-- Whether the integer `c` lies in the span. -/
def contains (s : Span) (c : Nat) : Bool :=
  let x := c * s.denominator
  if s.closed then s.low ≤ x && x ≤ s.high else s.low < x && x < s.high

/-- The integer of the span nearest to its value, if the span has one. -/
def pick (tie : Tie) (s : Span) : Option Nat :=
  let below := s.value / s.denominator
  let rest := 2 * (s.value % s.denominator)
  let nearer :=
    if rest < s.denominator then below
    else if s.denominator < rest then below + 1
    else match tie with
      | .even => below + below % 2
      | .upward => below + 1
  if s.contains nearer then some nearer
  else if s.contains below then some below
  else if s.contains (below + 1) then some (below + 1)
  else none

/-- The multiple of `10 ^ p` to write, in units of `10 ^ p`. -/
def onGrid (tie : Tie) (s : Span) (p : Int) : Option Nat := (s.inUnits p).pick tie

/-- The number of decimal digits before the point; not positive if the first
    digit stands after the point. -/
def width (s : Span) : Int :=
  let digits (n : Nat) : Int := (Nat.toDigits 10 n).length
  if s.denominator ≤ s.value then digits (s.value / s.denominator)
  else 1 - digits ((s.denominator - 1) / s.value)

/-- Tries the grids `10 ^ p`, `10 ^ (p - 1)`, …; `steps` bounds their number. -/
def search (tie : Tie) (s : Span) : Nat → Int → Nat × Int
  | 0, p => ((s.inUnits p).value / (s.inUnits p).denominator, p)
  | steps + 1, p =>
    match s.onGrid tie p with
    | some c => (c, p)
    | none => search tie s steps (p - 1)

end Span

/-- A positive decimal `0.d₁d₂… · 10 ^ point`, without zeros at its end. -/
structure Numeral where
  digits : List Char
  point : Int

namespace Numeral

/-- The numeral of `c · 10 ^ p`. -/
def ofScaled (c : Nat) (p : Int) : Numeral :=
  let digits := Nat.toDigits 10 c
  ⟨(digits.reverse.dropWhile (· == '0')).reverse, digits.length + p⟩

/-- The numeral of zero has one digit, before the point. -/
def zero : Numeral := ⟨['0'], 1⟩

end Numeral

/-- The shortest digits that read back as the magnitude.  Seventeen digits are
    enough to tell apart the numbers of both encodings. -/
def Magnitude.numeral (tie : Tie) (m : Magnitude) : Numeral :=
  if m.coefficient = 0 then .zero
  else
    let span := Span.ofMagnitude m
    let (c, p) := span.search tie 17 (span.width - 1)
    .ofScaled c p

end SidPlayback.Decimal
