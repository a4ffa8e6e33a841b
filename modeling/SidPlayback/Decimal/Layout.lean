/-
  The written form of floating-point numbers.

  A `Layout` collects what a text format decides: where positional notation
  ends, whether a whole number shows a point, and how a tie between two
  shortest decimals goes.

  * `Layout.plain` writes every number positionally, as messages do;
  * `Layout.json` switches to an exponent outside a range of magnitudes, and
    whole numbers end in `.0`;
  * `Layout.text` is the text of an encoded number under a layout.
-/
import SidPlayback.Decimal.Shortest

namespace SidPlayback.Decimal

/-- The decisions of a text format about numbers. -/
structure Layout where
  /-- The decimal exponents that are written positionally; `none` means all. -/
  positional : Option (Int × Int)
  /-- What follows a whole number in positional notation. -/
  wholeSuffix : List Char
  /-- How a tie between two shortest decimals goes. -/
  tie : Tie
  /-- The texts of what is no number: `NaN`, infinity and minus infinity. -/
  nan : String
  infinity : String
  negativeInfinity : String

namespace Layout

/-- Messages write all digits, and no point after a whole number. -/
def plain : Layout := ⟨none, [], .upward, "NaN", "inf", "-inf"⟩

/-- JSON writes the decimal exponents `low..high` positionally, always with a
    point, and has no text for what is no number. -/
def json (low high : Int) : Layout :=
  ⟨some (low, high), ['.', '0'], .even, "null", "null", "null"⟩

/-- The digits with a point after the first `n.point` of them, filled up with
    zeros on either side. -/
def positionalText (l : Layout) (n : Numeral) : List Char :=
  if n.point ≤ 0 then
    ['0', '.'] ++ List.replicate (-n.point).toNat '0' ++ n.digits
  else
    let whole := n.point.toNat
    if n.digits.length ≤ whole then
      n.digits ++ List.replicate (whole - n.digits.length) '0' ++ l.wholeSuffix
    else
      n.digits.take whole ++ ['.'] ++ n.digits.drop whole

/-- One digit, the others after a point, and the exponent with its sign. -/
def exponentText (n : Numeral) : List Char :=
  let exponent := n.point - 1
  let fraction := n.digits.drop 1
  n.digits.take 1 ++ (if fraction.isEmpty then [] else '.' :: fraction)
    ++ ['e', if exponent < 0 then '-' else '+'] ++ Nat.toDigits 10 exponent.natAbs

/-- The text of a numeral. -/
def numeralText (l : Layout) (n : Numeral) : List Char :=
  match l.positional with
  | none => l.positionalText n
  | some (low, high) =>
    if low ≤ n.point - 1 ∧ n.point - 1 ≤ high then l.positionalText n else exponentText n

/-- The text of a number. -/
def text (l : Layout) : Reading → List Char
  | .nan => l.nan.toList
  | .infinite false => l.infinity.toList
  | .infinite true => l.negativeInfinity.toList
  | .finite negative m =>
    (if negative then ['-'] else []) ++ l.numeralText (m.numeral l.tie)

end Layout

/-- The text of a double in a message. -/
def plainText (x : Float) : String := String.ofList (Layout.plain.text (ofFloat x))

/-- The text of a single-precision number in a message. -/
def plainText32 (x : Float32) : String :=
  String.ofList (Layout.plain.text (Format.single.read x.toBits.toNat))

/-- The text of a double in JSON. -/
def jsonText (x : Float) : List Char := (Layout.json (-5) 15).text (ofFloat x)

/-- The text of a single-precision number in JSON. -/
def jsonText32 (x : Float32) : List Char :=
  (Layout.json (-6) 12).text (Format.single.read x.toBits.toNat)

end SidPlayback.Decimal
