/-
  Base64, as ROM images are embedded in texts.

  A symbol carries six bits, most significant first.  Four symbols are three
  bytes; a last group of three or two symbols is two bytes or one, its unused
  low bits being ignored, and a symbol alone carries no byte.

  * `decodable` is the part of a text that is decoded: the longest run of symbols
    at its beginning, without a symbol that is left alone after the last group;
  * `decode` reads symbols, and refuses anything else;
  * `encode` writes bytes without padding, `encodePadded` with it.
-/

namespace SidPlayback.Rom.Base64

/-! ## Symbols -/

/-- The six bits that a symbol carries. -/
def value? (c : Char) : Option Nat :=
  if 'A' ≤ c ∧ c ≤ 'Z' then some (c.toNat - 65)
  else if 'a' ≤ c ∧ c ≤ 'z' then some (c.toNat - 71)
  else if '0' ≤ c ∧ c ≤ '9' then some (c.toNat + 4)
  else if c = '+' then some 62
  else if c = '/' then some 63
  else none

/-- The symbol of six bits. -/
def symbol (v : Nat) : Char :=
  if v < 26 then Char.ofNat (v + 65)
  else if v < 52 then Char.ofNat (v + 71)
  else if v < 62 then Char.ofNat (v - 4)
  else if v = 62 then '+'
  else '/'

/-- Whether a character is a symbol. -/
def isSymbol (c : Char) : Bool := c.isAlphanum || c == '+' || c == '/'

/-! ## Groups -/

/-- The bytes of six-bit values.  A value that is left alone has no place in them. -/
def bytes : List Nat → Option (List UInt8)
  | a :: b :: c :: d :: rest =>
    (bytes rest).map fun data =>
      UInt8.ofNat (a * 4 + b / 16) :: UInt8.ofNat (b % 16 * 16 + c / 4) ::
        UInt8.ofNat (c % 4 * 64 + d) :: data
  | [a, b, c] => some [UInt8.ofNat (a * 4 + b / 16), UInt8.ofNat (b % 16 * 16 + c / 4)]
  | [a, b] => some [UInt8.ofNat (a * 4 + b / 16)]
  | [_] => none
  | [] => some []

/-- The six-bit values of bytes, the unused bits of the last one being zero. -/
def groups : List UInt8 → List Nat
  | a :: b :: c :: rest =>
    a.toNat / 4 :: (a.toNat % 4 * 16 + b.toNat / 16) :: (b.toNat % 16 * 4 + c.toNat / 64) ::
      c.toNat % 64 :: groups rest
  | [a, b] => [a.toNat / 4, a.toNat % 4 * 16 + b.toNat / 16, b.toNat % 16 * 4]
  | [a] => [a.toNat / 4, a.toNat % 4 * 16]
  | [] => []

/-! ## Texts -/

/-- The part of a text that is decoded. -/
def decodable (text : List Char) : List Char :=
  let run := text.takeWhile isSymbol
  if run.length % 4 = 1 then run.dropLast else run

/-- The bytes of symbols.  A text with any other character is refused, and one that
    leaves a symbol alone. -/
def decode (text : List Char) : Option (List UInt8) := (text.mapM value?).bind bytes

/-- Bytes as symbols, without padding. -/
def encode (data : List UInt8) : List Char := (groups data).map symbol

/-- Bytes as symbols, the last group filled up to four characters with `=`. -/
def encodePadded (data : List UInt8) : List Char :=
  encode data ++ List.replicate ((3 - data.length % 3) % 3) '='

end SidPlayback.Rom.Base64
