/-
  Texts in extended ASCII, as songs carry them.

  A text field is terminated by a zero byte or by its fixed length.  Bytes up to
  127 are characters; the others have no agreed meaning and are kept as numeric
  character references.

  * `significant` is the part of a field that counts;
  * `decode` is its text.
-/

namespace SidPlayback.Text.Extended

/-- The number of bytes of a field that are looked at. -/
def fieldLength : Nat := 32

/-- The bytes of a field before its terminator. -/
def significant (bytes : List UInt8) : List UInt8 :=
  (bytes.take fieldLength).takeWhile (· != 0)

/-- The text of one byte: the character, or `&#N;` for a byte above 127. -/
def rendering (b : UInt8) : List Char :=
  if b < 128 then [Char.ofNat b.toNat]
  else ['&', '#'] ++ Nat.toDigits 10 b.toNat ++ [';']

/-- The text of a field. -/
def decode (bytes : List UInt8) : String :=
  String.ofList ((significant bytes).flatMap rendering)

end SidPlayback.Text.Extended
