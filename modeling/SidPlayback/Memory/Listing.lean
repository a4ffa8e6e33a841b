/-
  Listings of memory: bytes as the definition of an array, twelve to a line.

  * `lines` divides bytes into lines;
  * `item` is the text of one byte;
  * `render` is the listing of bytes under a name.
-/

namespace SidPlayback.Memory.Listing

/-- The number of bytes on a full line. -/
def lineLength : Nat := 12

/-- The bytes line by line; only the last line may be shorter. -/
def lines : List UInt8 → List (List UInt8)
  | [] => []
  | b :: rest => (b :: rest.take (lineLength - 1)) :: lines (rest.drop (lineLength - 1))
termination_by bytes => bytes.length
decreasing_by simp only [List.length_drop, List.length_cons]; omega

/-- A digit in upper-case hexadecimal. -/
def hexDigit (n : Nat) : Char :=
  if n < 10 then Char.ofNat (48 + n) else Char.ofNat (55 + n)

/-- One byte, and the separator after it. -/
def item (b : UInt8) : List Char :=
  ['0', 'x', hexDigit (b.toNat / 16), hexDigit (b.toNat % 16), ',', ' ']

/-- The listing of bytes as an array of the given name. -/
def render (name : String) (bytes : List UInt8) : String :=
  let header := "const unsigned char ".toList ++ name.toList ++ "[] =\n".toList
  let body := (lines bytes).flatMap fun line => line.flatMap item ++ ['\n']
  String.ofList (header ++ ['\x7b', '\n'] ++ body ++ ['\x7d', '\n'])

end SidPlayback.Memory.Listing
