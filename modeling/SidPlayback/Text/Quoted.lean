/-
  Texts in quotes, for messages.

  A text stands between double quotes; a quote, a backslash, the usual controls
  and NUL are written with a backslash and a letter, and every other character
  without a shape of its own by its code point, as `\u{a0}`.

  * `quote` is the quoted text.
-/
import SidPlayback.Text.Hidden

namespace SidPlayback.Text.Quoted

/-- A code point in lower-case hexadecimal between braces. -/
def codePoint (c : Char) : List Char :=
  ['\\', 'u', '\x7b'] ++ Nat.toDigits 16 c.toNat ++ ['\x7d']

/-- A character inside quotes. -/
def escape (c : Char) : List Char :=
  match c with
  | '\x00' => ['\\', '0']
  | '\t' => ['\\', 't']
  | '\n' => ['\\', 'n']
  | '\r' => ['\\', 'r']
  | '"' => ['\\', '"']
  | '\\' => ['\\', '\\']
  | c =>
    if c.toNat < 32 ∨ c.toNat = 127 ∨ Hidden.isHidden c then codePoint c else [c]

/-- A text in quotes. -/
def quote (text : String) : String :=
  String.ofList (['"'] ++ text.toList.flatMap escape ++ ['"'])

end SidPlayback.Text.Quoted
