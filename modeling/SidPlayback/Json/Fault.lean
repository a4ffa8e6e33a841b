/-
  Faults of a JSON text.

  A text may be no JSON at all, or hold other values than its reader asks for.
  A `Fault` is a cause and the place where the reader stood, as a number of
  bytes; `Fault.message` tells the place by line and column.
-/
import SidPlayback.Decimal.Layout
import SidPlayback.Text.Quoted

namespace SidPlayback.Json

/-- A value other than the one asked for. -/
inductive Found where
  | null
  | boolean (b : Bool)
  | integer (n : Int)
  | real (x : Float)
  | text (s : String)
  | list
  | object

/-- The description of a value in a message. -/
def Found.describe : Found → String
  | null => "null"
  | boolean b => s!"boolean `{b}`"
  | integer n => s!"integer `{n}`"
  | real x => "floating point `" ++ String.ofList (Decimal.jsonText x) ++ "`"
  | text s => "string " ++ Text.Quoted.quote s
  | list => "sequence"
  | object => "map"

/-- What is wrong with a text. -/
inductive Cause where
  /-- The text ends too early. -/
  | endInValue | endInList | endInObject | endInText
  /-- A character stands where another is needed. -/
  | noValue | noWord | noColon | noListSeparator | noObjectSeparator | noKey
  | trailingComma | trailingCharacters
  /-- A number is malformed, or too large. -/
  | badNumber | hugeNumber
  /-- A text holds what it must not hold. -/
  | controlCharacter | badEscape | loneSurrogate | unfinishedSurrogate
  /-- A value is not of the kind asked for, or out of its range. -/
  | wrongType (found : Found) (expected : String)
  | wrongValue (found : Found) (expected : String)
  /-- A record lacks a field, repeats it, or has too few elements. -/
  | missingField (name : String)
  | repeatedField (name : String)
  | wrongLength (length : Nat) (expected : String)

/-- The text of a cause. -/
def Cause.message : Cause → String
  | endInValue => "EOF while parsing a value"
  | endInList => "EOF while parsing a list"
  | endInObject => "EOF while parsing an object"
  | endInText => "EOF while parsing a string"
  | noValue => "expected value"
  | noWord => "expected ident"
  | noColon => "expected `:`"
  | noListSeparator => "expected `,` or `]`"
  | noObjectSeparator => "expected `,` or `\x7d`"
  | noKey => "key must be a string"
  | trailingComma => "trailing comma"
  | trailingCharacters => "trailing characters"
  | badNumber => "invalid number"
  | hugeNumber => "number out of range"
  | controlCharacter => "control character (\\u0000-\\u001F) found while parsing a string"
  | badEscape => "invalid escape"
  | loneSurrogate => "lone leading surrogate in hex escape"
  | unfinishedSurrogate => "unexpected end of hex escape"
  | wrongType found expected => "invalid type: " ++ found.describe ++ ", expected " ++ expected
  | wrongValue found expected => "invalid value: " ++ found.describe ++ ", expected " ++ expected
  | missingField name => s!"missing field `{name}`"
  | repeatedField name => s!"duplicate field `{name}`"
  | wrongLength length expected => s!"invalid length {length}, expected {expected}"

/-- A cause and the number of bytes before the place where it was found. -/
structure Fault where
  cause : Cause
  offset : Nat

/-- The line and the column of the place `offset` bytes into a text, the column
    counted in bytes; `line` and `column` are those of the text's beginning. -/
def position : List Char → Nat → Nat → Nat → Nat × Nat
  | [], _, line, column => (line, column)
  | c :: rest, offset, line, column =>
    if offset < c.utf8Size then (line, column + offset)
    else if c = '\n' then position rest (offset - 1) (line + 1) 0
    else position rest (offset - c.utf8Size) line (column + c.utf8Size)

/-- The text of a fault in the given JSON text. -/
def Fault.message (fault : Fault) (json : String) : String :=
  let (line, column) := position json.toList fault.offset 1 0
  fault.cause.message ++ s!" at line {line} column {column}"

end SidPlayback.Json
