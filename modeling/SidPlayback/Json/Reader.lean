/-
  Reading a JSON text from the front.

  A reader takes what it needs from the input and leaves the rest, or stops with
  a fault.  Faults are placed either where the reader stands, or behind the
  character that it refuses to take (`refuse`).

  * `Input` is the text that is left, and the number of bytes before it;
  * `Reader` is the monad of readers;
  * `look` shows the next character that is not blank;
  * `whole` reads a complete text.
-/
import SidPlayback.Json.Fault

namespace SidPlayback.Json

/-- The rest of a text, and the number of bytes before it. -/
structure Input where
  rest : List Char
  offset : Nat

namespace Input

/-- The beginning of a text. -/
def ofText (text : String) : Input := ⟨text.toList, 0⟩

/-- The input behind its first character. -/
def advance : Input → Input
  | ⟨[], offset⟩ => ⟨[], offset⟩
  | ⟨c :: rest, offset⟩ => ⟨rest, offset + c.utf8Size⟩

/-- Whether a character may stand between tokens. -/
def isBlank (c : Char) : Bool := c == ' ' || c == '\n' || c == '\t' || c == '\r'

/-- The input behind the blanks at its beginning. -/
def skipBlanks (i : Input) : Input :=
  ⟨i.rest.dropWhile isBlank, i.offset + (i.rest.takeWhile isBlank).length⟩

/-- The place behind the next byte, if there is one. -/
def behind (i : Input) : Nat := if i.rest.isEmpty then i.offset else i.offset + 1

end Input

/-- A reader of values of type `α`. -/
abbrev Reader (α : Type) : Type := StateT Input (Except Fault) α

namespace Reader

variable {α : Type}

/-- Stops where the reader stands. -/
def stop (cause : Cause) : Reader α := fun i => .error ⟨cause, i.offset⟩

/-- Stops behind the next byte, which is refused; at the end of the text, stops there. -/
def refuse (cause : Cause) : Reader α := fun i => .error ⟨cause, i.behind⟩

/-- The next character, which is not taken. -/
def look? : Reader (Option Char) := fun i => .ok (i.rest.head?, i)

/-- Takes the next character. -/
def take : Reader Unit := fun i => .ok ((), i.advance)

/-- Takes the blanks, and shows the next character. -/
def look : Reader (Option Char) := fun i => .ok (i.skipBlanks.rest.head?, i.skipBlanks)

/-- Takes the given characters. -/
def word : List Char → Reader Unit
  | [] => pure ()
  | c :: cs => do
    match ← look? with
    | none => stop .endInValue
    | some d => if d = c then do take; word cs else refuse .noWord

/-- Reads a complete text, behind which only blanks may follow. -/
def whole (r : Reader α) (text : String) : Except Fault α := do
  let (a, i) ← r (.ofText text)
  let i := i.skipBlanks
  if i.rest.isEmpty then pure a else throw ⟨.trailingCharacters, i.behind⟩

end Reader
end SidPlayback.Json
