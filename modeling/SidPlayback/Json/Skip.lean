/-
  Passing over values that nobody asks for.

  The values under unknown names of a record are checked for their form only.
  The open lists and objects are kept on a stack, so that values may be nested
  to any depth.

  * `Skip.value` passes over one value.
-/
import SidPlayback.Json.Number
import SidPlayback.Json.Text

namespace SidPlayback.Json.Skip

open Reader

/-- An open list or object. -/
inductive Bracket where
  | list
  | object

namespace Bracket

/-- The character that closes it. -/
def closing : Bracket → Char
  | list => ']'
  | object => '\x7d'

/-- The fault at the end of the text. -/
def atEnd : Bracket → Cause
  | list => .endInList
  | object => .endInObject

/-- The fault of a missing separator. -/
def noSeparator : Bracket → Cause
  | list => .noListSeparator
  | object => .noObjectSeparator

end Bracket

/-- Passes over the name of an entry and its colon; in a list there is none. -/
def name : Bracket → Reader Unit
  | .list => pure ()
  | .object => do
    match ← look with
    | some '"' => do take; Text.skip
    | some _ => refuse .noKey
    | none => refuse .endInObject
    match ← look with
    | some ':' => take
    | some _ => refuse .noColon
    | none => refuse .endInObject

/-- Passes over a value that is neither list nor object and begins with `c`. -/
def scalar (c : Char) : Reader Unit := do
  if c = 'n' then do take; word ['u', 'l', 'l']
  else if c = 't' then do take; word ['r', 'u', 'e']
  else if c = 'f' then do take; word ['a', 'l', 's', 'e']
  else if c = '"' then do take; Text.skip
  else if c = '-' ∨ c.isDigit then discard (Lexeme.read .badNumber)
  else refuse .noValue

/-- What comes next. -/
inductive Stage where
  /-- A value. -/
  | value
  /-- Behind an opening bracket, or behind a value: a closing bracket, or more. -/
  | more (separated : Bool)

/-- Passes over what is needed to close all open brackets.  Of two steps one
    takes a character at least, which bounds their number. -/
def run : Nat → Stage → List Bracket → Reader Unit
  | 0, _, _ => refuse .endInValue
  | steps + 1, .value, stack => do
    match ← look with
    | none => refuse .endInValue
    | some '[' => do take; run steps (.more false) (.list :: stack)
    | some '\x7b' => do take; run steps (.more false) (.object :: stack)
    | some c => do scalar c; run steps (.more true) stack
  | _ + 1, .more _, [] => pure ()
  | steps + 1, .more separated, bracket :: stack => do
    match ← look with
    | none => refuse bracket.atEnd
    | some c =>
      if separated ∧ c = ',' then do
        take
        name bracket
        run steps .value (bracket :: stack)
      else if c = bracket.closing then do
        take
        run steps (.more true) stack
      else if separated then refuse bracket.noSeparator
      else do
        name bracket
        run steps .value (bracket :: stack)

/-- Passes over one value. -/
def value : Reader Unit := fun i => run (2 * i.rest.length + 2) .value [] i

end SidPlayback.Json.Skip
