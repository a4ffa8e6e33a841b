/-
  Records in JSON: values under fixed names.

  A record is described once, by its fields in their order; reading and writing
  follow from the description.  It is read from an object, whose unknown names
  are passed over, or from a list of the values in order.  A lenient record
  keeps its defaults for what is missing.

  * `Field` describes a field, `Record` a record;
  * `Record.parse` reads a record from a text, `Record.render` writes its text;
  * `Record.decode` is the same reading for callers that report failures.
-/
import SidPlayback.Failure
import SidPlayback.Json.Codec
import SidPlayback.Json.Skip

namespace SidPlayback.Json

/-- A field of a record: its name, the reader of the change that its value makes
    to the record, and its writer. -/
structure Field (α : Type) where
  name : String
  read : Reader (α → α)
  write : α → List Char

/-- The field with the given name, codec, and access to the record. -/
def Field.of {α β : Type} (name : String) (codec : Codec β) (get : α → β) (set : β → α → α) :
    Field α where
  name := name
  read := set <$> codec.read
  write a := codec.write (get a)

/-- A record of type `α`. -/
structure Record (α : Type) where
  /-- What messages call it. -/
  name : String
  /-- The record before any field was read. -/
  blank : α
  /-- Fields may be missing. -/
  lenient : Bool
  fields : List (Field α)

namespace Record

open Reader

variable {α : Type}

/-! ## Objects -/

/-- Looks for the next name of an object, and takes its opening quote; or for the
    closing brace, which is not taken. -/
def nextName (first : Bool) : Reader Bool := do
  match ← look with
  | none => refuse .endInObject
  | some '\x7d' => pure false
  | some c =>
    if first then
      if c = '"' then do take; pure true else refuse .noKey
    else if c = ',' then do
      take
      match ← look with
      | none => refuse .endInValue
      | some '"' => do take; pure true
      | some '\x7d' => refuse .trailingComma
      | some _ => refuse .noKey
    else refuse .noObjectSeparator

/-- Takes the colon behind a name. -/
def colon : Reader Unit := do
  match ← look with
  | some ':' => take
  | some _ => refuse .noColon
  | none => refuse .endInObject

/-- Stops behind the closing brace if it comes next, and else before what does. -/
def stopClosing {β : Type} (cause : Cause) : Reader β := do
  match ← look with
  | some '\x7d' => do take; stop cause
  | _ => stop cause

/-- Reads the entries of an object and takes the closing brace; returns the names
    of the fields that were read.  An entry takes a character at least, which
    bounds their number. -/
def entries (fields : List (Field α)) :
    Nat → Bool → List String → α → Reader (List String × α)
  | 0, _, _, _ => refuse .endInObject
  | steps + 1, first, seen, a => do
    if ← nextName first then
      let name ← Text.read
      match fields.find? (·.name == name) with
      | some field =>
        if seen.contains name then stopClosing (.repeatedField name)
        else do
          colon
          let change ← field.read
          entries fields steps false (name :: seen) (change a)
      | none => do
        colon
        Skip.value
        entries fields steps false seen a
    else
      take
      pure (seen, a)

/-- Reads a record from an object, behind the opening brace. -/
def fromObject (r : Record α) : Reader α := do
  let (seen, a) ← fun i => entries r.fields (i.rest.length + 1) true [] r.blank i
  match r.fields.find? fun field => !r.lenient && !seen.contains field.name with
  | some field => stop (.missingField field.name)
  | none => pure a

/-! ## Lists -/

/-- What a list has to be, in messages. -/
def expectedLength (r : Record α) : String := s!"{r.name} with {r.fields.length} elements"

/-- Reads the values of the fields from the elements of a list; the closing
    bracket is not taken. -/
def values (r : Record α) : List (Field α) → Nat → α → Reader α
  | [], _, a => pure a
  | field :: rest, index, a => do
    if ← Codec.nextElement (index == 0) then
      let change ← field.read
      values r rest (index + 1) (change a)
    else if r.lenient then pure a
    else do
      take
      stop (.wrongLength index r.expectedLength)

/-- Takes the closing bracket of a list that has all its elements. -/
def closeList : Reader Unit := do
  match ← look with
  | none => refuse .endInList
  | some ']' => take
  | some ',' => do
    take
    match ← look with
    | some ']' => refuse .trailingComma
    | _ => refuse .trailingCharacters
  | some _ => refuse .trailingCharacters

/-- Reads a record from a list, behind the opening bracket. -/
def fromList (r : Record α) : Reader α := do
  let a ← r.values r.fields 0 r.blank
  closeList
  pure a

/-! ## Texts -/

/-- Reads a record. -/
def read (r : Record α) : Reader α := do
  match ← look with
  | none => refuse .endInValue
  | some '\x7b' => do take; r.fromObject
  | some '[' => do take; r.fromList
  | some _ => Codec.mismatch r.name

/-- Reads a record from a complete text. -/
def parse (r : Record α) (text : String) : Except Fault α := whole r.read text

/-- Reads a record from a complete text; what is wrong with the text fails the
    operation that was given it. -/
def decode (r : Record α) (text : String) : Except Failure α :=
  (r.parse text).mapError fun fault => .configuration (fault.message text)

/-- Writes a record as an object, the fields in their order. -/
def write (r : Record α) (a : α) : List Char :=
  let entry (field : Field α) : List Char := Text.write field.name ++ [':'] ++ field.write a
  ['\x7b'] ++ [','].intercalate (r.fields.map entry) ++ ['\x7d']

/-- The text of a record. -/
def render (r : Record α) (a : α) : String := String.ofList (r.write a)

end Record
end SidPlayback.Json
