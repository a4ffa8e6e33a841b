/-
  Texts in JSON: characters between quotes, some of them escaped.

  An escape `\uXXXX` stands for a unit of sixteen bits; two of them, a high and a
  low surrogate, stand for a character beyond the first plane.  Other surrogates
  are faults.

  * `Text.contents` reads up to the closing quote, which it takes, and
    `Text.read` reads a text behind its opening quote;
  * `Text.write` writes a text, with its quotes.
-/
import SidPlayback.Json.Reader

namespace SidPlayback.Json.Text

/-! ## Reading -/

/-- The value of a hexadecimal digit. -/
def hexValue? (c : Char) : Option Nat :=
  if '0' ≤ c ∧ c ≤ '9' then some (c.toNat - 48)
  else if 'a' ≤ c ∧ c ≤ 'f' then some (c.toNat - 87)
  else if 'A' ≤ c ∧ c ≤ 'F' then some (c.toNat - 55)
  else none

/-- The unit of four hexadecimal digits. -/
def unit? (a b c d : Char) : Option Nat := do
  pure (((← hexValue? a) * 16 + (← hexValue? b)) * 256 + (← hexValue? c) * 16 + (← hexValue? d))

/-- Why four digits are not found `offset` bytes into the text: fewer than four
    bytes are left, or they are not digits. -/
def unitFault (rest : List Char) (offset : Nat) : Fault :=
  let bytes := rest.foldl (fun size c => size + c.utf8Size) 0
  if bytes < 4 then ⟨.endInText, offset + bytes⟩ else ⟨.badEscape, offset + 4⟩

/-- The character that a letter behind a backslash stands for. -/
def unescape? (c : Char) : Option Char :=
  match c with
  | '"' => some '"'
  | '\\' => some '\\'
  | '/' => some '/'
  | 'b' => some '\x08'
  | 'f' => some '\x0c'
  | 'n' => some '\n'
  | 'r' => some '\r'
  | 't' => some '\t'
  | _ => none

/-- Whether a unit is the second half of a pair. -/
def isLow (unit : Nat) : Bool := 0xdc00 ≤ unit && unit ≤ 0xdfff

/-- Whether a unit is the first half of a pair. -/
def isHigh (unit : Nat) : Bool := 0xd800 ≤ unit && unit ≤ 0xdbff

/-- What a unit adds to a text in which a high surrogate may be pending: another
    pending one, or a character. -/
def join (pending : Option Nat) (unit : Nat) : Except Cause (Nat ⊕ Char) :=
  match pending with
  | some high =>
    if isLow unit then
      .ok (.inr (Char.ofNat ((high - 0xd800) * 0x400 + (unit - 0xdc00) + 0x10000)))
    else .error .loneSurrogate
  | none =>
    if isLow unit then .error .loneSurrogate
    else if isHigh unit then .ok (.inl unit)
    else .ok (.inr (Char.ofNat unit))

/-- A character in front of what was read. -/
def push (c : Char) (r : Except Fault (List Char × Input)) : Except Fault (List Char × Input) :=
  r.map fun (cs, i) => (c :: cs, i)

/-- Reads up to the closing quote and takes it; the characters begin `offset`
    bytes into the text, behind a pending high surrogate or none. -/
def contents : Option Nat → List Char → Nat → Except Fault (List Char × Input)
  | _, [], offset => .error ⟨.endInText, offset⟩
  | pending, c :: rest, offset =>
    if c = '\\' then
      match rest with
      | [] => .error ⟨.endInText, offset + 1⟩
      | e :: rest =>
        if e = 'u' then
          match rest with
          | a :: b :: c :: d :: rest =>
            match unit? a b c d with
            | some unit =>
              match join pending unit with
              | .ok (.inl high) => contents (some high) rest (offset + 6)
              | .ok (.inr x) => push x (contents none rest (offset + 6))
              | .error cause => .error ⟨cause, offset + 6⟩
            | none => .error (unitFault (a :: b :: c :: d :: rest) (offset + 2))
          | rest => .error (unitFault rest (offset + 2))
        else if pending.isSome then .error ⟨.unfinishedSurrogate, offset + 2⟩
        else
          match unescape? e with
          | some x => push x (contents none rest (offset + 2))
          | none => .error ⟨.badEscape, offset + 2⟩
    else if pending.isSome then .error ⟨.unfinishedSurrogate, offset + 1⟩
    else if c = '"' then .ok ([], ⟨rest, offset + 1⟩)
    else if c.toNat < 32 then .error ⟨.controlCharacter, offset + 1⟩
    else push c (contents none rest (offset + c.utf8Size))

/-- Reads a text behind its opening quote. -/
def read : Reader String := fun i => do
  let (cs, i) ← contents none i.rest i.offset
  pure (String.ofList cs, i)

/-- Passes over a text up to its closing quote, without looking at surrogates;
    a control character is not taken. -/
def skipContents : List Char → Nat → Except Fault Input
  | [], offset => .error ⟨.endInText, offset⟩
  | c :: rest, offset =>
    if c = '\\' then
      match rest with
      | [] => .error ⟨.endInText, offset + 1⟩
      | e :: rest =>
        if e = 'u' then
          match rest with
          | a :: b :: c :: d :: rest =>
            if (unit? a b c d).isSome then skipContents rest (offset + 6)
            else .error (unitFault (a :: b :: c :: d :: rest) (offset + 2))
          | rest => .error (unitFault rest (offset + 2))
        else if (unescape? e).isSome then skipContents rest (offset + 2)
        else .error ⟨.badEscape, offset + 2⟩
    else if c = '"' then .ok ⟨rest, offset + 1⟩
    else if c.toNat < 32 then .error ⟨.controlCharacter, offset⟩
    else skipContents rest (offset + c.utf8Size)

/-- Passes over a text behind its opening quote. -/
def skip : Reader Unit := fun i => (skipContents i.rest i.offset).map fun i => ((), i)

/-! ## Writing -/

/-- A character between quotes. -/
def escape (c : Char) : List Char :=
  match c with
  | '"' => ['\\', '"']
  | '\\' => ['\\', '\\']
  | '\x08' => ['\\', 'b']
  | '\x0c' => ['\\', 'f']
  | '\n' => ['\\', 'n']
  | '\r' => ['\\', 'r']
  | '\t' => ['\\', 't']
  | c =>
    if c.toNat < 32 then
      ['\\', 'u', '0', '0', Nat.digitChar (c.toNat / 16), Nat.digitChar (c.toNat % 16)]
    else [c]

/-- A text between quotes. -/
def write (text : String) : List Char := ['"'] ++ text.toList.flatMap escape ++ ['"']

end SidPlayback.Json.Text
