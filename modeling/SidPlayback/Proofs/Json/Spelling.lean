/-
  Numbers in JSON as they are spelled.

  A value in a record ends at a comma or at the closing brace, so digits do not run together with
  what follows.

  * `Json.Ends` is what may follow a value in a record;
  * `Json.Spelling` is the text of a number, part by part, and `Json.Spelling.WellFormed.yields_read` says
    that the parts are read back;
  * `Json.Spelling.value_lexeme`: the digits are collected, and those behind the point and the
    exponent are the power of ten.
-/
import SidPlayback.Json.Number
import SidPlayback.Proofs.Decimal.Digits
import SidPlayback.Proofs.Json.Reader

namespace SidPlayback.Json

/-- What may follow a value in a record. -/
def Ends (rest : List Char) : Prop := ∀ c ∈ rest.head?, c = ',' ∨ c = '\x7d'

theorem Ends.cases {rest : List Char} (h : Ends rest) :
    rest = [] ∨ (∃ more, rest = ',' :: more) ∨ ∃ more, rest = '\x7d' :: more := by
  cases rest with
  | nil => exact .inl rfl
  | cons c more =>
    obtain rfl | rfl := h c rfl
    · exact .inr (.inl ⟨more, rfl⟩)
    · exact .inr (.inr ⟨more, rfl⟩)

theorem Ends.bare {rest : List Char} (h : Ends rest) : Decimal.Bare rest := fun c hc => by
  obtain rfl | rfl := h c hc <;> rfl

/-! ## Digits -/

/-- The values of digits. -/
def figures (digits : List Char) : List Nat := digits.map fun c => c.toNat - 48

/-- The number that digits stand for behind another number. -/
def numeral (n : Nat) (digits : List Nat) : Nat := digits.foldl (fun n d => n * 10 + d) n

theorem numeral_append (n : Nat) (ds es : List Nat) :
    numeral n (ds ++ es) = numeral (numeral n ds) es := List.foldl_append

theorem le_numeral (n : Nat) (digits : List Nat) : n ≤ numeral n digits := by
  induction digits generalizing n with
  | nil => exact Nat.le_refl n
  | cons d digits ih => exact Nat.le_trans (by omega) (ih (n * 10 + d))

/-- The number of a numeral. -/
theorem numeral_figures (n : Nat) : numeral 0 (figures (Nat.toDigits 10 n)) = n := by
  rw [numeral, figures, List.foldl_map]
  conv_rhs => rw [← Nat.ofDigitChars_ten_toDigits (n := n), Nat.ofDigitChars_eq_foldl]
  congr 1
  funext sofar c
  rw [Nat.mul_comm]
  rfl

/-- Digits are collected completely if the number is within the limit. -/
theorem collect_eq {limit n : Nat} {digits : List Nat} (h : numeral n digits ≤ limit) :
    collect limit n digits = (numeral n digits, []) := by
  induction digits generalizing n with
  | nil => rfl
  | cons d digits ih =>
    rw [collect, if_pos (Nat.le_trans (le_numeral _ digits) h)]
    exact ih h

/-! ## Spellings -/

/-- The text of a number without its sign, part by part. -/
structure Spelling where
  whole : List Char
  /-- The digits behind the point. -/
  fraction : Option (List Char)
  /-- The sign and the digits of the exponent. -/
  exponent : Option (Bool × List Char)

/-- Digits, of which there is one. -/
structure Digits (digits : List Char) : Prop where
  some : digits ≠ []
  all : ∀ c ∈ digits, c.isDigit = true

theorem digits_toDigits (n : Nat) : Digits (Nat.toDigits 10 n) :=
  ⟨Nat.toDigits_ne_nil, fun _ => Decimal.isDigit_of_mem⟩

namespace Spelling

/-- The parts are digits, and there is no zero in front of others. -/
structure WellFormed (s : Spelling) : Prop where
  whole : Digits s.whole
  leading : s.whole.head? = some '0' → s.whole = ['0']
  fraction : ∀ digits ∈ s.fraction, Digits digits
  exponent : ∀ e ∈ s.exponent, Digits e.2

/-- The text of the digits behind the point. -/
def fractionText (s : Spelling) : List Char := s.fraction.elim [] fun digits => '.' :: digits

/-- The text of the exponent. -/
def exponentText (s : Spelling) : List Char :=
  s.exponent.elim [] fun e => 'e' :: (if e.1 then '-' else '+') :: e.2

def text (s : Spelling) : List Char := s.whole ++ s.fractionText ++ s.exponentText

theorem text_eq (whole : List Char) (fraction : Option (List Char)) (exponent : Option (Bool × List Char)) :
    text ⟨whole, fraction, exponent⟩ =
      whole ++ fraction.elim [] (fun digits => '.' :: digits) ++
        exponent.elim [] fun e => 'e' :: (if e.1 then '-' else '+') :: e.2 := rfl

/-- What is read. -/
def lexeme (s : Spelling) (negative : Bool) : Lexeme :=
  ⟨negative, figures s.whole, s.fraction.map figures, s.exponent.map fun e => (e.1, figures e.2)⟩

open Lexeme

section
variable {digits rest : List Char}

theorem yields_digits (hdigits : Digits digits) (h : Decimal.Bare rest) :
    Yields Lexeme.digits (digits ++ rest) (figures digits) rest := fun offset => by
  refine ⟨offset + digits.length, ?_⟩
  unfold Lexeme.digits
  simp only [Decimal.takeWhile_digits hdigits.all h, Decimal.dropWhile_digits hdigits.all h]
  rfl

theorem yields_someDigits (atEnd : Cause) (hdigits : Digits digits) (h : Decimal.Bare rest) :
    Yields (someDigits atEnd) (digits ++ rest) (figures digits) rest := by
  refine (yields_digits hdigits h).bind ?_
  have hne : (figures digits).isEmpty = false := by simp [figures, hdigits.some]
  rw [hne]
  exact .pure _ _

theorem yields_wholeDigits (atEnd : Cause) (hdigits : Digits digits)
    (hleading : digits.head? = some '0' → digits = ['0']) (h : Decimal.Bare rest) :
    Yields (wholeDigits atEnd) (digits ++ rest) (figures digits) rest := by
  refine (yields_look? _).bind ?_
  obtain ⟨c, cs, rfl⟩ := List.exists_cons_of_ne_nil hdigits.some
  have hsome := yields_someDigits atEnd hdigits h
  rw [List.cons_append] at hsome ⊢
  simp only [List.head?_cons]
  split
  case h_1 heq =>
    obtain rfl := Option.some.inj heq
    obtain ⟨-, rfl⟩ := List.cons.inj (hleading rfl)
    refine (yields_take '0' rest).bind ((yields_look? rest).bind ?_)
    cases rest with
    | nil => exact .pure _ _
    | cons c more =>
      have := h c rfl
      simp only [List.head?_cons, this]
      exact .pure _ _
  case h_2 => exact hsome

end

section
variable {s : Spelling} {rest : List Char}

theorem bare_exponentText (h : Ends rest) : Decimal.Bare (s.exponentText ++ rest) := by
  unfold exponentText
  cases s.exponent with
  | none => exact h.bare
  | some e => exact fun c hc => by obtain rfl := Option.some.inj hc; rfl

theorem bare_fractionText (h : Ends rest) :
    Decimal.Bare (s.fractionText ++ (s.exponentText ++ rest)) := by
  unfold fractionText
  cases s.fraction with
  | none => exact bare_exponentText h
  | some digits => exact fun c hc => by obtain rfl := Option.some.inj hc; rfl

theorem yields_exponentDigits (atEnd : Cause) (hs : s.WellFormed) (h : Ends rest) :
    Yields (exponentDigits atEnd) (s.exponentText ++ rest)
      (s.exponent.map fun e => (e.1, figures e.2)) rest := by
  unfold exponentText
  cases hexponent : s.exponent with
  | none =>
    refine (yields_look? _).bind ?_
    obtain rfl | ⟨more, rfl⟩ | ⟨more, rfl⟩ := h.cases
    · exact .pure _ _
    · exact .pure _ _
    · exact .pure _ _
  | some e =>
    obtain ⟨negative, digits⟩ := e
    have hread := yields_someDigits atEnd (hs.exponent _ hexponent) h.bare
    refine (yields_look? _).bind ((yields_take 'e' _).bind ((yields_look? _).bind ?_))
    cases negative with
    | true => exact (yields_take '-' _).bind ((Yields.pure true _).bind (hread.bind (.pure _ _)))
    | false => exact (yields_take '+' _).bind ((Yields.pure false _).bind (hread.bind (.pure _ _)))

theorem yields_fractionDigits (atEnd : Cause) (hs : s.WellFormed) (h : Ends rest) :
    Yields (fractionDigits atEnd) (s.fractionText ++ (s.exponentText ++ rest))
      (s.fraction.map figures) (s.exponentText ++ rest) := by
  have hbare := bare_exponentText (s := s) h
  unfold fractionText
  cases hfraction : s.fraction with
  | none =>
    refine (yields_look? _).bind ?_
    unfold exponentText
    cases s.exponent with
    | none =>
      obtain rfl | ⟨more, rfl⟩ | ⟨more, rfl⟩ := h.cases
      · exact .pure _ _
      · exact .pure _ _
      · exact .pure _ _
    | some e => exact .pure _ _
  | some digits =>
    exact (yields_look? _).bind ((yields_take '.' _).bind
      ((yields_someDigits atEnd (hs.fraction _ hfraction) hbare).map some))

theorem isBlank_of_isDigit {c : Char} (h : c.isDigit = true) : Input.isBlank c = false := by
  by_contra hblank
  simp only [Input.isBlank, Bool.not_eq_false, Bool.or_eq_true, beq_iff_eq] at hblank
  obtain ((rfl | rfl) | rfl) | rfl := hblank <;> cases h

/-- A number begins with its sign, or with a digit. -/
theorem WellFormed.head? (hs : s.WellFormed) (negative : Bool) (rest : List Char) :
    ∃ c, ((if negative then ['-'] else []) ++ s.text ++ rest).head? = some c ∧
      (c = '-' ∨ c.isDigit = true) ∧ Input.isBlank c = false := by
  obtain ⟨c, cs, hwhole⟩ := List.exists_cons_of_ne_nil hs.whole.some
  have hdigit : c.isDigit = true := hs.whole.all c (hwhole ▸ List.mem_cons_self)
  cases negative with
  | true => exact ⟨'-', rfl, .inl rfl, rfl⟩
  | false => exact ⟨c, by simp [text, hwhole], .inr hdigit, isBlank_of_isDigit hdigit⟩

/-- **Numbers** are read as they are spelled. -/
theorem WellFormed.yields_read (hs : s.WellFormed) (atEnd : Cause) (negative : Bool) (h : Ends rest) :
    Yields (read atEnd) ((if negative then ['-'] else []) ++ s.text ++ rest) (s.lexeme negative) rest := by
  have hmagnitude : Yields (do
      let whole ← wholeDigits atEnd
      let fraction ← fractionDigits atEnd
      let exponent ← exponentDigits atEnd
      pure (⟨negative, whole, fraction, exponent⟩ : Lexeme))
      (s.text ++ rest) (s.lexeme negative) rest := by
    rw [text, List.append_assoc, List.append_assoc]
    exact (yields_wholeDigits atEnd hs.whole hs.leading (bare_fractionText h)).bind
      ((yields_fractionDigits atEnd hs h).bind ((yields_exponentDigits atEnd hs h).bind (.pure _ _)))
  refine (yields_look? _).bind ?_
  cases negative with
  | true => exact (yields_take '-' _).bind ((Yields.pure true _).bind hmagnitude)
  | false =>
    obtain ⟨c, cs, hwhole⟩ := List.exists_cons_of_ne_nil hs.whole.some
    have hdigit : c.isDigit = true := hs.whole.all c (hwhole ▸ List.mem_cons_self)
    have hhead : ([] ++ s.text ++ rest).head? = some c := by simp [text, hwhole]
    split
    case h_1 hsign =>
      obtain rfl := Option.some.inj (hhead.symm.trans hsign)
      cases hdigit
    case h_2 => exact (Yields.pure false _).bind hmagnitude

end

/-! ## Values -/

/-- The number that all digits stand for. -/
def significand (s : Spelling) : Nat := numeral 0 (figures (s.whole ++ s.fraction.getD []))

/-- The power of ten that scales it. -/
def power (s : Spelling) : Int :=
  s.exponent.elim 0 (fun e => if e.1 then -(numeral 0 (figures e.2) : Int) else numeral 0 (figures e.2)) -
    (s.fraction.getD []).length

/-- **The value** of a number that is not spelled as an integer. -/
theorem value_lexeme {s : Spelling} (negative : Bool) (hreal : s.fraction ≠ none ∨ s.exponent ≠ none)
    (hsignificand : s.significand < UInt64.size)
    (hexponent : ∀ e ∈ s.exponent, numeral 0 (figures e.2) < UInt32.size / 2) :
    (s.lexeme negative).value =
      match scale s.significand s.power with
      | some x => .ok (.real (if negative then -x else x))
      | none => .error 0 := by
  obtain ⟨whole, fraction, exponent⟩ := s
  have hall : numeral (numeral 0 (figures whole)) (figures (fraction.getD [])) =
      significand ⟨whole, fraction, exponent⟩ := by
    rw [significand, figures, figures, figures, List.map_append, numeral_append]
  have hgetD : (fraction.map figures).getD [] = figures (fraction.getD []) := by
    cases fraction <;> rfl
  have hlimit : significand ⟨whole, fraction, exponent⟩ ≤ UInt64.size - 1 := by omega
  have hwhole : collect (UInt64.size - 1) 0 (figures whole) = (numeral 0 (figures whole), []) :=
    collect_eq (Nat.le_trans (le_numeral _ (figures (fraction.getD []))) (hall ▸ hlimit))
  have hfraction : collect (UInt64.size - 1) (numeral 0 (figures whole)) (figures (fraction.getD [])) =
      (significand ⟨whole, fraction, exponent⟩, []) := by
    rw [← hall]
    exact collect_eq (hall ▸ hlimit)
  have hlength : (figures (fraction.getD [])).length = (fraction.getD []).length := List.length_map ..
  simp only [lexeme, Lexeme.value, hgetD, hwhole, hfraction, hlength, List.length_nil, Nat.sub_zero]
  cases exponent with
  | none =>
    have hpower : power ⟨whole, fraction, none⟩ = ((0 : Nat) : Int) - (fraction.getD []).length := rfl
    rw [hpower]
    cases fraction with
    | none => exact absurd hreal (by simp)
    | some digits => rfl
  | some e =>
    have hunread : collect (UInt32.size / 2 - 1) 0 (figures e.2) = (numeral 0 (figures e.2), []) :=
      collect_eq (Nat.le_sub_one_of_lt (hexponent e rfl))
    have hpower : (if e.1 then ((0 : Nat) : Int) - (fraction.getD []).length - (numeral 0 (figures e.2) : Int)
        else ((0 : Nat) : Int) - (fraction.getD []).length + (numeral 0 (figures e.2) : Int)) =
        power ⟨whole, fraction, some e⟩ := by
      simp only [power, Option.elim_some]
      split <;> omega
    simp only [Option.map_some, hunread, List.isEmpty_nil, if_true, ← hpower]
    rfl

end Spelling
end SidPlayback.Json
