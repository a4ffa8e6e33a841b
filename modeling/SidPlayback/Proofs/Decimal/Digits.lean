/-
  The decimal digits of a natural number, at the beginning of a text.

  Digits are read as far as they go, so a number ends where something else begins.

  * `Decimal.Bare` says that a text does not begin with a digit;
  * `Decimal.toDigits_eq_cons`: the digits of a positive number do not begin with a zero;
  * `Decimal.takeWhile_digits` and `Decimal.dropWhile_digits`: in front of such a text digits are
    read back, and the text is left.
-/
import Mathlib.Data.List.Basic

namespace SidPlayback.Decimal

/-- A text that does not begin with a digit. -/
def Bare (rest : List Char) : Prop := ∀ c ∈ rest.head?, c.isDigit = false

theorem isDigit_of_mem {n : Nat} {c : Char} (h : c ∈ Nat.toDigits 10 n) : c.isDigit = true :=
  Nat.isDigit_of_mem_toDigits (by decide) (by decide) h

/-- The digits of a positive number do not begin with a zero. -/
theorem toDigits_eq_cons {n : Nat} (hn : n ≠ 0) :
    ∃ c cs, Nat.toDigits 10 n = c :: cs ∧ c ≠ '0' := by
  induction n using Nat.strongRecOn with
  | ind n ih =>
    rw [Nat.toDigits_eq_if (by decide)]
    split
    case isTrue hlow =>
      exact ⟨_, [], rfl, fun h => hn ((Nat.digitChar_eq_zero).1 h)⟩
    case isFalse hhigh =>
      obtain ⟨c, cs, hcs, hc⟩ := ih (n / 10) (by omega) (by omega)
      exact ⟨c, cs ++ [Nat.digitChar (n % 10)], by rw [hcs, List.cons_append], hc⟩

section
variable {rest : List Char}

theorem Bare.takeWhile (h : Bare rest) : rest.takeWhile Char.isDigit = [] := by
  cases rest with
  | nil => rfl
  | cons c rest => exact List.takeWhile_cons_of_neg (by simp [h c rfl])

theorem Bare.dropWhile (h : Bare rest) : rest.dropWhile Char.isDigit = rest := by
  cases rest with
  | nil => rfl
  | cons c rest => exact List.dropWhile_cons_of_neg (by simp [h c rfl])

theorem takeWhile_digits {digits : List Char} (hdigits : ∀ c ∈ digits, c.isDigit = true) (h : Bare rest) :
    (digits ++ rest).takeWhile Char.isDigit = digits := by
  rw [List.takeWhile_append_of_pos hdigits, h.takeWhile, List.append_nil]

theorem dropWhile_digits {digits : List Char} (hdigits : ∀ c ∈ digits, c.isDigit = true) (h : Bare rest) :
    (digits ++ rest).dropWhile Char.isDigit = rest := by
  rw [List.dropWhile_append_of_pos hdigits, h.dropWhile]

end
end SidPlayback.Decimal
