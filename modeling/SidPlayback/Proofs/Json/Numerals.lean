/-
  The numerals of doubles in JSON.

  A numeral is spelled in one of four ways, and what is collected of it is the numeral again: its
  digits, possibly with zeros behind them, and the power of ten that belongs to them.

  * `Json.Spelled` are the four ways, and `Json.exists_spelled` says that there is no other;
  * `Json.Spelled.collected`: what is collected;
  * `Json.proper_ofScaled`: the numerals that are searched.
-/
import SidPlayback.Decimal.Layout
import SidPlayback.Proofs.Json.Spelling
import Mathlib

namespace SidPlayback

/-- Few digits, in places near the point. -/
structure Decimal.Numeral.Short (n : Decimal.Numeral) : Prop where
  digits : n.digits.length ≤ 15
  places : n.digits.length ≤ n.point + 22
  point : n.point ≤ 14

namespace Json

open Decimal

/-! ## Digits and zeros -/

theorem figures_append (ds es : List Char) : figures (ds ++ es) = figures ds ++ figures es :=
  List.map_append

/-- Zeros behind a number. -/
theorem numeral_zeros (n k : ℕ) : numeral n (figures (List.replicate k '0')) = n * 10 ^ k := by
  induction k generalizing n with
  | zero => exact (Nat.mul_one n).symm
  | succ k ih =>
    rw [Nat.pow_succ', ← Nat.mul_assoc]
    exact ih (n * 10)

theorem figure_lt {c : Char} (h : c.isDigit = true) : c.toNat - 48 < 10 := by
  have hhigh : c.toNat ≤ 57 := (Char.isDigit_iff_toNat.1 h).2
  omega

theorem numeral_lt {digits : List Char} (h : ∀ c ∈ digits, c.isDigit = true) (n : ℕ) :
    numeral n (figures digits) < (n + 1) * 10 ^ digits.length := by
  induction digits generalizing n with
  | nil => simp [numeral, figures]
  | cons c digits ih =>
    rw [List.forall_mem_cons] at h
    have hc := figure_lt h.1
    refine (ih h.2 (n * 10 + (c.toNat - 48))).trans_le ?_
    rw [List.length_cons, Nat.pow_succ', ← Nat.mul_assoc]
    exact Nat.mul_le_mul_right _ (by omega)

/-! ## Numerals -/

/-- Digits without a zero in front, or zero. -/
structure Proper (n : Numeral) : Prop where
  digits : Digits n.digits
  leading : n.digits.head? = some '0' → n = .zero

/-- The number that the digits stand for. -/
def digitsOf (n : Numeral) : ℕ := numeral 0 (figures n.digits)

theorem digitsOf_lt {n : Numeral} (hn : Proper n) : digitsOf n < 10 ^ n.digits.length := by
  have hless := numeral_lt hn.digits.all 0
  rwa [Nat.zero_add, Nat.one_mul] at hless

/-- With zeros there are not more digits than places before the point, and one behind it. -/
theorem before_lt {n : Numeral} (hn : Proper n) (hlength : n.digits.length ≤ n.point) :
    digitsOf n * 10 ^ (n.point - n.digits.length + 1).toNat < 10 ^ (n.point + 1).toNat := by
  have hplaces : (n.point + 1).toNat = n.digits.length + (n.point - n.digits.length + 1).toNat := by omega
  rw [hplaces, Nat.pow_add]
  exact Nat.mul_lt_mul_of_pos_right (digitsOf_lt hn) (Nat.pow_pos (by decide))

/-! ## Spellings -/

/-- The four ways to spell a numeral. -/
inductive Spelled (n : Numeral) : Spelling → Prop where
  /-- Zeros stand between the point and the digits. -/
  | behind : -5 < n.point → n.point ≤ 0 →
      Spelled n ⟨['0'], some (List.replicate (-n.point).toNat '0' ++ n.digits), none⟩
  /-- Zeros stand between the digits and the point. -/
  | before : n.digits.length ≤ n.point.toNat → n.point ≤ 16 →
      Spelled n ⟨n.digits ++ List.replicate (n.point.toNat - n.digits.length) '0', some ['0'], none⟩
  /-- The point stands between the digits. -/
  | between : 0 < n.point → n.point.toNat < n.digits.length → n.point ≤ 16 →
      Spelled n ⟨n.digits.take n.point.toNat, some (n.digits.drop n.point.toNat), none⟩
  /-- One digit, and one digit only, stands before the point. -/
  | scaled (fraction : Option (List Char)) : n.point ≤ -5 ∨ 16 < n.point →
      fraction = (if (n.digits.drop 1).isEmpty then none else some (n.digits.drop 1)) →
      Spelled n ⟨n.digits.take 1, fraction,
        some (decide (n.point - 1 < 0), Nat.toDigits 10 (n.point - 1).natAbs)⟩

/-- **Numerals** are spelled in one of the four ways. -/
theorem exists_spelled (n : Numeral) :
    ∃ s, Spelled n s ∧ (Layout.json (-5) 15).numeralText n = s.text := by
  have hpositional : (Layout.json (-5) 15).numeralText n =
      if -5 ≤ n.point - 1 ∧ n.point - 1 ≤ 15 then (Layout.json (-5) 15).positionalText n
      else Layout.exponentText n := rfl
  rw [hpositional]
  split
  case isTrue hrange =>
    unfold Layout.positionalText
    split
    case isTrue hpoint => exact ⟨_, .behind (by omega) hpoint, by simp [Spelling.text_eq]⟩
    case isFalse hpoint =>
      dsimp only
      split
      case isTrue hlength =>
        exact ⟨_, .before hlength (by omega), by simp [Spelling.text_eq, Layout.json]⟩
      case isFalse hlength =>
        exact ⟨_, .between (by omega) (by omega) (by omega), by simp [Spelling.text_eq]⟩
  case isFalse hrange =>
    refine ⟨_, .scaled _ (by omega) rfl, ?_⟩
    simp only [Layout.exponentText, Spelling.text_eq, Option.elim_some, decide_eq_true_eq]
    rw [List.append_assoc]
    split <;> rfl

namespace Spelled
variable {n : Numeral} {s : Spelling}

theorem wellFormed (h : Spelled n s) (hn : Proper n) : s.WellFormed := by
  have hdigits := hn.digits
  have hzeros (k : ℕ) : ∀ c ∈ List.replicate k '0', c.isDigit = true := fun c hc => by
    rw [List.eq_of_mem_replicate hc]
    rfl
  cases h with
  | behind =>
    refine ⟨⟨by simp, by simp⟩, fun _ => rfl, ?_, nofun⟩
    rintro _ ⟨⟩
    exact ⟨by simp [hdigits.some], List.forall_mem_append.2 ⟨hzeros _, hdigits.all⟩⟩
  | before hlength =>
    refine ⟨⟨by simp [hdigits.some], List.forall_mem_append.2 ⟨hdigits.all, hzeros _⟩⟩, ?_, ?_, nofun⟩
    · intro hhead
      rw [List.head?_append_of_ne_nil _ hdigits.some] at hhead
      rw [hn.leading hhead]
      rfl
    · rintro _ ⟨⟩
      exact digits_toDigits 0
  | between hpos hlength =>
    have hsome : 0 < n.point.toNat := by omega
    refine ⟨⟨?_, fun c hc => hdigits.all c (List.mem_of_mem_take hc)⟩, ?_, ?_, nofun⟩
    · exact List.ne_nil_of_length_pos (by rw [List.length_take]; omega)
    · intro hhead
      rw [List.head?_take, if_neg hsome.ne'] at hhead
      rw [hn.leading hhead] at hlength
      cases hlength.ne rfl
    · rintro _ ⟨⟩
      exact ⟨List.ne_nil_of_length_pos (by rw [List.length_drop]; omega),
        fun c hc => hdigits.all c (List.mem_of_mem_drop hc)⟩
  | scaled fraction hpoint hfraction =>
    have hlength : 0 < n.digits.length := List.length_pos_of_ne_nil hdigits.some
    refine ⟨⟨?_, fun c hc => hdigits.all c (List.mem_of_mem_take hc)⟩, ?_, ?_, ?_⟩
    · exact List.ne_nil_of_length_pos (by rw [List.length_take]; omega)
    · intro hhead
      rw [List.head?_take, if_neg one_ne_zero] at hhead
      rw [hn.leading hhead] at hpoint
      have hone : Numeral.zero.point = 1 := rfl
      omega
    · intro digits hmem
      rw [hfraction] at hmem
      split at hmem
      case isTrue => cases hmem
      case isFalse hmore =>
        obtain rfl := Option.some.inj hmem
        exact ⟨by simpa using hmore, fun c hc => hdigits.all c (List.mem_of_mem_drop hc)⟩
    · rintro _ ⟨⟩
      exact digits_toDigits _

/-- **What is collected** of a numeral are its digits, or its digits with zeros. -/
theorem collected (h : Spelled n s) (hn : Proper n) :
    (s.significand = digitsOf n ∧ s.power = n.point - n.digits.length) ∨
      (s.significand = digitsOf n * 10 ^ (n.point - n.digits.length + 1).toNat ∧ s.power = -1 ∧
        n.digits.length ≤ n.point ∧ n.point ≤ 16) := by
  have hsome : 0 < n.digits.length := List.length_pos_of_ne_nil hn.digits.some
  cases h with
  | behind _ hpoint =>
    left
    constructor
    · have hzeros := numeral_zeros 0 ((-n.point).toNat + 1)
      rw [Nat.zero_mul] at hzeros
      show numeral 0 (figures ('0' :: (List.replicate _ '0' ++ n.digits))) = _
      rw [← List.cons_append, ← List.replicate_succ, figures_append, numeral_append, hzeros]
      rfl
    · show (0 : ℤ) - (List.replicate _ '0' ++ n.digits).length = _
      rw [List.length_append, List.length_replicate]
      omega
  | before hlength hpoint =>
    right
    refine ⟨?_, rfl, by omega, hpoint⟩
    show numeral 0 (figures (n.digits ++ List.replicate _ '0' ++ List.replicate 1 '0')) = _
    rw [List.append_assoc, List.replicate_append_replicate, figures_append, numeral_append, numeral_zeros]
    have hplaces : n.point.toNat - n.digits.length + 1 = (n.point - n.digits.length + 1).toNat := by omega
    rw [hplaces]
    rfl
  | between hpos hlength =>
    left
    constructor
    · show numeral 0 (figures (n.digits.take _ ++ n.digits.drop _)) = _
      rw [List.take_append_drop]
      rfl
    · show (0 : ℤ) - (n.digits.drop _).length = _
      rw [List.length_drop]
      omega
  | scaled fraction hpoint hfraction =>
    left
    have hall : fraction.getD [] = n.digits.drop 1 := by
      rw [hfraction]
      split
      case isTrue hnone => exact (List.isEmpty_iff.1 hnone).symm
      case isFalse => rfl
    constructor
    · show numeral 0 (figures (n.digits.take 1 ++ fraction.getD [])) = _
      rw [hall, List.take_append_drop]
      rfl
    · simp only [Spelling.power, Option.elim_some, numeral_figures, hall, List.length_drop,
        decide_eq_true_eq]
      split <;> omega

/-- The number does not depend on how it is spelled. -/
theorem number (h : Spelled n s) (hn : Proper n) :
    (s.significand : ℚ) * 10 ^ s.power = digitsOf n * 10 ^ (n.point - n.digits.length) := by
  rcases h.collected hn with ⟨hs, hp⟩ | ⟨hs, hp, hlength, -⟩
  · rw [hs, hp]
  · obtain ⟨k, hk⟩ := Int.eq_ofNat_of_zero_le (Int.sub_nonneg.2 hlength)
    have hnext : (n.point - n.digits.length + 1).toNat = k + 1 := by omega
    rw [hs, hp, hnext, hk, zpow_natCast]
    push_cast
    rw [pow_succ, zpow_neg_one]
    field_simp

theorem significand_le (h : Spelled n s) (hn : Proper n) (hdigits : digitsOf n ≤ 10 ^ 17) :
    s.significand ≤ 10 ^ 17 := by
  rcases h.collected hn with ⟨hs, -⟩ | ⟨hs, -, hlength, hpoint⟩
  · exact hs ▸ hdigits
  · rw [hs]
    exact (before_lt hn hlength).le.trans (Nat.pow_le_pow_right (by decide) (by omega))

/-- Of a numeral with few digits, few digits are collected. -/
theorem few (h : Spelled n s) (hn : Proper n) (hshort : n.Short) :
    s.significand < 2 ^ 53 ∧ -22 ≤ s.power ∧ s.power ≤ 22 := by
  obtain ⟨hfew, hplaces, hpoint⟩ := hshort
  have hsome : 0 < n.digits.length := List.length_pos_of_ne_nil hn.digits.some
  have hlimit : 10 ^ 15 ≤ 2 ^ 53 := by decide
  rcases h.collected hn with ⟨hs, hp⟩ | ⟨hs, hp, hlength, -⟩
  · refine ⟨?_, by omega, by omega⟩
    rw [hs]
    calc digitsOf n < 10 ^ n.digits.length := digitsOf_lt hn
      _ ≤ 10 ^ 15 := Nat.pow_le_pow_right (by decide) hfew
      _ ≤ 2 ^ 53 := hlimit
  · refine ⟨?_, by omega, by omega⟩
    rw [hs]
    calc _ < 10 ^ (n.point + 1).toNat := before_lt hn hlength
      _ ≤ 10 ^ 15 := Nat.pow_le_pow_right (by decide) (by omega)
      _ ≤ 2 ^ 53 := hlimit

theorem real (h : Spelled n s) : s.fraction ≠ none ∨ s.exponent ≠ none := by
  cases h with
  | behind | before | between => exact .inl nofun
  | scaled => exact .inr nofun

/-- **The value** of a numeral is what is collected of it, scaled. -/
theorem value (h : Spelled n s) (hn : Proper n) (hdigits : digitsOf n ≤ 10 ^ 17)
    (hpoint : (n.point - 1).natAbs < 2 ^ 30) (negative : Bool) :
    (s.lexeme negative).value =
      match scale s.significand s.power with
      | some x => .ok (.real (if negative then -x else x))
      | none => .error 0 := by
  refine Spelling.value_lexeme negative h.real ((h.significand_le hn hdigits).trans_lt (by decide)) ?_
  intro e he
  cases h with
  | behind | before | between => cases he
  | scaled =>
    obtain rfl := Option.some.inj he
    rw [numeral_figures]
    exact hpoint.trans (by decide)

end Spelled

/-! ## Numerals that are searched -/

/-- Dropping zeros at the end. -/
theorem exists_zeros (digits : List Char) : ∃ k,
    digits = (digits.reverse.dropWhile (· == '0')).reverse ++ List.replicate k '0' := by
  refine ⟨(digits.reverse.takeWhile (· == '0')).length, ?_⟩
  have hzeros : digits.reverse.takeWhile (· == '0') =
      List.replicate (digits.reverse.takeWhile (· == '0')).length '0' :=
    List.eq_replicate_of_mem fun c hc => by simpa using List.mem_takeWhile_imp hc
  rw [← List.reverse_replicate, ← hzeros, ← List.reverse_append, List.takeWhile_append_dropWhile,
    List.reverse_reverse]

section
variable {c : ℕ} (hpos : 0 < c) (p : ℤ)
include hpos

/-- The digits without the zeros at their end. -/
theorem ofScaled_digits : ∃ k, Nat.toDigits 10 c = (Numeral.ofScaled c p).digits ++ List.replicate k '0' ∧
    ∃ d ds, (Numeral.ofScaled c p).digits = d :: ds ∧ d ≠ '0' := by
  obtain ⟨k, hk⟩ := exists_zeros (Nat.toDigits 10 c)
  obtain ⟨d, ds, hdigits, hd⟩ := toDigits_eq_cons hpos.ne'
  refine ⟨k, hk, ?_⟩
  change _ = (Numeral.ofScaled c p).digits ++ _ at hk
  rw [hdigits] at hk
  cases hmore : (Numeral.ofScaled c p).digits with
  | nil =>
    rw [hmore, List.nil_append] at hk
    exact absurd (List.eq_of_mem_replicate (hk ▸ List.mem_cons_self)) hd
  | cons e es =>
    rw [hmore, List.cons_append] at hk
    exact ⟨e, es, rfl, (List.cons.inj hk).1 ▸ hd⟩

theorem proper_ofScaled : Proper (.ofScaled c p) := by
  obtain ⟨k, hk, d, ds, hdigits, hd⟩ := ofScaled_digits hpos p
  refine ⟨⟨by simp [hdigits], fun e he => ?_⟩, fun hhead => ?_⟩
  · exact isDigit_of_mem (hk ▸ List.mem_append_left _ he)
  · rw [hdigits] at hhead
    exact absurd (Option.some.inj hhead) hd

/-- The digits with their power of ten are the number again. -/
theorem ofScaled_number : ∃ k : ℕ, c = digitsOf (.ofScaled c p) * 10 ^ k ∧
    (Numeral.ofScaled c p).point - (Numeral.ofScaled c p).digits.length = k + p := by
  obtain ⟨k, hk, -⟩ := ofScaled_digits hpos p
  refine ⟨k, ?_, ?_⟩
  · rw [digitsOf, ← numeral_zeros, ← numeral_append, ← figures_append, ← hk, numeral_figures]
  · have hlength := congrArg List.length hk
    rw [List.length_append, List.length_replicate] at hlength
    show ((Nat.toDigits 10 c).length + p : ℤ) - _ = _
    omega

end
end Json
end SidPlayback
