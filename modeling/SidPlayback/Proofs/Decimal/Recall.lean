/-
  Numbers that are rounded to a given value, or nearly so.

  A value is recalled by the numbers up to half the way to its neighbours.  A number that is
  somewhat off may be rounded to another value, but only to one that is not far away.

  * `Decimal.Recalls` are the numbers that recall a value, and `Decimal.Recalls.nearest` says that
    they are rounded to it;
  * `Decimal.Recalls.near`: if a number is off by a unit of the last place of it, the rank is off
    by two at most.
-/
import SidPlayback.Decimal.Binary
import SidPlayback.Proofs.Decimal.Ranks

namespace SidPlayback.Decimal

open Float.Model Float.Model.UnpackedFloat

variable {f : Float.Model.Format}

/-- A magnitude of the format.  The next smaller one is only half as far away if its exponent is
    smaller. -/
structure Magnitude.Of (f : Float.Model.Format) (x : Magnitude) : Prop
    extends Canonical f x.coefficient x.exponent where
  narrow : x.narrowBelow = true ↔
    x.coefficient = 2 ^ f.mantissaBitsWithoutImplicit ∧ x.exponent ≠ f.minExponent

/-- How far below a magnitude, in its units, the numbers begin that recall it. -/
def Magnitude.slack (x : Magnitude) : ℚ := if x.narrowBelow then 1 / 4 else 1 / 2

/-- The numbers that recall a magnitude: the ends of the interval do if the coefficient is even. -/
structure Recalls (x : Magnitude) (d : ℚ) : Prop where
  low : x.coefficient - x.slack ≤ d / 2 ^ x.exponent
  high : d / 2 ^ x.exponent ≤ x.coefficient + 1 / 2
  inner : ¬ Even x.coefficient →
    x.coefficient - x.slack < d / 2 ^ x.exponent ∧ d / 2 ^ x.exponent < x.coefficient + 1 / 2

theorem even_rank_iff (e : ℤ) (m : ℕ) : Even (rank f e m) ↔ Even m := by
  have heven : Even ((e - f.minExponent).toNat * 2 ^ f.mantissaBitsWithoutImplicit) :=
    (Nat.even_pow.2 ⟨even_two, f.hm.ne'⟩).mul_left _
  rw [rank, Nat.even_add]
  exact iff_true_left heven

theorem natCast_rank (e : ℤ) (m : ℕ) : (rank f e m : ℚ) =
    (e - f.minExponent).toNat * 2 ^ f.mantissaBitsWithoutImplicit + m := by
  rw [rank]
  push_cast
  rfl

theorem Ranked.rank_unique {s : Sign} {n n' : ℕ} {y : UnpackedFloat} (h : Ranked f s n y)
    (h' : Ranked f s n' y) : n = n' := by
  cases h with
  | zero => cases h'; rfl
  | finite => cases h'; rfl

theorem Magnitude.slack_cases (x : Magnitude) : 1 / 4 ≤ x.slack ∧ x.slack ≤ 1 / 2 := by
  unfold Magnitude.slack
  split <;> norm_num

namespace Magnitude.Of
variable {x : Magnitude} (hx : x.Of f) {q : ℚ} {E : ℤ}
include hx

theorem exponent_le : f.minExponent ≤ x.exponent := hx.least

/-- The place of a number is at least as high as its units tell, up to the next power of two. -/
theorem place_le (hcut : Cut f q E) (hunits : x.exponent = f.minExponent ∨
      2 ^ f.mantissaBitsWithoutImplicit ≤ q / 2 ^ x.exponent) :
    rank f x.exponent x.coefficient - x.coefficient +
      min (q / 2 ^ x.exponent) (2 * 2 ^ f.mantissaBitsWithoutImplicit) ≤ level f E q := by
  have hlevel := le_level hcut hx.least hunits
  rw [two_pow_mantissaBits] at hlevel
  rw [natCast_rank]
  linarith

/-- Below a power of two the units are half as large. -/
theorem place_below_le (hcut : Cut f q E) (hleast : x.exponent ≠ f.minExponent)
    (hunits : 2 ^ f.mantissaBitsWithoutImplicit ≤ 2 * (q / 2 ^ x.exponent)) :
    rank f x.exponent x.coefficient - x.coefficient - 2 ^ f.mantissaBitsWithoutImplicit +
      min (2 * (q / 2 ^ x.exponent)) (2 * 2 ^ f.mantissaBitsWithoutImplicit) ≤ level f E q := by
  have hbelow := hx.exponent_le
  have hranks : ((x.exponent - f.minExponent).toNat : ℚ) =
      (x.exponent - 1 - f.minExponent).toNat + 1 := by
    exact_mod_cast (by omega : (x.exponent - f.minExponent).toNat =
      (x.exponent - 1 - f.minExponent).toNat + 1)
  have hscaled : q / 2 ^ (x.exponent - 1) = 2 * (q / 2 ^ x.exponent) := by
    rw [div_zpow q (x.exponent - 1) 1, Nat.cast_one, sub_add_cancel, pow_one, mul_comm]
  have hlevel := le_level hcut (e := x.exponent - 1) (by omega) (.inr (by rwa [hscaled]))
  rw [two_pow_mantissaBits, hscaled] at hlevel
  rw [natCast_rank, hranks]
  linarith

theorem place_ge (hcut : Cut f q E) (hq : 0 ≤ q) :
    level f E q ≤ rank f x.exponent x.coefficient - x.coefficient + q / 2 ^ x.exponent := by
  have hlevel := level_le hcut hq hx.least
  rw [natCast_rank]
  unfold level at hlevel ⊢
  linarith

end Magnitude.Of

namespace Recalls
variable {x : Magnitude} {d : ℚ} {E : ℤ}

theorem pos (h : Recalls x d) (hx : x.Of f) : 0 < d := by
  have hcoefficient : (1 : ℚ) ≤ x.coefficient := by exact_mod_cast hx.pos
  have hunits : 0 < d / 2 ^ x.exponent := by linarith [h.low, x.slack_cases.2]
  exact (div_pos_iff_of_pos_right (by positivity)).1 hunits

/-- Unless the magnitude is the first of its binade, the numbers that recall it reach its
    exponent. -/
theorem reaches (h : Recalls x d) (hx : x.Of f) (hwide : x.narrowBelow = false) :
    x.exponent = f.minExponent ∨ 2 ^ f.mantissaBitsWithoutImplicit ≤ d / 2 ^ x.exponent := by
  refine or_iff_not_imp_left.2 fun hleast => ?_
  have hne : x.coefficient ≠ 2 ^ f.mantissaBitsWithoutImplicit := fun heq => by
    rw [hx.narrow.2 ⟨heq, hleast⟩] at hwide
    cases hwide
  have hmore : 2 ^ f.mantissaBitsWithoutImplicit + 1 ≤ x.coefficient :=
    Nat.lt_of_le_of_ne (hx.full.resolve_left hleast) hne.symm
  have hcast : (2 : ℚ) ^ f.mantissaBitsWithoutImplicit + 1 ≤ x.coefficient := by exact_mod_cast hmore
  linarith [h.low, x.slack_cases.2]

/-- **A number that recalls a magnitude** is rounded to it. -/
theorem nearest (h : Recalls x d) (hx : x.Of f) (hcut : Cut f d E) :
    Nearest (level f E d) (rank f x.exponent x.coefficient) := by
  have hW : (1 : ℚ) ≤ 2 ^ f.mantissaBitsWithoutImplicit := one_le_pow₀ (by norm_num)
  have hbits : (x.coefficient : ℚ) + 1 ≤ 2 * 2 ^ f.mantissaBitsWithoutImplicit := by
    have := hx.bits
    rw [two_pow_mantissaBits] at this
    exact_mod_cast this
  have hhigh := hx.place_ge hcut (h.pos hx).le
  cases hnarrow : x.narrowBelow with
  | true =>
    obtain ⟨hcoefficient, hleast⟩ := hx.narrow.1 hnarrow
    have heven : Even x.coefficient := by
      rw [hcoefficient]
      exact Nat.even_pow.2 ⟨even_two, f.hm.ne'⟩
    have hcast : (x.coefficient : ℚ) = 2 ^ f.mantissaBitsWithoutImplicit := by exact_mod_cast hcoefficient
    have hslack : x.slack = 1 / 4 := by rw [Magnitude.slack, hnarrow, if_pos rfl]
    have hlow := h.low
    rw [hslack] at hlow
    have hbelow := hx.place_below_le hcut hleast (by linarith)
    have hunits : 2 * 2 ^ f.mantissaBitsWithoutImplicit - 1 / 2 ≤
        min (2 * (d / 2 ^ x.exponent)) (2 * 2 ^ f.mantissaBitsWithoutImplicit) :=
      le_min (by linarith) (by linarith)
    refine ⟨abs_le.2 ⟨by linarith, by linarith [h.high]⟩, fun _ => (even_rank_iff _ _).2 heven⟩
  | false =>
    have hslack : x.slack = 1 / 2 := by rw [Magnitude.slack, hnarrow]; rfl
    have hlow := hx.place_le hcut (h.reaches hx hnarrow)
    constructor
    · have hunits : x.coefficient - 1 / 2 ≤
          min (d / 2 ^ x.exponent) (2 * 2 ^ f.mantissaBitsWithoutImplicit) :=
        le_min (hslack ▸ h.low) (by linarith)
      exact abs_le.2 ⟨by linarith, by linarith [h.high]⟩
    · intro htie
      by_contra hodd
      obtain ⟨hinner, houter⟩ := h.inner fun heven => hodd ((even_rank_iff _ _).2 heven)
      have hunits : x.coefficient - 1 / 2 <
          min (d / 2 ^ x.exponent) (2 * 2 ^ f.mantissaBitsWithoutImplicit) :=
        lt_min (hslack ▸ hinner) (by linarith)
      have hless : |level f E d - rank f x.exponent x.coefficient| < 1 / 2 :=
        abs_lt.2 ⟨by linarith, by linarith⟩
      exact hless.ne htie

/-- By how many units a number may be off that is off by less than a unit of its last place, or
    of the least place. -/
theorem units_off {w u a : ℚ} (hw : 4 ≤ w) (hoff : |a - u| < u / w ∨ |a - u| < 1) (hu : u < 2 * w) :
    |a - u| < 2 ∧ ∀ low k, 0 ≤ k → low ≤ u → low ≤ w + k → low - 1 - k / 4 < a := by
  have hpos : 0 < w := by linarith
  rcases hoff with hoff | hoff
  · have hless : u / w < 2 := by rwa [div_lt_iff₀ hpos]
    refine ⟨hoff.trans hless, fun low k hk hle hsmall => ?_⟩
    have hshare : low / w ≤ 1 + k / 4 := by
      rw [div_le_iff₀ hpos]
      nlinarith
    have hmono : low - low / w ≤ u - u / w := by
      have hfactor : 0 ≤ 1 - 1 / w := by
        rw [sub_nonneg, div_le_one hpos]
        linarith
      calc low - low / w = low * (1 - 1 / w) := by ring
        _ ≤ u * (1 - 1 / w) := by gcongr
        _ = u - u / w := by ring
    linarith [(abs_lt.1 hoff).1]
  · exact ⟨hoff.trans (by norm_num), fun low k hk hle _ => by linarith [(abs_lt.1 hoff).1]⟩

/-- In the units of the binade below, the first magnitudes of a binade are off by less. -/
theorem double_units (h : Recalls x d) (hx : x.Of f) (hleast : x.exponent ≠ f.minExponent) {a : ℚ}
    (hsharp : ∀ low k : ℚ, 0 ≤ k → low ≤ d / 2 ^ x.exponent →
      low ≤ 2 ^ f.mantissaBitsWithoutImplicit + k → low - 1 - k / 4 < a) :
    2 ^ f.mantissaBitsWithoutImplicit + x.coefficient - 5 / 2 < 2 * a := by
  have hfull := hx.full.resolve_left hleast
  have hlow := h.low
  obtain ⟨k, hk⟩ := Nat.exists_eq_add_of_le hfull
  have hcast : (x.coefficient : ℚ) = 2 ^ f.mantissaBitsWithoutImplicit + k := by exact_mod_cast hk
  rcases Nat.eq_zero_or_pos k with rfl | hpos
  · have hslack : x.slack = 1 / 4 := by rw [Magnitude.slack, hx.narrow.2 ⟨hk, hleast⟩, if_pos rfl]
    rw [hslack] at hlow
    have := hsharp _ 0 le_rfl hlow (by rw [hcast]; norm_num)
    norm_num at hcast
    linarith
  · have hslack : x.slack ≤ 1 / 2 := x.slack_cases.2
    have := hsharp (x.coefficient - 1 / 2) k (Nat.cast_nonneg k) (by linarith) (by linarith)
    have hone : (1 : ℚ) ≤ k := by exact_mod_cast hpos
    linarith

/-- **A number that is off** by less than a unit of its last place, or of the least place, is
    rounded to a value that is off by two ranks at most. -/
theorem near (h : Recalls x d) (hx : x.Of f) (hwidth : 2 ≤ f.mantissaBitsWithoutImplicit) {q : ℚ}
    (hq : 0 ≤ q) (hoff : |q - d| < d / 2 ^ f.mantissaBitsWithoutImplicit ∨ |q - d| < 2 ^ f.minExponent)
    (hcut : Cut f q E) {n : ℕ} (hn : Nearest (level f E q) n) :
    n ≤ rank f x.exponent x.coefficient + 2 ∧ rank f x.exponent x.coefficient ≤ n + 2 := by
  have hhigh := hx.place_ge hcut hq
  have hfull := hx.full
  have hW : (4 : ℚ) ≤ 2 ^ f.mantissaBitsWithoutImplicit := by
    calc (4 : ℚ) = 2 ^ 2 := by norm_num
      _ ≤ 2 ^ f.mantissaBitsWithoutImplicit := pow_le_pow_right₀ (by norm_num) hwidth
  have hbits : (x.coefficient : ℚ) + 1 ≤ 2 * 2 ^ f.mantissaBitsWithoutImplicit := by
    have := hx.bits
    rw [two_pow_mantissaBits] at this
    exact_mod_cast this
  have hunit : (0 : ℚ) < 2 ^ x.exponent := by positivity
  replace hoff : |q / 2 ^ x.exponent - d / 2 ^ x.exponent| <
      d / 2 ^ x.exponent / 2 ^ f.mantissaBitsWithoutImplicit ∨
      |q / 2 ^ x.exponent - d / 2 ^ x.exponent| < 1 := by
    rw [← sub_div, abs_div, abs_of_pos hunit, div_right_comm, div_lt_div_iff_of_pos_right hunit,
      div_lt_one hunit]
    exact hoff.imp_right fun hless => hless.trans_le (zpow_le_zpow_right₀ (by norm_num) hx.least)
  have hlow := h.low
  have hslack := x.slack_cases
  obtain ⟨htwo, hsharp⟩ := units_off hW hoff (by linarith [h.high])
  obtain ⟨hleast, hmost⟩ := abs_lt.1 htwo
  have hplace : (rank f x.exponent x.coefficient : ℚ) - 5 / 2 < level f E q := by
    by_cases hunits : x.exponent = f.minExponent ∨
        2 ^ f.mantissaBitsWithoutImplicit ≤ q / 2 ^ x.exponent
    · have hlevel := hx.place_le hcut hunits
      have hmin : x.coefficient - 5 / 2 <
          min (q / 2 ^ x.exponent) (2 * 2 ^ f.mantissaBitsWithoutImplicit) :=
        lt_min (by linarith) (by linarith)
      linarith
    · rw [not_or, not_le] at hunits
      replace hfull : (2 : ℚ) ^ f.mantissaBitsWithoutImplicit ≤ x.coefficient := by
        exact_mod_cast hfull.resolve_left hunits.1
      have hdouble : 2 ^ f.mantissaBitsWithoutImplicit + x.coefficient - 5 / 2 <
          2 * (q / 2 ^ x.exponent) :=
        h.double_units hx hunits.1 hsharp
      have hlevel := hx.place_below_le hcut hunits.1 (by linarith)
      rw [min_eq_left (by linarith [hunits.2])] at hlevel
      linarith
  obtain ⟨hlower, hupper⟩ := hn.bounds
  constructor
  · have : (n : ℚ) < rank f x.exponent x.coefficient + 3 := by linarith [h.high]
    exact Nat.lt_succ_iff.1 (by exact_mod_cast this)
  · have : (rank f x.exponent x.coefficient : ℚ) < n + 3 := by linarith
    exact Nat.lt_succ_iff.1 (by exact_mod_cast this)

end Recalls
end SidPlayback.Decimal
