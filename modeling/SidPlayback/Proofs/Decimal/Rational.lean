/-
  The rational numbers that floating-point values stand for.

  * `Decimal.rational?` is the number, for a value that is finite;
  * `Decimal.unpack_bounds` are the coefficients and exponents that occur in single
    precision, and `Decimal.scaled_le_one_iff` tells from them whether a number
    exceeds one;
  * `Decimal.zero_le_iff` and `Decimal.le_one_iff`: values are compared as the
    numbers are; `Decimal.lt_iff_not_le` says that values other than `NaN` are
    ordered.
-/
import Mathlib.Algebra.Order.Field.Power
import Mathlib.Data.Rat.Cast.Order
import Mathlib.Tactic.NormNum

namespace SidPlayback.Decimal

open Float.Model Float.Model.UnpackedFloat

/-- The number that a value stands for; infinities and `NaN` are none. -/
def rational? : UnpackedFloat → Option ℚ
  | .infinity _ | .notANumber => none
  | .zero _ => some 0
  | .finite .positive m e _ => some (m * 2 ^ e)
  | .finite .negative m e _ => some (-(m * 2 ^ e))

theorem isFinite_iff (x : UnpackedFloat) : x.isFinite = true ↔ ∃ q, rational? x = some q := by
  cases x with
  | infinity | notANumber =>
    refine iff_of_false (fun h => by cases h) ?_
    rintro ⟨q, hq⟩
    cases hq
  | zero => exact iff_of_true rfl ⟨_, rfl⟩
  | finite s => cases s <;> exact iff_of_true rfl ⟨_, rfl⟩

theorem rational?_cases {x : UnpackedFloat} {q : ℚ} (h : rational? x = some q) :
    (∃ s, x = .zero s ∧ q = 0) ∨
    (∃ m e hm, x = .finite .positive m e hm ∧ q = m * 2 ^ e ∧ 0 < q) ∨
    (∃ m e hm, x = .finite .negative m e hm ∧ q < 0) := by
  have hpos {m : Nat} {e : Int} (hm : 0 < m) : (0 : ℚ) < m * 2 ^ e :=
    mul_pos (by exact_mod_cast hm) (zpow_pos (by norm_num) e)
  cases x with
  | infinity | notANumber => cases h
  | zero s => exact .inl ⟨s, rfl, (Option.some.inj h).symm⟩
  | finite s m e hm =>
    cases s with
    | positive =>
      cases Option.some.inj h
      exact .inr (.inl ⟨m, e, hm, rfl, rfl, hpos hm⟩)
    | negative =>
      cases Option.some.inj h
      exact .inr (.inr ⟨m, e, hm, rfl, neg_neg_of_pos (hpos hm)⟩)

/-- The implicit bit of a coefficient stands before the stored ones. -/
theorem toNat_implicit {n : Nat} (fraction : BitVec n) :
    (1#1 ++ fraction).toNat = 2 ^ n + fraction.toNat := by
  rw [BitVec.toNat_append, ← Nat.shiftLeft_add_eq_or_of_lt fraction.isLt, Nat.shiftLeft_eq]
  simp

/-! ## Single precision -/

/-- A coefficient has 24 bits, unless the exponent is the least. -/
theorem unpack_bounds {v : Float32} {s : Sign} {m : Nat} {e : Int} {hm : 0 < m}
    (h : v.toModel.unpack = .finite s m e hm) : m < 2 ^ 24 ∧ (e = -149 ∨ 2 ^ 23 ≤ m) := by
  unfold Float32.Model.unpack UnpackedFloat.unpack at h
  let fraction := @unpackMantissa Format.binary32 v.toModel.toBits.toBitVec
  let exponent := @unpackExponent Format.binary32 v.toModel.toBits.toBitVec
  have hfraction : fraction.toNat < 2 ^ 23 := fraction.isLt
  by_cases hlast : exponent = -1#_
  · rw [if_pos hlast] at h
    by_cases hzero : fraction = 0#_
    · rw [if_pos hzero] at h; cases h
    · rw [if_neg hzero] at h; cases h
  · rw [if_neg hlast] at h
    by_cases hfirst : exponent = 0#_
    · rw [if_pos hfirst] at h
      by_cases hzero : fraction = 0#_
      · rw [dif_pos hzero] at h; cases h
      · rw [dif_neg hzero] at h
        cases h
        refine ⟨hfraction.trans (by decide), .inl ?_⟩
        rw [show @unpackExponent Format.binary32 v.toModel.toBits.toBitVec = 0#_ from hfirst]
        rfl
    · rw [if_neg hfirst] at h
      cases h
      have himplicit : (1#1 ++ fraction).toNat = 2 ^ 23 + fraction.toNat := toNat_implicit fraction
      rw [himplicit]
      exact ⟨by omega, .inr (by omega)⟩

/-- Of a coefficient with 24 bits the exponent decides first. -/
theorem scaled_le_one_iff {m : Nat} {e : Int} (hm : m < 2 ^ 24) (he : e = -149 ∨ 2 ^ 23 ≤ m) :
    (m : ℚ) * 2 ^ e ≤ 1 ↔ e < -23 ∨ e = -23 ∧ m ≤ 2 ^ 23 := by
  have htwo : (1 : ℚ) ≤ 2 := by norm_num
  rcases lt_trichotomy e (-23) with hlt | rfl | hgt
  · refine iff_of_true ?_ (.inl hlt)
    have hpow : (2 : ℚ) ^ e ≤ 2 ^ (-24 : Int) := zpow_le_zpow_right₀ htwo (by omega)
    have hcoefficient : (m : ℚ) ≤ 2 ^ 24 := by exact_mod_cast hm.le
    calc (m : ℚ) * 2 ^ e ≤ 2 ^ 24 * 2 ^ (-24 : Int) :=
          mul_le_mul hcoefficient hpow (zpow_nonneg (by norm_num) e) (by norm_num)
      _ = 1 := by norm_num
  · have hone : (2 : ℚ) ^ (-23 : Int) * 2 ^ 23 = 1 := by norm_num
    rw [← hone, mul_comm, mul_le_mul_iff_right₀ (by norm_num)]
    constructor
    · intro h; exact .inr ⟨rfl, by exact_mod_cast h⟩
    · rintro (h | ⟨-, h⟩)
      · omega
      · exact_mod_cast h
  · refine iff_of_false (not_le.2 ?_) (by omega)
    have hpow : (2 : ℚ) ^ (-22 : Int) ≤ 2 ^ e := zpow_le_zpow_right₀ htwo (by omega)
    have hcoefficient : (2 : ℚ) ^ 23 ≤ m := by exact_mod_cast he.resolve_left (by omega)
    calc (1 : ℚ) < 2 ^ 23 * 2 ^ (-22 : Int) := by norm_num
      _ ≤ m * 2 ^ e := mul_le_mul hcoefficient hpow (by norm_num) (Nat.cast_nonneg m)

theorem le_iff (v w : Float32) : v ≤ w ↔ v.toModel.unpack.le w.toModel.unpack = true :=
  decide_eq_true_iff

theorem lt_iff (v w : Float32) : v < w ↔ v.toModel.unpack.lt w.toModel.unpack = true :=
  decide_eq_true_iff

theorem unpack_zero : (0.0 : Float32).toModel.unpack = .zero .positive := rfl

theorem unpack_one :
    (1.0 : Float32).toModel.unpack = .finite .positive (2 ^ 23) (-23) (by decide) := rfl

section
variable {v : Float32} {q : ℚ} (h : rational? v.toModel.unpack = some q)
include h

theorem zero_le_iff : 0.0 ≤ v ↔ 0 ≤ q := by
  rw [le_iff, unpack_zero]
  obtain ⟨s, hv, rfl⟩ | ⟨m, e, hm, hv, -, hq⟩ | ⟨m, e, hm, hv, hq⟩ := rational?_cases h
  · rw [hv]; exact iff_of_true rfl le_rfl
  · rw [hv]; exact iff_of_true rfl hq.le
  · rw [hv]; exact iff_of_false (fun h => by cases h) (not_le.2 hq)

theorem le_one_iff : v ≤ 1.0 ↔ q ≤ 1 := by
  rw [le_iff, unpack_one]
  obtain ⟨s, hv, rfl⟩ | ⟨m, e, hm, hv, rfl, -⟩ | ⟨m, e, hm, hv, hq⟩ := rational?_cases h
  · rw [hv]; exact iff_of_true rfl zero_le_one
  · obtain ⟨hbits, hexponent⟩ := unpack_bounds hv
    rw [hv, scaled_le_one_iff hbits hexponent]
    show ((compare e (-23)).then (compare m (2 ^ 23))).isLE = true ↔ _
    rw [Ordering.isLE_then_iff_or, Int.compare_eq_lt, Int.compare_eq_eq, Nat.isLE_compare]
  · rw [hv]; exact iff_of_true rfl (hq.le.trans zero_le_one)

end

section
variable {v : Float32}

theorem isFinite_of_between (hzero : 0.0 ≤ v) (hone : v ≤ 1.0) : v.isFinite = true := by
  rw [le_iff, unpack_zero] at hzero
  rw [le_iff, unpack_one] at hone
  show v.toModel.unpack.isFinite = true
  cases hv : v.toModel.unpack with
  | notANumber => rw [hv] at hzero; cases hzero
  | infinity s =>
    rw [hv] at hzero hone
    cases s with
    | positive => cases hone
    | negative => cases hzero
  | zero | finite => rfl

end

/-! ## Comparisons both ways -/

theorem compare_swap (x y : UnpackedFloat) : y.compare x = (x.compare y).map Ordering.swap := by
  have hfinite (m m' : Nat) (e e' : Int) : (compare e' e).then (compare m' m) =
      ((compare e e').then (compare m m')).swap := by
    rw [Ordering.swap_then, ← Std.OrientedCmp.eq_swap, ← Std.OrientedCmp.eq_swap]
  rcases x with (_ | _) | _ | (_ | _) | ⟨_ | _, m, e, hm⟩ <;>
    rcases y with (_ | _) | _ | (_ | _) | ⟨_ | _, m', e', hm'⟩ <;> try rfl
  · exact congrArg (fun o => some o.swap) (hfinite m m' e e')
  · exact congrArg some (hfinite m m' e e')

theorem compare_ne_none {x y : UnpackedFloat} (hx : x.isNaN = false) (hy : y.isNaN = false) :
    x.compare y ≠ none := by
  cases x with
  | notANumber => cases hx
  | infinity s | zero s | finite s =>
    cases y with
    | notANumber => cases hy
    | infinity t | zero t | finite t => cases s <;> cases t <;> exact nofun

/-- Values other than `NaN` are ordered. -/
theorem lt_iff_not_le {v w : Float32} (hv : v.isNaN = false) (hw : w.isNaN = false) :
    v < w ↔ ¬ w ≤ v := by
  have hnone : v.toModel.unpack.compare w.toModel.unpack ≠ none := compare_ne_none hv hw
  rw [lt_iff, le_iff, UnpackedFloat.lt, UnpackedFloat.le,
    compare_swap v.toModel.unpack w.toModel.unpack]
  cases h : v.toModel.unpack.compare w.toModel.unpack with
  | none => exact absurd h hnone
  | some order => cases order <;> decide

end SidPlayback.Decimal
