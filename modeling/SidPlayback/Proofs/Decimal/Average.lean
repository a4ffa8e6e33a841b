/-
  Quotients of natural numbers, rounded to natural numbers.

  A quotient in double precision is not exact, but it does not get across the half
  of an odd number: it is at least the largest multiple of its last place below the
  exact quotient, and the exact quotient of small numbers keeps a distance from what
  it does not reach.

  * `Decimal.roundWithAccuracy_bounds` bounds what is rounded to the stored width, and
    `Decimal.whole_div` quotients;
  * `Decimal.round_average`: so the rounded quotient is the exact one, rounded.
-/
import SidPlayback.Proofs.Decimal.Reading

namespace SidPlayback.Decimal

open Float.Model Float.Model.UnpackedFloat

/-! ## Rounding to the stored width -/

theorem mantissa_shiftRight (x : ExtendedMantissa) (k : Nat) :
    (x >>> k).mantissa = x.mantissa / 2 ^ k := by
  induction k with
  | zero => exact (Nat.div_one _).symm
  | succ k ih =>
    have hstep : x >>> (k + 1) = (x >>> k).shiftRightOne := rfl
    rw [hstep, ExtendedMantissa.shiftRightOne, ih, Nat.div_div_eq_div_mul, Nat.pow_succ]

theorem mantissa_ofMantissaAndAccuracy (m : Nat) (accuracy : Accuracy) :
    (ExtendedMantissa.ofMantissaAndAccuracy m accuracy).mantissa = m := by
  rcases accuracy with _ | (_ | _ | _) <;> rfl

/-- Rounding goes down, or up to the next number. -/
theorem roundedMantissa_bounds (x : ExtendedMantissa) :
    x.mantissa ≤ x.roundedMantissa ∧ x.roundedMantissa ≤ x.mantissa + 1 := by
  rcases x with ⟨m, _ | _, _ | _⟩ <;>
    simp only [ExtendedMantissa.roundedMantissa, ExtendedMantissa.accuracy,
      Accuracy.roundToNearestEven] <;> omega

/-- A coefficient with `k` bits too many is cut, and then possibly the next one. -/
theorem roundWithAccuracy_bounds {m k : Nat} {e : Int} (hlog : m.log2 = 52 + k)
    (hleast : -1074 ≤ e + k) (s : Sign) (accuracy : Accuracy) :
    ∃ (r c : Nat) (e' : Int), ∃ h : Normal c e',
      roundWithAccuracy Format.binary64 s m e accuracy = .finite s c e' h.pos ∧
      e' ≤ e + k + 1 ∧ (c : ℚ) * 2 ^ e' = r * 2 ^ (e + k) ∧
      m / 2 ^ k ≤ r ∧ r ≤ m / 2 ^ k + 1 := by
  have hm : m ≠ 0 := by
    rintro rfl
    rw [Nat.log2_zero] at hlog
    omega
  obtain ⟨hlow, hhigh⟩ := (Nat.log2_eq_iff hm).1 hlog
  have hcutLow : 2 ^ 52 ≤ m / 2 ^ k := by
    rw [Nat.le_div_iff_mul_le (Nat.two_pow_pos k), ← Nat.pow_add]; exact hlow
  have hcutHigh : m / 2 ^ k < 2 ^ 53 := by
    rw [Nat.div_lt_iff_lt_mul (Nat.two_pow_pos k), ← Nat.pow_add]
    rw [show 53 + k = 52 + k + 1 by omega]; exact hhigh
  have htarget : Format.binary64.targetExponent (totalExponent m e) = e + k := by
    simp only [Format.targetExponent, totalExponent, Format.mantissaBits, Format.minExponent, hlog]
    omega
  let first := ExtendedMantissa.ofMantissaAndAccuracy m accuracy >>> k
  have hfirst : shiftToTargetExponent Format.binary64 m e accuracy = (first, e + k) := by
    have hback : (e + k - e).toNat = k := by omega
    simp only [shiftToTargetExponent, shiftToExponent, htarget, hback]
    rfl
  have hcut : first.mantissa = m / 2 ^ k := by
    rw [mantissa_shiftRight, mantissa_ofMantissaAndAccuracy]
  have hbounds := roundedMantissa_bounds first
  rw [hcut] at hbounds
  refine ⟨first.roundedMantissa, ?_⟩
  rcases Nat.lt_or_ge first.roundedMantissa (2 ^ 53) with hsmall | hcarry
  · have hnormal : Normal first.roundedMantissa (e + k) :=
      ⟨(Nat.log2_eq_iff (by omega)).2 ⟨by omega, hsmall⟩, hleast⟩
    exact ⟨_, _, hnormal, hnormal.rounded s hfirst (hnormal.shift .exact), by omega, rfl, hbounds⟩
  · -- all bits were ones, and the carry needs another place
    have hpower : first.roundedMantissa = 2 ^ 52 <<< 1 := by
      rw [show (2 ^ 52 <<< 1 : Nat) = 2 ^ 53 from rfl]; omega
    have hnormal : Normal (2 ^ 52) (e + k + 1) := ⟨Nat.log2_two_pow, by omega⟩
    have hagain := hnormal.shift_shiftLeft 1
    rw [← hpower, Nat.cast_one, Int.add_sub_cancel] at hagain
    refine ⟨2 ^ 52, e + k + 1, hnormal, hnormal.rounded s hfirst hagain, le_rfl, ?_, hbounds⟩
    rw [hpower, zpow_add_one₀ (by norm_num)]
    push_cast
    ring

/-! ## Quotients -/

namespace Normal
variable {m m' : Nat} {e e' : Int} (h : Normal m e) (h' : Normal m' e')
include h h'

/-- Both coefficients have the same length, and the quotient that is computed has one
    bit more, or two. -/
theorem quotient_log2 : ∃ k ≤ 1, ((m <<< 53) / m').log2 = 52 + k := by
  obtain ⟨hlow, hhigh⟩ := h.bounds
  obtain ⟨hlow', hhigh'⟩ := h'.bounds
  have hleast : 2 ^ 52 ≤ (m <<< 53) / m' := by
    rw [Nat.le_div_iff_mul_le h'.pos, Nat.shiftLeft_eq]
    exact Nat.mul_le_mul hlow hhigh'.le
  have hmost : (m <<< 53) / m' < 2 ^ 54 := by
    rw [Nat.div_lt_iff_lt_mul h'.pos, Nat.shiftLeft_eq]
    omega
  rcases Nat.lt_or_ge ((m <<< 53) / m') (2 ^ 53) with hless | hmore
  · exact ⟨0, by omega, (Nat.log2_eq_iff (by omega)).2 ⟨hleast, hless⟩⟩
  · exact ⟨1, by omega, (Nat.log2_eq_iff (by omega)).2 ⟨hmore, hmost⟩⟩

theorem divCore_eq (hleast : -1021 ≤ e - e') : divCore Format.binary64 m e m' e' =
    ((m <<< 53) / m', e - e' - 53, accuracyOfFraction ((m <<< 53) % m') m') := by
  have htarget : min (e - e')
      (Format.binary64.targetExponent (totalExponent m e - totalExponent m' e')) = e - e' - 53 := by
    simp only [Format.targetExponent, totalExponent, Format.mantissaBits, Format.minExponent,
      h.log2_eq, h'.log2_eq]
    omega
  have hshift : (e - e' - (e - e' - 53)).toNat = 53 := by omega
  simp only [divCore, htarget, hshift]

end Normal

theorem log2_le_of_small {n : Nat} (hpos : 0 < n) (hsmall : n < 2 ^ 50) : n.log2 ≤ 49 :=
  Nat.lt_succ_iff.1 ((Nat.log2_lt hpos.ne').2 hsmall)

section
variable {a b : Nat} (ha : 0 < a) (hb : 0 < b) (hbound : b < 2 ^ 53)
include ha hb hbound

theorem quotient_eq (hsmall : a < 2 ^ 50) : (digits a <<< 53) / digits b =
    a * 2 ^ (53 + b.log2 - a.log2) / b := by
  have hlogA := log2_le_of_small ha hsmall
  have hlogB := log2_le hb hbound
  have hplaces : 52 - a.log2 + 53 = 53 + b.log2 - a.log2 + (52 - b.log2) := by omega
  rw [digits, digits, ← Nat.shiftLeft_add, hplaces, Nat.shiftLeft_eq, Nat.shiftLeft_eq, Nat.pow_add,
    ← Nat.mul_assoc, Nat.mul_div_mul_right _ _ (Nat.two_pow_pos _)]

/-- **Quotients** are at least the largest multiple of their last place below the exact
    quotient, at most the next one, and this place is small. -/
theorem whole_div (hsmall : a < 2 ^ 50) : ∃ (r t c : Nat) (e : Int), ∃ h : Stored c e,
    (whole a / whole b).toModel.unpack = .finite .positive c e h.pos ∧
      (c : ℚ) * 2 ^ e = r / 2 ^ t ∧ 2 * b < 2 ^ t ∧ a * 2 ^ t / b ≤ r ∧ r ≤ a * 2 ^ t / b + 1 := by
  have hlogA := log2_le_of_small ha hsmall
  have hlogB := log2_le hb hbound
  have hdigitsA := (stored_digits ha (by omega)).toNormal
  have hdigitsB := (stored_digits hb hbound).toNormal
  have hexponents : (a.log2 - 52 : Int) - (b.log2 - 52) - 53 = a.log2 - b.log2 - 53 := by omega
  obtain ⟨k, hk, hlog⟩ := hdigitsA.quotient_log2 hdigitsB
  obtain ⟨r, c, e, hnormal, hround, hlast, hvalue, hlow, hhigh⟩ :=
    roundWithAccuracy_bounds (e := (a.log2 - b.log2 - 53 : Int)) hlog (by omega) .positive
      (accuracyOfFraction ((digits a <<< 53) % digits b) (digits b))
  have hstored : Stored c e := ⟨hnormal, by omega⟩
  obtain ⟨t, ht⟩ : ∃ t, t + k = 53 + b.log2 - a.log2 := ⟨53 + b.log2 - a.log2 - k, by omega⟩
  have hcut : (digits a <<< 53) / digits b / 2 ^ k = a * 2 ^ t / b := by
    rw [quotient_eq ha hb hbound hsmall, ← ht, Nat.pow_add, ← Nat.mul_assoc, Nat.div_div_eq_div_mul,
      Nat.mul_div_mul_right _ _ (Nat.two_pow_pos k)]
  rw [hcut] at hlow hhigh
  refine ⟨r, t, c, e, hstored, ?_, ?_, ?_, hlow, hhigh⟩
  · show (Float.Model.pack (UnpackedFloat.div Format.binary64 (whole a).toModel.unpack
      (whole b).toModel.unpack)).unpack = _
    rw [whole_unpack (by omega), whole_unpack hbound, unpacked_ofNat ha (by omega),
      unpacked_ofNat hb hbound, UnpackedFloat.div, hdigitsA.divCore_eq hdigitsB (by omega), hexponents]
    exact (congrArg (fun x => (Float.Model.pack x).unpack) hround).trans (hstored.unpack_pack _)
  · have hexponent : (a.log2 - b.log2 - 53 : Int) + k = -t := by omega
    rw [hvalue, hexponent, zpow_neg, zpow_natCast, div_eq_mul_inv]
  · have hb2 : b < 2 ^ (b.log2 + 1) := Nat.lt_log2_self
    calc 2 * b < 2 * 2 ^ (b.log2 + 1) := by omega
      _ = 2 ^ (b.log2 + 2) := by rw [← Nat.pow_succ']
      _ ≤ 2 ^ t := Nat.pow_le_pow_right (by omega) (by omega)

end

/-! ## Averages -/

section
variable {a b r t : Nat} (hb : 0 < b) (hplace : 2 * b < 2 ^ t)
include hb hplace

/-- Halves are multiples of the last place, so a half below is still reached. -/
theorem halves_le (hlow : a * 2 ^ t / b ≤ r) : 2 * a / b * 2 ^ t ≤ 2 * r := by
  obtain ⟨n, hn⟩ : ∃ n, 2 ^ t = 2 * n := by
    rcases t with _ | t
    · omega
    · exact ⟨2 ^ t, Nat.pow_succ'⟩
  have hreach : 2 * a / b * n ≤ r := by
    refine le_trans ((Nat.le_div_iff_mul_le hb).2 ?_) hlow
    calc 2 * a / b * n * b = 2 * a / b * b * n := Nat.mul_right_comm _ _ _
      _ ≤ 2 * a * n := Nat.mul_le_mul_right n (Nat.div_mul_le_self _ _)
      _ = a * 2 ^ t := by rw [hn, Nat.mul_comm 2 a, Nat.mul_assoc]
  calc 2 * a / b * 2 ^ t = 2 * (2 * a / b * n) := by rw [hn]; exact Nat.mul_left_comm _ _ _
    _ ≤ 2 * r := Nat.mul_le_mul_left 2 hreach

/-- The exact quotient is at least a `2 * b`-th away from a half above it, and the last
    place is smaller. -/
theorem lt_halves (hhigh : r ≤ a * 2 ^ t / b + 1) : 2 * r < (2 * a / b + 1) * 2 ^ t := by
  have hnext : 2 * a + 1 ≤ (2 * a / b + 1) * b := Nat.lt_mul_of_div_lt (Nat.lt_succ_self _) hb
  refine lt_of_mul_lt_mul_right (a := b) ?_ (Nat.zero_le b)
  calc 2 * r * b ≤ 2 * (a * 2 ^ t / b + 1) * b :=
        Nat.mul_le_mul_right b (Nat.mul_le_mul_left 2 hhigh)
    _ = 2 * (a * 2 ^ t / b * b) + 2 * b := by ring
    _ ≤ 2 * (a * 2 ^ t) + 2 * b :=
        Nat.add_le_add_right (Nat.mul_le_mul_left 2 (Nat.div_mul_le_self _ _)) _
    _ < 2 * (a * 2 ^ t) + 2 ^ t := Nat.add_lt_add_left hplace _
    _ = (2 * a + 1) * 2 ^ t := by ring
    _ ≤ (2 * a / b + 1) * b * 2 ^ t := Nat.mul_le_mul_right _ hnext
    _ = (2 * a / b + 1) * 2 ^ t * b := Nat.mul_right_comm _ _ _

theorem half_up (hlow : a * 2 ^ t / b ≤ r) (hhigh : r ≤ a * 2 ^ t / b + 1) :
    (2 * r + 2 ^ t) / (2 ^ t * 2) = (2 * a + b) / (2 * b) := by
  have hfloor : 2 * r / 2 ^ t = 2 * a / b :=
    Nat.div_eq_of_lt_le (halves_le hb hplace hlow) (lt_halves hb hplace hhigh)
  rw [← Nat.div_div_eq_div_mul, Nat.add_div_right _ (Nat.two_pow_pos t), hfloor, Nat.mul_comm 2 b,
    ← Nat.div_div_eq_div_mul, Nat.add_div_right _ hb]

end

/-- **Averages** are rounded as if they were exact. -/
theorem round_average {a b : Nat} (ha : 0 < a) (hb : 0 < b) (hsmall : a < 2 ^ 50)
    (hbound : b < 2 ^ 53) (limit : Nat) :
    roundSaturating limit (whole a / whole b) = min ((2 * a + b) / (2 * b)) limit := by
  obtain ⟨r, t, c, e, hstored, hunpack, hvalue, hplace, hlow, hhigh⟩ :=
    whole_div ha hb hbound hsmall
  have hrational : rational? (whole a / whole b).toModel.unpack = some ((r : ℚ) / 2 ^ t) := by
    rw [hunpack, ← hvalue]; rfl
  have hhalf : (r : ℚ) / 2 ^ t + 1 / 2 = (2 * r + 2 ^ t : Nat) / (2 ^ t * 2 : Nat) := by
    push_cast
    field_simp
  rw [roundSaturating_eq hrational, hhalf, Nat.floor_div_eq_div, half_up hb hplace hlow hhigh]

end SidPlayback.Decimal
