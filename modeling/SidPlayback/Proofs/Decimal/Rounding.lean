/-
  Rounding to the nearest number of a binary format.

  * `Decimal.Nearest` is rounding to a natural number, ties to the even one;
  * `Decimal.Lies` is what is known of a number of which only the beginning is kept, and
    `Decimal.Lies.nearest` that this is enough to round it;
  * `Decimal.Cut` is the exponent at which a format cuts a number off, and `Decimal.cut_target`
    that it is found from the beginning of the number;
  * `Decimal.Rounded` relates a number to the value that it is rounded to, and
    `Decimal.rounded_mul`, `Decimal.rounded_div` and `Decimal.rounded_ofNat` say that operations
    round their exact results.
-/
import Mathlib
import SidPlayback.Proofs.Decimal.Rational

namespace SidPlayback.Decimal

open Float.Model Float.Model.UnpackedFloat

/-! ## Natural numbers -/

/-- A natural number nearest to `t`, the even one if there are two. -/
structure Nearest (t : ℚ) (r : ℕ) : Prop where
  within : |t - r| ≤ 1 / 2
  tie : |t - r| = 1 / 2 → Even r

namespace Nearest
variable {t : ℚ} {r : ℕ}

theorem natCast (n : ℕ) : Nearest n n := ⟨by norm_num, fun h => by norm_num at h⟩

theorem bounds (h : Nearest t r) : r - 1 / 2 ≤ t ∧ t ≤ r + 1 / 2 := by
  obtain ⟨hlow, hhigh⟩ := abs_le.1 h.within
  exact ⟨by linarith, by linarith⟩

theorem le_of_lt (h : Nearest t r) {n : ℕ} (ht : t < n + 1 / 2) : r ≤ n := by
  by_contra hlt
  have hnext : (n + 1 : ℚ) ≤ r := by exact_mod_cast not_le.1 hlt
  linarith [h.bounds.1]

theorem ge_of_gt (h : Nearest t r) {n : ℕ} (ht : (n : ℚ) - 1 / 2 < t) : n ≤ r := by
  by_contra hlt
  have hnext : (r + 1 : ℚ) ≤ n := by exact_mod_cast not_le.1 hlt
  linarith [h.bounds.2]

/-- A number of units is off by half a unit at most. -/
theorem error {q u : ℚ} (h : Nearest (q / u) r) (hu : 0 < u) : |r * u - q| ≤ u / 2 := by
  have hscale : r * u - q = -(q / u - r) * u := by field_simp; ring
  rw [hscale, abs_mul, abs_neg, abs_of_pos hu]
  calc |q / u - r| * u ≤ 1 / 2 * u := mul_le_mul_of_nonneg_right h.within hu.le
    _ = u / 2 := by ring

/-- Of two neighbours only one is even. -/
theorem not_lt (h : Nearest t r) {r' : ℕ} (h' : Nearest t r') : ¬ r < r' := fun hlt => by
  have hnext : (r + 1 : ℚ) ≤ r' := by exact_mod_cast hlt
  have hhigh := h.bounds.2
  have hlow := h'.bounds.1
  have hsucc : r' = r + 1 := by
    have : (r' : ℚ) = r + 1 := by linarith
    exact_mod_cast this
  have heven : Even r := h.tie (by rw [abs_of_nonneg] <;> linarith)
  have heven' : Even r' := h'.tie (by rw [abs_of_nonpos] <;> linarith)
  rw [hsucc, Nat.even_add_one] at heven'
  exact heven' heven

theorem unique (h : Nearest t r) {r' : ℕ} (h' : Nearest t r') : r = r' :=
  Nat.le_antisymm (Nat.not_lt.1 (h'.not_lt h)) (Nat.not_lt.1 (h.not_lt h'))

/-- Even numbers may be added before rounding, or after. -/
theorem add (h : Nearest t r) {n : ℕ} (hn : Even n) : Nearest (n + t) (n + r : ℕ) := by
  have hdiff : (n + t : ℚ) - (n + r : ℕ) = t - r := by push_cast; ring
  exact ⟨by rw [hdiff]; exact h.within, fun ht => hn.add (h.tie (by rwa [hdiff] at ht))⟩

end Nearest

/-! ## Numbers that were cut off -/

/-- Where a number lies of which the whole part is kept, and how exact this is. -/
def Lies (m : ℕ) : Accuracy → ℚ → Prop
  | .exact, t => t = m
  | .inexact .lt, t => m < t ∧ t < m + 1 / 2
  | .inexact .eq, t => t = m + 1 / 2
  | .inexact .gt, t => m + 1 / 2 < t ∧ t < m + 1

namespace Lies
variable {m : ℕ} {accuracy : Accuracy} {t : ℚ}

theorem bounds (h : Lies m accuracy t) : m ≤ t ∧ t < m + 1 := by
  match accuracy with
  | .exact => rw [show t = m from h]; exact ⟨le_rfl, by linarith⟩
  | .inexact .lt => exact ⟨h.1.le, by linarith [h.2]⟩
  | .inexact .eq => rw [show t = m + 1 / 2 from h]; exact ⟨by linarith, by linarith⟩
  | .inexact .gt => exact ⟨by linarith [h.1], h.2⟩

theorem nearest (h : Lies m accuracy t) : Nearest t (accuracy.roundToNearestEven m) := by
  match accuracy with
  | .exact => rw [show t = m from h]; exact .natCast m
  | .inexact .lt =>
    obtain ⟨hlow, hhigh⟩ := h
    have habs : |t - m| = t - m := abs_of_pos (by linarith)
    exact ⟨by simp only [Accuracy.roundToNearestEven]; rw [habs]; linarith,
      fun htie => by simp only [Accuracy.roundToNearestEven] at htie; rw [habs] at htie; linarith⟩
  | .inexact .eq =>
    rw [show t = m + 1 / 2 from h]
    rcases Nat.even_or_odd m with heven | hodd
    · have hround : Accuracy.roundToNearestEven m (.inexact .eq) = m := by
        rw [Accuracy.roundToNearestEven, Nat.even_iff.1 heven, Nat.add_zero]
      rw [hround]
      exact ⟨by norm_num, fun _ => heven⟩
    · have hround : Accuracy.roundToNearestEven m (.inexact .eq) = m + 1 := by
        rw [Accuracy.roundToNearestEven, Nat.odd_iff.1 hodd]
      rw [hround]
      refine ⟨?_, fun _ => hodd.add_one⟩
      push_cast
      rw [abs_le]
      constructor <;> linarith
  | .inexact .gt =>
    obtain ⟨hlow, hhigh⟩ := h
    have habs : |t - (m + 1 : ℕ)| = m + 1 - t := by
      push_cast
      rw [abs_of_neg (by linarith)]
      ring
    exact ⟨by simp only [Accuracy.roundToNearestEven]; rw [habs]; linarith,
      fun htie => by simp only [Accuracy.roundToNearestEven] at htie; rw [habs] at htie; linarith⟩

/-- A remainder of a division is a fraction of the divisor. -/
theorem fraction (m : ℕ) {n d : ℕ} (hless : n < d) : Lies m (accuracyOfFraction n d) (m + n / d) := by
  have hd : (0 : ℚ) < d := by exact_mod_cast Nat.zero_lt_of_lt hless
  have hone : (n : ℚ) / d < 1 := by rw [div_lt_one hd]; exact_mod_cast hless
  unfold accuracyOfFraction
  split
  case isTrue h => simp [Lies, h]
  case isFalse h =>
    have hpos : (0 : ℚ) < n / d := div_pos (by exact_mod_cast Nat.pos_of_ne_zero h) hd
    cases hcompare : compare (2 * n) d with
    | lt =>
      have hhalf : (2 * n : ℚ) < d := by exact_mod_cast Nat.compare_eq_lt.1 hcompare
      have hbelow : (n : ℚ) / d < 1 / 2 := by rw [div_lt_iff₀ hd]; linarith
      exact ⟨by linarith, by linarith⟩
    | eq =>
      have hhalf : (2 * n : ℚ) = d := by exact_mod_cast Nat.compare_eq_eq.1 hcompare
      have hequal : (n : ℚ) / d = 1 / 2 := by rw [div_eq_iff hd.ne']; linarith
      rw [hequal]
      rfl
    | gt =>
      have hhalf : (d : ℚ) < 2 * n := by exact_mod_cast Nat.compare_eq_gt.1 hcompare
      have habove : 1 / 2 < (n : ℚ) / d := by rw [lt_div_iff₀ hd]; linarith
      exact ⟨by linarith, by linarith⟩

end Lies

/-- Where a number lies of which an extended coefficient is kept. -/
def Extends (x : ExtendedMantissa) (t : ℚ) : Prop := Lies x.mantissa x.accuracy t

theorem extends_ofMantissaAndAccuracy {m : ℕ} {accuracy : Accuracy} {t : ℚ} (h : Lies m accuracy t) :
    Extends (.ofMantissaAndAccuracy m accuracy) t := by
  match accuracy with
  | .exact | .inexact .lt | .inexact .eq | .inexact .gt => exact h

namespace Extends
variable {x : ExtendedMantissa} {t : ℚ}

theorem shiftRightOne (h : Extends x t) : Extends x.shiftRightOne (t / 2) := by
  obtain ⟨m, round, sticky⟩ := x
  have hparity : (m : ℚ) = 2 * (m / 2 : ℕ) + (m % 2 : ℕ) := by exact_mod_cast (Nat.div_add_mod m 2).symm
  -- The last bit of the coefficient becomes the first one of those behind it.
  rcases Nat.mod_two_eq_zero_or_one m with hbit | hbit <;> rw [hbit] at hparity <;>
    cases round <;> cases sticky <;>
    simp only [Extends, ExtendedMantissa.shiftRightOne, ExtendedMantissa.accuracy, hbit, Lies,
      bne_self_eq_false, Bool.or_self, Bool.or_true, Bool.or_false, show (1 != 0) = true from rfl]
      at h ⊢ <;>
    push_cast at hparity <;>
    first
    | linarith
    | exact ⟨by linarith [h.1], by linarith [h.2]⟩
    | exact ⟨by linarith, by linarith⟩

/-- **Shifting** divides by a power of two, whatever bits are lost. -/
theorem shiftRight (h : Extends x t) (k : ℕ) : Extends (x >>> k) (t / 2 ^ k) := by
  induction k with
  | zero => rw [pow_zero, div_one]; exact h
  | succ k ih =>
    rw [pow_succ, ← div_div]
    exact ih.shiftRightOne

theorem nearest (h : Extends x t) : Nearest t x.roundedMantissa := Lies.nearest h

end Extends

/-! ## Formats -/

variable {f : Float.Model.Format}

theorem mantissaBits_eq (f : Float.Model.Format) :
    (f.mantissaBits : ℤ) = f.mantissaBitsWithoutImplicit + 1 := by
  rw [Float.Model.Format.mantissaBits]
  push_cast
  ring

theorem two_pow_mantissaBits {R : Type} [Semiring R] (f : Float.Model.Format) :
    (2 : R) ^ f.mantissaBits = 2 * 2 ^ f.mantissaBitsWithoutImplicit := by
  rw [Float.Model.Format.mantissaBits, pow_add, pow_one]

/-- In smaller units a number has more of them. -/
theorem div_zpow (q : ℚ) (e : ℤ) (k : ℕ) : q / 2 ^ e = q / 2 ^ (e + k) * 2 ^ k := by
  rw [zpow_add₀ (by norm_num), zpow_natCast]
  field_simp

/-- The exponent at which the format cuts a number off: all bits of a coefficient are
    used, unless the exponent is the least. -/
structure Cut (f : Float.Model.Format) (q : ℚ) (e : ℤ) : Prop where
  least : f.minExponent ≤ e
  below : q / 2 ^ e < 2 ^ f.mantissaBits
  above : e = f.minExponent ∨ 2 ^ f.mantissaBitsWithoutImplicit ≤ q / 2 ^ e

namespace Cut
variable {q : ℚ} {e e' : ℤ}

/-- At larger exponents there are not bits enough. -/
theorem ge (h : Cut f q e) (habove : e' = f.minExponent ∨ 2 ^ f.mantissaBitsWithoutImplicit ≤ q / 2 ^ e') :
    e' ≤ e := by
  have hleast := h.least
  by_contra hgt
  obtain ⟨k, hk⟩ : ∃ k : ℕ, e' = e + (k + 1 : ℕ) := ⟨(e' - e - 1).toNat, by omega⟩
  have hbelow := h.below
  replace habove := habove.resolve_left (by omega)
  have hunits : (2 : ℚ) ^ f.mantissaBitsWithoutImplicit * 1 ≤ q / 2 ^ e' * 2 ^ k :=
    mul_le_mul habove (one_le_pow₀ (by norm_num)) (by norm_num) (le_trans (by positivity) habove)
  rw [div_zpow q e (k + 1), ← hk, pow_succ, two_pow_mantissaBits] at hbelow
  linarith

theorem unique (h : Cut f q e) (h' : Cut f q e') : e = e' :=
  le_antisymm (h'.ge h.above) (h.ge h'.above)

end Cut

theorem lt_two_pow_log2 (m : ℕ) : m < 2 ^ (m.log2 + 1) := Nat.lt_log2_self

/-- The beginning of a number tells where it is cut off. -/
theorem cut_target {m : ℕ} {e : ℤ} {accuracy : Accuracy} {t : ℚ} (h : Lies m accuracy t)
    (he : e ≤ f.targetExponent (totalExponent m e)) :
    Cut f (t * 2 ^ e) (f.targetExponent (totalExponent m e)) := by
  obtain ⟨hlow, hhigh⟩ := h.bounds
  have hwidth := f.hm
  have hbits := mantissaBits_eq f
  have htarget : f.targetExponent (totalExponent m e) =
      max (m.log2 + 1 + e - f.mantissaBits) f.minExponent := rfl
  refine ⟨by omega, ?_, ?_⟩
  · have hnext : t < 2 ^ (m.log2 + 1) := by
      have : (m + 1 : ℚ) ≤ 2 ^ (m.log2 + 1) := by exact_mod_cast lt_two_pow_log2 m
      linarith
    rw [div_lt_iff₀ (by positivity)]
    calc t * 2 ^ e < 2 ^ (m.log2 + 1) * 2 ^ e := by gcongr
      _ = 2 ^ (m.log2 + 1 + e : ℤ) := by rw [zpow_add₀ (by norm_num)]; norm_cast
      _ ≤ 2 ^ (f.mantissaBits + f.targetExponent (totalExponent m e)) :=
        zpow_le_zpow_right₀ (by norm_num) (by omega)
      _ = _ := by rw [zpow_add₀ (by norm_num), zpow_natCast]
  · rcases max_choice (m.log2 + 1 + e - f.mantissaBits : ℤ) f.minExponent with hmax | hmax
    · right
      have hm : m ≠ 0 := by
        rintro rfl
        rw [Nat.log2_zero] at hmax htarget
        omega
      rw [le_div_iff₀ (by positivity), htarget, hmax]
      calc (2 : ℚ) ^ f.mantissaBitsWithoutImplicit * 2 ^ (m.log2 + 1 + e - f.mantissaBits : ℤ)
          = 2 ^ m.log2 * 2 ^ e := by
            rw [← zpow_natCast, ← zpow_add₀ (by norm_num), ← zpow_natCast,
              ← zpow_add₀ (by norm_num)]
            congr 1
            omega
        _ ≤ m * 2 ^ e := by
            gcongr
            exact_mod_cast Nat.log2_self_le hm
        _ ≤ t * 2 ^ e := by gcongr
    · exact .inl (htarget.trans hmax)

/-! ## Rounded values -/

/-- The value of `r` units of `2 ^ e`, in which `r` may have a bit too many. -/
def units (f : Float.Model.Format) (s : Sign) (e : ℤ) (r : ℕ) : UnpackedFloat :=
  if h : r = 0 then .zero s
  else if r < 2 ^ f.mantissaBits then .finite s r e (Nat.pos_of_ne_zero h)
  else .finite s (2 ^ f.mantissaBitsWithoutImplicit) (e + 1) (Nat.two_pow_pos _)

/-- What a positive number is rounded to. -/
inductive Rounded (f : Float.Model.Format) (s : Sign) (q : ℚ) : UnpackedFloat → Prop where
  | units {e : ℤ} {r : ℕ} : Cut f q e → Nearest (q / 2 ^ e) r → Rounded f s q (units f s e r)

theorem shiftToTargetExponent_eq {m : ℕ} {e : ℤ} {accuracy : Accuracy}
    (he : e ≤ f.targetExponent (totalExponent m e)) :
    shiftToTargetExponent f m e accuracy =
      (ExtendedMantissa.ofMantissaAndAccuracy m accuracy >>>
        (f.targetExponent (totalExponent m e) - e).toNat, f.targetExponent (totalExponent m e)) := by
  simp only [shiftToTargetExponent, shiftToExponent, Prod.mk.injEq, true_and]
  omega

theorem le_of_nearest_cut {q : ℚ} {e : ℤ} {r : ℕ} (hcut : Cut f q e) (hr : Nearest (q / 2 ^ e) r) :
    r ≤ 2 ^ f.mantissaBits := by
  refine hr.le_of_lt ?_
  push_cast
  linarith [hcut.below]

/-- A rounded coefficient is not rounded again, except that a carry is shifted out. -/
theorem shiftAgain {e : ℤ} {r : ℕ} (hleast : f.minExponent ≤ e) (hr : r ≤ 2 ^ f.mantissaBits) :
    shiftToTargetExponent f r e .exact =
      if r < 2 ^ f.mantissaBits then (⟨r, false, false⟩, e)
      else (⟨2 ^ f.mantissaBitsWithoutImplicit, false, false⟩, e + 1) := by
  have hwidth := f.hm
  have hbits := mantissaBits_eq f
  have htarget : f.targetExponent (totalExponent r e) =
      max (r.log2 + 1 + e - f.mantissaBits) f.minExponent := rfl
  split
  case isTrue hlt =>
    have hlog : r.log2 + 1 ≤ f.mantissaBits := by
      rcases Nat.eq_zero_or_pos r with rfl | hpos
      · rw [Nat.log2_zero]; omega
      · exact (Nat.log2_lt hpos.ne').2 hlt
    have hshift : (f.targetExponent (totalExponent r e) - e).toNat = 0 := by omega
    simp only [shiftToTargetExponent, shiftToExponent, hshift, Int.natCast_zero, Int.add_zero]
    rfl
  case isFalse hge =>
    have heq : r = 2 ^ f.mantissaBits := by omega
    have hlog : r.log2 = f.mantissaBits := by rw [heq, Nat.log2_two_pow]
    have hshift : (f.targetExponent (totalExponent r e) - e).toNat = 1 := by omega
    have hhalf : r / 2 = 2 ^ f.mantissaBitsWithoutImplicit := by
      rw [heq, two_pow_mantissaBits, Nat.mul_div_cancel_left _ (by decide)]
    have heven : r % 2 = 0 := by rw [heq, two_pow_mantissaBits, Nat.mul_mod_right]
    simp only [shiftToTargetExponent, shiftToExponent, hshift]
    change ((⟨r, false, false⟩ : ExtendedMantissa).shiftRightOne, e + 1) = _
    rw [ExtendedMantissa.shiftRightOne, hhalf, heven]
    rfl

/-- **Rounding** a number of which the beginning is known. -/
theorem rounded_roundWithAccuracy {m : ℕ} {e : ℤ} {accuracy : Accuracy} {t q : ℚ} (s : Sign)
    (h : Lies m accuracy t) (he : e ≤ f.targetExponent (totalExponent m e)) (hq : q = t * 2 ^ e) :
    Rounded f s q (roundWithAccuracy f s m e accuracy) := by
  have hcut := cut_target h he
  rw [← hq] at hcut
  set E := f.targetExponent (totalExponent m e) with hE
  have hextends := (extends_ofMantissaAndAccuracy h).shiftRight (E - e).toNat
  have hscaled : t / 2 ^ (E - e).toNat = q / 2 ^ E := by
    have hpow : (2 : ℚ) ^ E = 2 ^ (E - e).toNat * 2 ^ e := by
      rw [← zpow_natCast, ← zpow_add₀ (by norm_num)]
      congr 1
      omega
    rw [hq, hpow, mul_div_mul_right _ _ (by positivity)]
  rw [hscaled] at hextends
  have hr := hextends.nearest
  generalize hx : ExtendedMantissa.ofMantissaAndAccuracy m accuracy >>> (E - e).toNat = x at hr
  have hvalue : roundWithAccuracy f s m e accuracy = units f s E x.roundedMantissa := by
    rw [roundWithAccuracy, shiftToTargetExponent_eq he, ← hE, hx]
    simp only [shiftAgain hcut.least (le_of_nearest_cut hcut hr), units]
    by_cases hzero : x.roundedMantissa = 0
    · simp [hzero]
    · by_cases hlt : x.roundedMantissa < 2 ^ f.mantissaBits
      · simp [hlt, hzero]
      · simp [hlt, hzero]
  rw [hvalue]
  exact .units hcut hr

theorem log2_shiftLeft {n : ℕ} (hpos : 0 < n) (k : ℕ) : (n <<< k).log2 = n.log2 + k := by
  have hne : n <<< k ≠ 0 := (Nat.shiftLeft_pos_iff.2 hpos).ne'
  rw [Nat.log2_eq_iff hne, Nat.shiftLeft_eq, Nat.pow_add, Nat.add_right_comm, Nat.pow_add]
  exact ⟨Nat.mul_le_mul_right _ (Nat.log2_self_le hpos.ne'),
    Nat.mul_lt_mul_of_pos_right (lt_two_pow_log2 n) (Nat.two_pow_pos k)⟩

theorem rounded_round {n : ℕ} (s : Sign) (hpos : 0 < n) (e : ℤ) :
    Rounded f s (n * 2 ^ e) (UnpackedFloat.round f s n e) := by
  set k := (e - f.targetExponent (totalExponent n e)).toNat with hk
  have htotal : totalExponent (n <<< k) (e - k) = totalExponent n e := by
    rw [totalExponent, totalExponent, log2_shiftLeft hpos]
    push_cast
    ring
  have hround : UnpackedFloat.round f s n e = roundWithAccuracy f s (n <<< k) (e - k) .exact := rfl
  rw [hround]
  refine rounded_roundWithAccuracy s (show Lies _ .exact ((n <<< k : ℕ) : ℚ) from rfl) ?_ ?_
  · rw [htotal]
    omega
  · rw [Nat.shiftLeft_eq, zpow_sub₀ (by norm_num), zpow_natCast]
    push_cast
    field_simp

/-- Natural numbers are rounded. -/
theorem rounded_ofNat {n : ℕ} (hpos : 0 < n) : Rounded f .positive n (.ofNat f n) := by
  have hround := rounded_round (f := f) .positive hpos 0
  rw [zpow_zero, mul_one] at hround
  rw [UnpackedFloat.ofNat, UnpackedFloat.ofInt, UnpackedFloat.normalize,
    Int.compare_eq_gt.2 (by omega)]
  exact hround

section
variable {s₁ s₂ : Sign} {m₁ m₂ : ℕ} {e₁ e₂ : ℤ} {h₁ : 0 < m₁} {h₂ : 0 < m₂}

/-- Products are rounded, if there are bits enough. -/
theorem rounded_mul (hbits : 2 ^ f.mantissaBitsWithoutImplicit ≤ m₁ * m₂) :
    Rounded f (s₁ * s₂) (m₁ * 2 ^ e₁ * (m₂ * 2 ^ e₂))
      (UnpackedFloat.mul f (.finite s₁ m₁ e₁ h₁) (.finite s₂ m₂ e₂ h₂)) := by
  have hlog : f.mantissaBitsWithoutImplicit ≤ (m₁ * m₂).log2 :=
    (Nat.le_log2 (Nat.mul_pos h₁ h₂).ne').2 hbits
  have hwidth := mantissaBits_eq f
  have htarget : f.targetExponent (totalExponent (m₁ * m₂) (e₁ + e₂)) =
      max ((m₁ * m₂).log2 + 1 + (e₁ + e₂) - f.mantissaBits) f.minExponent := rfl
  refine rounded_roundWithAccuracy _ (show Lies _ .exact ((m₁ * m₂ : ℕ) : ℚ) from rfl) (by omega) ?_
  rw [zpow_add₀ (by norm_num)]
  push_cast
  ring

/-- Quotients are rounded. -/
theorem rounded_div : Rounded f (s₁ / s₂) (m₁ * 2 ^ e₁ / (m₂ * 2 ^ e₂))
    (UnpackedFloat.div f (.finite s₁ m₁ e₁ h₁) (.finite s₂ m₂ e₂ h₂)) := by
  set E := min (e₁ - e₂) (f.targetExponent (totalExponent m₁ e₁ - totalExponent m₂ e₂)) with hE
  set k := (e₁ - e₂ - E).toNat with hk
  have hdiv : UnpackedFloat.div f (.finite s₁ m₁ e₁ h₁) (.finite s₂ m₂ e₂ h₂) =
      roundWithAccuracy f (s₁ / s₂) (m₁ <<< k / m₂) E (accuracyOfFraction (m₁ <<< k % m₂) m₂) := rfl
  have htarget : f.targetExponent (totalExponent m₁ e₁ - totalExponent m₂ e₂) =
      max (m₁.log2 + 1 + e₁ - (m₂.log2 + 1 + e₂) - f.mantissaBits) f.minExponent := rfl
  have hagain : f.targetExponent (totalExponent (m₁ <<< k / m₂) E) =
      max ((m₁ <<< k / m₂).log2 + 1 + E - f.mantissaBits) f.minExponent := rfl
  have hwidth := mantissaBits_eq f
  rw [hdiv]
  refine rounded_roundWithAccuracy _ (Lies.fraction _ (Nat.mod_lt _ h₂)) ?_ ?_
  · by_cases hleast : E ≤ f.minExponent
    · omega
    · -- The quotient then has bits enough, since so many zeros were appended.
      have hbits : 2 ^ f.mantissaBitsWithoutImplicit ≤ m₁ <<< k / m₂ := by
        rw [Nat.le_div_iff_mul_le h₂, Nat.shiftLeft_eq]
        calc 2 ^ f.mantissaBitsWithoutImplicit * m₂
            ≤ 2 ^ f.mantissaBitsWithoutImplicit * 2 ^ (m₂.log2 + 1) :=
              Nat.mul_le_mul_left _ (lt_two_pow_log2 m₂).le
          _ = 2 ^ (f.mantissaBitsWithoutImplicit + (m₂.log2 + 1)) := (Nat.pow_add ..).symm
          _ ≤ 2 ^ (m₁.log2 + k) := Nat.pow_le_pow_right (by decide) (by omega)
          _ = 2 ^ m₁.log2 * 2 ^ k := Nat.pow_add ..
          _ ≤ m₁ * 2 ^ k := Nat.mul_le_mul_right _ (Nat.log2_self_le h₁.ne')
      have hlog : f.mantissaBitsWithoutImplicit ≤ (m₁ <<< k / m₂).log2 :=
        (Nat.le_log2 (Nat.ne_of_gt (Nat.lt_of_lt_of_le (Nat.two_pow_pos _) hbits))).2 hbits
      omega
  · have hm₂ : (m₂ : ℚ) ≠ 0 := by exact_mod_cast h₂.ne'
    have hquotient : ((m₁ <<< k / m₂ : ℕ) : ℚ) + (m₁ <<< k % m₂ : ℕ) / m₂ = m₁ * 2 ^ k / m₂ := by
      have hsplit : (m₂ : ℚ) * (m₁ <<< k / m₂ : ℕ) + (m₁ <<< k % m₂ : ℕ) = m₁ * 2 ^ k := by
        have := Nat.div_add_mod (m₁ <<< k) m₂
        rw [Nat.shiftLeft_eq] at this ⊢
        exact_mod_cast this
      rw [← hsplit]
      field_simp
    have hpow : (2 : ℚ) ^ (k : ℤ) * 2 ^ E = 2 ^ e₁ / 2 ^ e₂ := by
      rw [← zpow_add₀ (by norm_num), ← zpow_sub₀ (by norm_num)]
      congr 1
      omega
    rw [hquotient, div_mul_eq_mul_div, mul_assoc, ← zpow_natCast, hpow]
    field_simp

end
end SidPlayback.Decimal
