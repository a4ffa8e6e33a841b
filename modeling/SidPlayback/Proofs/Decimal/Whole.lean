/-
  Natural numbers in double precision.

  Below `2 ^ 53` natural numbers are exact, and so are their sums.

  * `Decimal.Normal` are the coefficients and exponents of numbers that are not too
    small, and `Decimal.Stored` of those that are not too large either;
    `Decimal.Stored.unpack_pack` says that they are stored as they are;
  * `Decimal.whole` is a natural number in double precision, and
    `Decimal.whole_unpack` the coefficient and the exponent of it;
  * `Decimal.whole_add`: sums are exact.
-/
import SidPlayback.Proofs.Decimal.Ranks

namespace SidPlayback.Decimal

open Float.Model Float.Model.UnpackedFloat

/-! ## Stored numbers -/

/-- A coefficient of 53 bits, with an exponent that is not too small. -/
structure Normal (m : Nat) (e : Int) : Prop where
  log2_eq : m.log2 = 52
  least : -1074 ≤ e

/-- A coefficient of 53 bits, with an exponent that there is room for. -/
structure Stored (m : Nat) (e : Int) : Prop extends Normal m e where
  last : e ≤ 971

namespace Normal
variable {m : Nat} {e : Int} (h : Normal m e)
include h

theorem pos : 0 < m := by
  refine Nat.pos_of_ne_zero fun hm => ?_
  have hlog := h.log2_eq
  rw [hm] at hlog
  cases hlog

theorem bounds : 2 ^ 52 ≤ m ∧ m < 2 ^ 53 := (Nat.log2_eq_iff h.pos.ne').1 h.log2_eq

theorem shift (accuracy : Accuracy) : shiftToTargetExponent Format.binary64 m e accuracy =
    (ExtendedMantissa.ofMantissaAndAccuracy m accuracy, e) := by
  have htarget : Format.binary64.targetExponent (totalExponent m e) = e := by
    have hleast := h.least
    simp only [Format.targetExponent, totalExponent, Format.mantissaBits, Format.minExponent,
      h.log2_eq]
    omega
  simp only [shiftToTargetExponent, shiftToExponent, htarget, Int.sub_self, Int.toNat_zero]
  rw [Int.natCast_zero, Int.add_zero]
  rfl

end Normal

namespace Normal
variable {m : Nat} {e : Int} (h : Normal m e)
include h

theorem canonical : Canonical Format.binary64 m e := ⟨h.pos, h.bounds.2, h.least, .inr h.bounds.1⟩

theorem rank_lt_iff : rank Format.binary64 e m < lastRank Format.binary64 ↔ e ≤ 971 := by
  have hleast := h.least
  rw [h.canonical.rank_lt_iff (by decide)]
  show (e - -1074).toNat + 2 < 2048 ↔ e ≤ 971
  omega

end Normal

/-- **What is stored** can be read again. -/
theorem Stored.unpack_pack {m : Nat} {e : Int} (h : Stored m e) (s : Sign) :
    (Float.Model.pack (.finite s m e h.pos)).unpack = .finite s m e h.pos :=
  Ranked.unpack_pack (by decide) (.finite h.canonical) (h.rank_lt_iff.2 h.last)

/-! ## Exact rounding -/

/-- Zeros that were appended are dropped again. -/
theorem shiftRight_shiftLeft (m k : Nat) :
    (⟨m <<< k, false, false⟩ : ExtendedMantissa) >>> k = ⟨m, false, false⟩ := by
  induction k generalizing m with
  | zero => rfl
  | succ k ih =>
    have hstep : (⟨m <<< (k + 1), false, false⟩ : ExtendedMantissa) >>> (k + 1) =
        ExtendedMantissa.shiftRightOne ((⟨(m <<< 1) <<< k, false, false⟩ : ExtendedMantissa) >>> k) := by
      rw [← Nat.shiftLeft_add, Nat.add_comm 1 k]; rfl
    rw [hstep, ih, Nat.shiftLeft_eq]
    simp [ExtendedMantissa.shiftRightOne]

namespace Normal
variable {m : Nat} {e : Int} (h : Normal m e)
include h

theorem shift_shiftLeft (k : Nat) : shiftToTargetExponent Format.binary64 (m <<< k) (e - k) .exact =
    (⟨m, false, false⟩, e) := by
  have hlog : (m <<< k).log2 = 52 + k := by
    rw [log2_shiftLeft h.pos, h.log2_eq]
  have htarget : Format.binary64.targetExponent (totalExponent (m <<< k) (e - k)) = e := by
    have hleast := h.least
    simp only [Format.targetExponent, totalExponent, Format.mantissaBits, Format.minExponent, hlog]
    omega
  have hback : (e - (e - k)).toNat = k := by omega
  simp only [shiftToTargetExponent, shiftToExponent, htarget, hback]
  rw [Prod.mk.injEq]
  exact ⟨shiftRight_shiftLeft m k, by omega⟩

/-- Rounding shifts twice, since the first result may have a bit too many. -/
theorem rounded {n : Nat} {d d' : Int} {accuracy : Accuracy} {x : ExtendedMantissa} (s : Sign)
    (hfirst : shiftToTargetExponent Format.binary64 n d accuracy = (x, d'))
    (hagain : shiftToTargetExponent Format.binary64 x.roundedMantissa d' .exact =
      (⟨m, false, false⟩, e)) :
    roundWithAccuracy Format.binary64 s n d accuracy = .finite s m e h.pos := by
  rw [roundWithAccuracy, hfirst]
  simp only [hagain]
  exact dif_neg h.pos.ne'

end Normal

/-! ## Natural numbers -/

/-- The coefficient of a natural number. -/
def digits (n : Nat) : Nat := n <<< (52 - n.log2)

section
variable {n : Nat} (hpos : 0 < n) (hbound : n < 2 ^ 53)
include hpos hbound

theorem log2_le : n.log2 ≤ 52 := Nat.lt_succ_iff.1 ((Nat.log2_lt hpos.ne').2 hbound)

theorem stored_digits : Stored (digits n) (n.log2 - 52) := by
  have hlog := log2_le hpos hbound
  refine ⟨⟨?_, by omega⟩, by omega⟩
  rw [digits, log2_shiftLeft hpos]
  omega

theorem natCast_eq_digits : (n : ℚ) = digits n * 2 ^ (n.log2 - 52 : Int) :=
  natCast_eq_scaled (f := Format.binary64) hpos hbound

/-- **Natural numbers** are exact, and however many zeros are appended to them. -/
theorem round_shiftLeft (k : Nat) : UnpackedFloat.round Format.binary64 .positive (n <<< k) (-k) =
    .finite .positive (digits n) (n.log2 - 52) (stored_digits hpos hbound).pos := by
  have hrounded := rounded_round (f := Format.binary64) .positive
    (show 0 < n <<< k from Nat.shiftLeft_pos_iff.2 hpos) (-k)
  have hnumber : ((n <<< k : Nat) : ℚ) * 2 ^ (-k : Int) = n := by
    rw [Nat.shiftLeft_eq, zpow_neg, zpow_natCast]
    push_cast
    rw [mul_inv_cancel_right₀ (by positivity)]
  rw [hnumber, natCast_eq_digits hpos hbound] at hrounded
  exact hrounded.eq_finite (stored_digits hpos hbound).canonical

theorem unpacked_ofNat : UnpackedFloat.ofNat Format.binary64 n =
    .finite .positive (digits n) (n.log2 - 52) (stored_digits hpos hbound).pos :=
  ofNat_eq_finite (f := Format.binary64) hpos hbound (stored_digits hpos hbound).least

end

theorem digits_shiftLeft {n k : Nat} (hlog : n.log2 ≤ 52) (hk : -k ≤ (n.log2 - 52 : Int)) :
    digits n <<< (n.log2 - 52 - -k : Int).toNat = n <<< k := by
  rw [digits, ← Nat.shiftLeft_add]
  congr 1
  omega

theorem add_digits {a b : Nat} (ha : 0 < a) (hb : 0 < b) (hbound : a + b < 2 ^ 53) :
    UnpackedFloat.add Format.binary64
        (.finite .positive (digits a) (a.log2 - 52) (stored_digits ha (by omega)).pos)
        (.finite .positive (digits b) (b.log2 - 52) (stored_digits hb (by omega)).pos) =
      .finite .positive (digits (a + b)) ((a + b).log2 - 52)
        (stored_digits (Nat.add_pos_left ha b) hbound).pos := by
  have hlogA := log2_le ha (by omega)
  have hlogB := log2_le hb (by omega)
  obtain ⟨k, hk⟩ : ∃ k : Nat, min (a.log2 - 52 : Int) (b.log2 - 52) = -k :=
    ⟨52 - min a.log2 b.log2, by omega⟩
  have hsum : (a <<< k + b <<< k : Int) = ((a + b) <<< k : Nat) := by
    rw [Nat.shiftLeft_eq, Nat.shiftLeft_eq, Nat.shiftLeft_eq, Nat.add_mul, Nat.cast_add]
  have hpos : (0 : Int) < ((a + b) <<< k : Nat) :=
    Int.natCast_pos.2 (Nat.shiftLeft_pos_iff.2 (Nat.add_pos_left ha b))
  simp only [UnpackedFloat.add, decreaseExponent, hk, Sign.apply]
  rw [digits_shiftLeft hlogA (by omega), digits_shiftLeft hlogB (by omega), hsum, UnpackedFloat.normalize,
    Int.compare_eq_gt.2 hpos]
  exact round_shiftLeft (Nat.add_pos_left ha b) hbound k

/-- A natural number in double precision. -/
def whole (n : Nat) : Float := .ofModel (.ofNat n)

theorem toFloat_eq_whole (n : UInt16) : n.toFloat = whole n.toNat := rfl

theorem toFloat_eq_whole' (n : UInt32) : n.toFloat = whole n.toNat := rfl

theorem whole_unpack {n : Nat} (hbound : n < 2 ^ 53) :
    (whole n).toModel.unpack = UnpackedFloat.ofNat Format.binary64 n := by
  rcases Nat.eq_zero_or_pos n with rfl | hpos
  · rfl
  · show (Float.Model.pack (UnpackedFloat.ofNat Format.binary64 n)).unpack = _
    rw [unpacked_ofNat hpos hbound]
    exact (stored_digits hpos hbound).unpack_pack .positive

theorem isFinite_whole {n : Nat} (hbound : n < 2 ^ 53) : (whole n).isFinite = true := by
  show (whole n).toModel.unpack.isFinite = true
  rcases Nat.eq_zero_or_pos n with rfl | hpos
  · rfl
  · rw [whole_unpack hbound, unpacked_ofNat hpos hbound]; rfl

theorem zero_lt_whole {n : Nat} (hbound : n < 2 ^ 53) : 0.0 < whole n ↔ 0 < n := by
  have hlt : 0.0 < whole n ↔
      (0.0 : Float).toModel.unpack.lt (whole n).toModel.unpack = true := decide_eq_true_iff
  rw [hlt, whole_unpack hbound]
  rcases Nat.eq_zero_or_pos n with rfl | hpos
  · decide
  · rw [unpacked_ofNat hpos hbound]
    exact iff_of_true rfl hpos

theorem rational?_whole {n : Nat} (hbound : n < 2 ^ 53) :
    rational? (whole n).toModel.unpack = some (n : ℚ) := by
  rw [whole_unpack hbound]
  rcases Nat.eq_zero_or_pos n with rfl | hpos
  · rfl
  · rw [unpacked_ofNat hpos hbound, rational?, natCast_eq_digits hpos hbound]

/-- **Sums** of natural numbers are exact. -/
theorem whole_add {a b : Nat} (hbound : a + b < 2 ^ 53) : whole a + whole b = whole (a + b) := by
  have hunpacked : UnpackedFloat.add Format.binary64 (UnpackedFloat.ofNat Format.binary64 a)
      (UnpackedFloat.ofNat Format.binary64 b) = UnpackedFloat.ofNat Format.binary64 (a + b) := by
    rcases Nat.eq_zero_or_pos a with rfl | ha
    · rcases Nat.eq_zero_or_pos b with rfl | hb
      · rfl
      · rw [Nat.zero_add, unpacked_ofNat hb (by omega)]; rfl
    · rcases Nat.eq_zero_or_pos b with rfl | hb
      · rw [Nat.add_zero, unpacked_ofNat ha (by omega)]; rfl
      · rw [unpacked_ofNat ha (by omega), unpacked_ofNat hb (by omega),
          unpacked_ofNat (Nat.add_pos_left ha b) hbound]
        exact add_digits ha hb hbound
  have hmodel : (whole a).toModel + (whole b).toModel = (whole (a + b)).toModel := by
    show Float.Model.pack (UnpackedFloat.add Format.binary64 (whole a).toModel.unpack
      (whole b).toModel.unpack) = _
    rw [whole_unpack (by omega), whole_unpack (by omega), hunpacked]
    rfl
  show Float.ofModel _ = Float.ofModel _
  exact congrArg Float.ofModel hmodel

end SidPlayback.Decimal
