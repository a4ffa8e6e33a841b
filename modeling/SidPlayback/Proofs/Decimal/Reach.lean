/-
  Numbers in double precision that reach a bound, rounding and overflow included.

  Rounding to the nearest number never gets below a bound that is itself a number, and what
  is too large becomes infinite.  So bounds on summands are bounds on rounded sums.

  * `Decimal.Reaches` says that a double is at least a given number, or infinite;
  * `Decimal.reaches_half_iff`: for one half this is the comparison of doubles;
  * `Decimal.roundSaturating_pos_iff`: what is rounded to a natural number is positive from
    one half on;
  * `Decimal.Reaches.add` and `Decimal.Reaches.div_whole`: sums and averages reach what their
    summands do.
-/
import SidPlayback.Proofs.Decimal.Average

namespace SidPlayback.Decimal

open Float.Model Float.Model.UnpackedFloat

/-- A double is a number of at least `q`, or infinite. -/
def Reaches (q : ℚ) (x : Float) : Prop :=
  x.toModel.unpack = .infinity .positive ∨ ∃ r, rational? x.toModel.unpack = some r ∧ q ≤ r

/-! ## One half -/

theorem unpack_half :
    (0.5 : Float).toModel.unpack = .finite .positive (2 ^ 52) (-53) (by decide) := rfl

theorem half_le_iff (x : Float) :
    0.5 ≤ x ↔ (0.5 : Float).toModel.unpack.le x.toModel.unpack = true := decide_eq_true_iff

/-- Of a coefficient with 53 bits the exponent decides. -/
theorem half_le_scaled_iff {m : Nat} {e : Int} (hm : m < 2 ^ 53) (he : e = -1074 ∨ Stored m e) :
    (1 / 2 : ℚ) ≤ m * 2 ^ e ↔ -53 < e ∨ -53 = e ∧ 2 ^ 52 ≤ m := by
  have htwo : (1 : ℚ) ≤ 2 := by norm_num
  rcases lt_or_ge e (-53) with hless | hmore
  · refine iff_of_false (not_le.2 ?_) (by omega)
    have hpow : (2 : ℚ) ^ e ≤ 2 ^ (-54 : Int) := zpow_le_zpow_right₀ htwo (by omega)
    have hcoefficient : (m : ℚ) < 2 ^ 53 := by exact_mod_cast hm
    calc (m : ℚ) * 2 ^ e ≤ m * 2 ^ (-54 : Int) := mul_le_mul_of_nonneg_left hpow (Nat.cast_nonneg m)
      _ < 2 ^ 53 * 2 ^ (-54 : Int) := mul_lt_mul_of_pos_right hcoefficient (by norm_num)
      _ = 1 / 2 := by norm_num
  · have hlow : 2 ^ 52 ≤ m := (he.resolve_left (by omega)).bounds.1
    refine iff_of_true ?_ (by omega)
    have hpow : (2 : ℚ) ^ (-53 : Int) ≤ 2 ^ e := zpow_le_zpow_right₀ htwo hmore
    have hcoefficient : (2 : ℚ) ^ 52 ≤ m := by exact_mod_cast hlow
    calc (1 / 2 : ℚ) = 2 ^ 52 * 2 ^ (-53 : Int) := by norm_num
      _ ≤ m * 2 ^ e := mul_le_mul hcoefficient hpow (by norm_num) (Nat.cast_nonneg m)

/-- **Doubles that are at least one half** are numbers of at least one half, or infinite. -/
theorem reaches_half_iff (x : Float) : Reaches (1 / 2) x ↔ 0.5 ≤ x := by
  rw [half_le_iff, unpack_half, Reaches]
  cases hx : x.toModel.unpack with
  | notANumber => exact iff_of_false (by simp [rational?]) Bool.false_ne_true
  | infinity s =>
    cases s with
    | positive => exact iff_of_true (.inl rfl) rfl
    | negative => exact iff_of_false (by simp [rational?]) Bool.false_ne_true
  | zero => exact iff_of_false (by simp [rational?]) Bool.false_ne_true
  | finite s m e hm =>
    obtain ⟨hbits, hexponent⟩ := unpack_bounds_double hx
    have hpos : (0 : ℚ) < m * 2 ^ e := mul_pos (by exact_mod_cast hm) (zpow_pos (by norm_num) e)
    cases s with
    | negative =>
      refine iff_of_false ?_ Bool.false_ne_true
      rintro (hinfinite | ⟨r, hr, hle⟩)
      · cases hinfinite
      · cases hr
        linarith
    | positive =>
      show _ ↔ ((compare (-53) e).then (compare (2 ^ 52) m)).isLE = true
      rw [Ordering.isLE_then_iff_or, Int.compare_eq_lt, Int.compare_eq_eq, Nat.isLE_compare,
        ← half_le_scaled_iff hbits hexponent]
      simp [rational?]

/-- **Rounding to a natural number** gives a positive one from one half on, and for infinity. -/
theorem roundSaturating_pos_iff {limit : Nat} (hlimit : 0 < limit) (x : Float) :
    0 < roundSaturating limit x ↔ 0.5 ≤ x := by
  rw [← reaches_half_iff, Reaches]
  rcases hx : rational? x.toModel.unpack with _ | q
  · cases hvalue : x.toModel.unpack with
    | notANumber =>
      rw [roundSaturating_nan hvalue]
      exact iff_of_false (lt_irrefl 0) (by simp)
    | infinity s =>
      rw [roundSaturating_infinity hvalue]
      cases s with
      | positive => exact iff_of_true hlimit (.inl rfl)
      | negative => exact iff_of_false (lt_irrefl 0) (by simp)
    | zero => rw [hvalue] at hx; cases hx
    | finite s => rw [hvalue] at hx; cases s <;> cases hx
  · have hfinite : x.toModel.unpack ≠ .infinity .positive := fun h => by rw [h] at hx; cases hx
    rw [roundSaturating_eq hx, lt_min_iff, and_iff_left hlimit, Nat.floor_pos]
    constructor
    · intro hone
      exact .inr ⟨q, rfl, by linarith⟩
    · rintro (hinfinite | ⟨r, hr, hle⟩)
      · exact absurd hinfinite hfinite
      · cases hr
        linarith

/-! ## Rounding -/

/-- What there is no room for becomes infinite. -/
theorem Normal.unpack_pack {m : Nat} {e : Int} (h : Normal m e) (hlarge : 971 < e) (s : Sign) :
    (Float.Model.pack (.finite s m e h.pos)).unpack = .infinity s :=
  Ranked.unpack_pack_infinity (by decide) (.finite h.canonical)
    (not_lt.1 fun hless => not_lt.2 (h.rank_lt_iff.1 hless) hlarge)

/-- A number with all bits is stored, or becomes infinite. -/
theorem Normal.reaches {m : Nat} {e : Int} (h : Normal m e) {q : ℚ} (hq : q ≤ m * 2 ^ e) :
    Reaches q (.ofModel (.pack (.finite .positive m e h.pos))) := by
  rcases le_or_gt e 971 with hroom | hlarge
  · have hstored : Stored m e := ⟨h, hroom⟩
    exact .inr ⟨m * 2 ^ e, congrArg rational? (hstored.unpack_pack .positive), hq⟩
  · exact .inl (h.unpack_pack hlarge .positive)

/-- Half-integers below a number with binary places: a comparison of natural numbers. -/
theorem half_le_places_iff (n r d : Nat) :
    (n : ℚ) / 2 ≤ r * 2 ^ (-(d + 1 : Nat) : Int) ↔ n * 2 ^ d ≤ r := by
  rw [zpow_neg, zpow_natCast, ← div_eq_mul_inv, le_div_iff₀ (by positivity)]
  have hcast : (n : ℚ) / 2 * 2 ^ (d + 1) = (n * 2 ^ d : Nat) := by
    push_cast
    ring
  rw [hcast, Nat.cast_le]

/-- **Rounding** does not get below a half-integer that is no longer than a coefficient: it is a
    multiple of the last place that is kept, or this place is a whole one at least. -/
theorem reaches_round {m k n : Nat} {e : Int} (hlog : m.log2 = 52 + k) (hleast : -1074 ≤ e + k)
    (hn : n ≤ 2 ^ 53) (hvalue : (n : ℚ) / 2 ≤ m * 2 ^ e) (accuracy : Accuracy) :
    Reaches (n / 2)
      (.ofModel (.pack (roundWithAccuracy Format.binary64 .positive m e accuracy))) := by
  obtain ⟨r, c, e', hnormal, hround, -, hresult, hlow, -⟩ :=
    roundWithAccuracy_bounds hlog hleast .positive accuracy
  rw [hround]
  refine hnormal.reaches ?_
  rw [hresult]
  rcases lt_or_ge (e + k) 0 with hfraction | hwhole
  · obtain ⟨d, hd⟩ : ∃ d : Nat, e + k = -(d + 1 : Nat) := ⟨(-(e + k) - 1).toNat, by omega⟩
    have he : e = -(d + k + 1 : Nat) := by omega
    rw [he, half_le_places_iff, Nat.pow_add, ← Nat.mul_assoc] at hvalue
    rw [hd, half_le_places_iff]
    exact ((Nat.le_div_iff_mul_le (Nat.two_pow_pos k)).2 hvalue).trans hlow
  · have hm : 2 ^ 52 * 2 ^ k ≤ m := by
      rw [← Nat.pow_add, ← hlog]
      exact Nat.log2_self_le (by rintro rfl; rw [Nat.log2_zero] at hlog; omega)
    have hkept : 2 ^ 52 ≤ r := ((Nat.le_div_iff_mul_le (Nat.two_pow_pos k)).2 hm).trans hlow
    have hcast : (2 : ℚ) ^ 52 ≤ r := by exact_mod_cast hkept
    have hbound : (n : ℚ) ≤ 2 ^ 53 := by exact_mod_cast hn
    have hpow : (1 : ℚ) ≤ 2 ^ (e + k) := one_le_zpow₀ (by norm_num) hwhole
    calc (n : ℚ) / 2 ≤ 2 ^ 52 := by linarith
      _ ≤ r := hcast
      _ ≤ r * 2 ^ (e + k) := le_mul_of_one_le_right (Nat.cast_nonneg r) hpow

theorem shiftLeft_mul (m : Nat) {d e : Int} (h : d ≤ e) :
    ((m <<< (e - d).toNat : Nat) : ℚ) * 2 ^ d = m * 2 ^ e := by
  obtain ⟨s, hs⟩ := Int.eq_ofNat_of_zero_le (sub_nonneg.2 h)
  have he : e = s + d := by omega
  rw [hs, Int.toNat_natCast, Nat.shiftLeft_eq, he, zpow_add₀ (by norm_num), zpow_natCast, ← mul_assoc]
  push_cast
  rfl

theorem log2_of_half_le {m : Nat} {e : Int} (h : (2 : ℚ) ^ (-1 : Int) ≤ m * 2 ^ e) :
    -1 ≤ m.log2 + e := by
  have htotal : -1 < (m.log2 : Int) + 1 + e := by
    refine (zpow_lt_zpow_iff_right₀ (one_lt_two (α := ℚ))).1 ?_
    have hlog : (m : ℚ) < 2 ^ (m.log2 + 1) := by exact_mod_cast Nat.lt_log2_self
    calc (2 : ℚ) ^ (-1 : Int) ≤ m * 2 ^ e := h
      _ < 2 ^ (m.log2 + 1) * 2 ^ e := mul_lt_mul_of_pos_right hlog (by positivity)
      _ = 2 ^ ((m.log2 : Int) + 1 + e) := by
        rw [zpow_add₀ (by norm_num), ← zpow_natCast]
        push_cast
        rfl
  omega

/-- Rounding does not get below a half-integer, whatever the length of the coefficient. -/
theorem reaches_round_exact {m n : Nat} {e : Int} (hpos : 0 < n) (hn : n ≤ 2 ^ 53)
    (hvalue : (n : ℚ) / 2 ≤ m * 2 ^ e) :
    Reaches (n / 2) (.ofModel (.pack (UnpackedFloat.round Format.binary64 .positive m e))) := by
  have hhalf : (2 : ℚ) ^ (-1 : Int) ≤ m * 2 ^ e := by
    have hone : (1 : ℚ) ≤ n := by exact_mod_cast hpos
    rw [zpow_neg_one]
    linarith
  have hleast := log2_of_half_le hhalf
  have hm : 0 < m := by
    refine Nat.pos_of_ne_zero fun h => ?_
    rw [h, Nat.cast_zero, zero_mul] at hhalf
    exact absurd hhalf (not_le.2 (by positivity))
  have htarget : Format.binary64.targetExponent (totalExponent m e) = m.log2 + e - 52 := by
    simp only [Format.targetExponent, totalExponent, Format.mantissaBits, Format.minExponent]
    omega
  simp only [UnpackedFloat.round, htarget, decreaseExponent]
  -- zeros are appended until the exponent is small enough
  obtain ⟨s, hs⟩ : ∃ s : Nat, (e - (m.log2 + e - 52 : Int)).toNat = s := ⟨_, rfl⟩
  obtain ⟨k, hk⟩ : ∃ k : Nat, m.log2 + s = 52 + k := ⟨m.log2 + s - 52, by omega⟩
  rw [hs]
  refine reaches_round (k := k) ?_ (by omega) hn ?_ .exact
  · rw [log2_shiftLeft hm, hk]
  · refine hvalue.trans_eq ?_
    rw [Nat.shiftLeft_eq, zpow_sub₀ (by norm_num), zpow_natCast]
    push_cast
    field_simp

section
variable {m m' : Nat} {e e' : Int} (h : Normal m e) (h' : Normal m' e')
  (hle : (m' : ℚ) * 2 ^ e' ≤ 2 * (m * 2 ^ e))
include h h' hle

theorem Normal.le_exponent : -1 ≤ e - e' ∧ (m' : ℚ) ≤ m * 2 ^ (e - e' + 1) := by
  have hscaled : (m' : ℚ) ≤ m * 2 ^ (e - e' + 1) := by
    rw [zpow_add_one₀ (by norm_num), zpow_sub₀ (by norm_num), ← mul_div_right_comm, mul_div_assoc',
      le_div_iff₀ (by positivity)]
    linarith
  refine ⟨?_, hscaled⟩
  by_contra hless
  have hpow : (2 : ℚ) ^ (e - e' + 1) ≤ 2 ^ (-1 : Int) :=
    zpow_le_zpow_right₀ (by norm_num) (by omega)
  have hleast : (2 : ℚ) ^ 52 ≤ m' := by exact_mod_cast h'.bounds.1
  have hmost : (m : ℚ) < 2 ^ 53 := by exact_mod_cast h.bounds.2
  have hcut : (m : ℚ) * 2 ^ (e - e' + 1) ≤ m * 2 ^ (-1 : Int) :=
    mul_le_mul_of_nonneg_left hpow (Nat.cast_nonneg m)
  rw [zpow_neg_one] at hcut
  linarith

/-- Quotients that are a half at least are so after the cut, too. -/
theorem Normal.half_le_quotient :
    (1 / 2 : ℚ) ≤ ((m <<< 53) / m' : Nat) * 2 ^ (e - e' - 53) := by
  obtain ⟨-, hscaled⟩ := h.le_exponent h' hle
  obtain ⟨hlow, -⟩ := h.bounds
  obtain ⟨-, hhigh'⟩ := h'.bounds
  rcases le_or_gt (e - e') 52 with hsmall | hlarge
  · obtain ⟨t, ht⟩ : ∃ t : Nat, e - e' = 52 - t := ⟨(52 - (e - e')).toNat, by omega⟩
    have hplace : e - e' - 53 = -(t + 1 : Nat) := by omega
    rw [← Nat.cast_one, hplace, half_le_places_iff, one_mul, Nat.le_div_iff_mul_le h'.pos,
      Nat.shiftLeft_eq]
    have hpow : (m : ℚ) * 2 ^ (e - e' + 1) * 2 ^ t = m * 2 ^ 53 := by
      rw [ht, mul_assoc, ← zpow_natCast, ← zpow_add₀ (by norm_num),
        show (52 - t + 1 + t : Int) = 53 by omega]
      rfl
    have hcast : (2 : ℚ) ^ t * m' ≤ m * 2 ^ 53 := by
      rw [← hpow, mul_comm]
      exact mul_le_mul_of_nonneg_right hscaled (by positivity)
    exact_mod_cast hcast
  · have hcut : 1 ≤ (m <<< 53) / m' := by
      rw [Nat.le_div_iff_mul_le h'.pos, Nat.shiftLeft_eq]
      omega
    have hcast : (1 : ℚ) ≤ ((m <<< 53) / m' : Nat) := by exact_mod_cast hcut
    have hpow : (1 : ℚ) ≤ 2 ^ (e - e' - 53) := one_le_zpow₀ (by norm_num) (by omega)
    have hproduct := mul_le_mul hcast hpow zero_le_one (zero_le_one.trans hcast)
    linarith

end

/-! ## Sums and averages -/

section
variable {x y : Float} {n : Nat}

/-- What reaches a half is infinite, or has all bits. -/
theorem Reaches.stored (h : Reaches (n / 2) x) (hpos : 0 < n) :
    x.toModel.unpack = .infinity .positive ∨ ∃ (m : Nat) (e : Int) (hstored : Stored m e),
      x.toModel.unpack = .finite .positive m e hstored.pos ∧ (n : ℚ) / 2 ≤ m * 2 ^ e := by
  refine h.imp_right ?_
  rintro ⟨r, hr, hle⟩
  have hhalf : (1 / 2 : ℚ) ≤ n / 2 := by
    have hone : (1 : ℚ) ≤ n := by exact_mod_cast hpos
    linarith
  obtain ⟨_, -, rfl⟩ | ⟨m, e, hm, hx, rfl, -⟩ | ⟨_, _, _, -, hneg⟩ := rational?_cases hr
  · linarith
  · obtain ⟨hbits, hexponent⟩ := unpack_bounds_double hx
    have hplace := (half_le_scaled_iff hbits hexponent).1 (hhalf.trans hle)
    have hstored : Stored m e := hexponent.resolve_left (by omega)
    exact ⟨m, e, hstored, hx, hle⟩
  · linarith

theorem reaches_infinity (q : ℚ) : Reaches q (.ofModel (.pack (.infinity .positive))) := .inl rfl

/-- The first summand is added to zero. -/
theorem Reaches.zero_add (h : Reaches (n / 2) x) (hpos : 0 < n) : Reaches (n / 2) (0.0 + x) := by
  show Reaches _ (.ofModel (.pack (UnpackedFloat.add Format.binary64 (.zero .positive) _)))
  obtain hx | ⟨m, e, hstored, hx, hvalue⟩ := h.stored hpos
  · rw [hx]; exact reaches_infinity _
  · rw [hx]; exact hstored.reaches hvalue

/-- **Sums** reach the sum of the bounds. -/
theorem Reaches.add (hx : Reaches (n / 2) x) (hpos : 0 < n) (hn : n < 2 ^ 53)
    (hy : Reaches (1 / 2) y) : Reaches ((n + 1 : Nat) / 2) (x + y) := by
  show Reaches _ (.ofModel (.pack (UnpackedFloat.add Format.binary64 _ _)))
  rw [← Nat.cast_one] at hy
  obtain hx | ⟨m, e, hm, hx, hvalue⟩ := hx.stored hpos
  · obtain hy | ⟨m', e', hm', hy, -⟩ := hy.stored one_pos <;> rw [hx, hy] <;> exact reaches_infinity _
  obtain hy | ⟨m', e', hm', hy, hvalue'⟩ := hy.stored one_pos
  · rw [hx, hy]; exact reaches_infinity _
  · rw [hx, hy]
    have hsum : ((n + 1 : Nat) : ℚ) / 2 ≤
        (m <<< (e - min e e').toNat + m' <<< (e' - min e e').toNat : Nat) * 2 ^ min e e' := by
      rw [Nat.cast_add (m <<< _), add_mul, shiftLeft_mul m (min_le_left e e'),
        shiftLeft_mul m' (min_le_right e e')]
      push_cast at hvalue' ⊢
      linarith
    have hround := reaches_round_exact (Nat.succ_pos n) hn hsum
    have hpositive : 0 < m <<< (e - min e e').toNat + m' <<< (e' - min e e').toNat :=
      Nat.add_pos_left (Nat.shiftLeft_pos_iff.2 hm.pos) _
    simp only [UnpackedFloat.add, decreaseExponent, Sign.apply]
    rw [← Nat.cast_add, UnpackedFloat.normalize, Int.compare_eq_gt.2 (Int.natCast_pos.2 hpositive)]
    exact hround

/-- **Averages** reach a half if the sum reaches half of the number. -/
theorem Reaches.div_whole (hx : Reaches (n / 2) x) (hpos : 0 < n) (hn : n < 2 ^ 53) :
    Reaches (1 / 2) (x / whole n) := by
  have hwhole := (whole_unpack hn).trans (unpacked_ofNat hpos hn)
  have hdigits := stored_digits hpos hn
  show Reaches _ (.ofModel (.pack (UnpackedFloat.div Format.binary64 _ _)))
  rw [hwhole]
  obtain hx | ⟨m, e, hm, hx, hvalue⟩ := hx.stored hpos
  · rw [hx]; exact reaches_infinity _
  · rw [hx]
    have hdivisor : (digits n : ℚ) * 2 ^ (n.log2 - 52 : Int) ≤ 2 * (m * 2 ^ e) := by
      have hlog := log2_le hpos hn
      have hexact := shiftLeft_mul n (show (n.log2 - 52 : Int) ≤ 0 by omega)
      rw [show (0 - (n.log2 - 52 : Int)).toNat = 52 - n.log2 by omega, zpow_zero, mul_one] at hexact
      rw [digits, hexact]
      linarith
    obtain ⟨hexponent, -⟩ := hm.le_exponent hdigits.toNormal hdivisor
    have hhalf := hm.half_le_quotient hdigits.toNormal hdivisor
    obtain ⟨k, -, hlog⟩ := hm.quotient_log2 hdigits.toNormal
    rw [UnpackedFloat.div, hm.divCore_eq hdigits.toNormal (by omega), ← Nat.cast_one]
    exact reaches_round hlog (by omega) (by norm_num) (by rwa [Nat.cast_one]) _

end

end SidPlayback.Decimal
