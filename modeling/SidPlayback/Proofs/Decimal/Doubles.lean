/-
  Doubles as ranks, and what is computed with them.

  * `Decimal.toNat_toBits`: the bits of a double are its sign and its rank;
  * `Decimal.Stands` relates a positive double to its number;
  * `Decimal.Computes` says that a double is the nearest one to a number, and
    `Decimal.Computes.stands` how far its own number may be off;
  * `Decimal.computes_ofNat`, `Decimal.Stands.mul` and `Decimal.Stands.div`: what operations
    compute.
-/
import SidPlayback.Proofs.Decimal.Reading
import SidPlayback.Proofs.Decimal.Recall

namespace SidPlayback.Decimal

open Float.Model Float.Model.UnpackedFloat

/-! ## Bits -/

theorem lastRank_double : lastRank Format.binary64 = 2047 * 2 ^ 52 := rfl

theorem rank_double (e : ℤ) (m : ℕ) : rank Format.binary64 e m = (e + 1074).toNat * 2 ^ 52 + m := by
  show (e - -1074).toNat * 2 ^ 52 + m = _
  rw [sub_neg_eq_add]

/-- The sign as a bit. -/
def signBit : Sign → ℕ
  | .positive => 0
  | .negative => 2 ^ 63

theorem toNat_split (b : BitVec 64) : b.toNat =
    signBit (Sign.ofBitVec (@unpackSign Format.binary64 b)) + b.toNat / 2 ^ 52 % 2 ^ 11 * 2 ^ 52 +
      b.toNat % 2 ^ 52 := by
  have hless : b.toNat < 2 ^ 64 := b.isLt
  have hbit : b.toNat / 2 ^ 63 = if b.toNat.testBit 63 then 1 else 0 := by
    have hlast : b.toNat / 2 ^ 63 < 2 := by omega
    rw [Nat.testBit_eq_decide_div_mod_eq, Nat.mod_eq_of_lt hlast]
    split
    case isTrue h => simpa using h
    case isFalse h =>
      simp only [decide_eq_true_eq] at h
      omega
  rw [testBit_sign] at hbit
  have hsign : signBit (Sign.ofBitVec (@unpackSign Format.binary64 b)) = b.toNat / 2 ^ 63 * 2 ^ 63 := by
    rw [hbit]
    cases Sign.ofBitVec (@unpackSign Format.binary64 b) <;> rfl
  rw [hsign]
  omega

/-- **The bits of a finite double** are its sign and its rank. -/
theorem toNat_toBits {x : Float} {s : Sign} {n : ℕ} (h : Ranked Format.binary64 s n x.toModel.unpack) :
    x.toBits.toNat = signBit s + n := by
  have hsplit : x.toBits.toNat = _ := toNat_split x.toModel.toBits.toBitVec
  have hkind := decoded_unpack x.toModel.toBits.toBitVec
  rw [hsplit, Nat.add_assoc]
  change Ranked Format.binary64 s n (UnpackedFloat.unpack Format.binary64 x.toModel.toBits.toBitVec) at h
  generalize UnpackedFloat.unpack Format.binary64 x.toModel.toBits.toBitVec = value at h hkind
  generalize x.toModel.toBits.toBitVec.toNat % 2 ^ 52 = fraction at hkind ⊢
  generalize x.toModel.toBits.toBitVec.toNat / 2 ^ 52 % 2 ^ 11 = field at hkind ⊢
  generalize Sign.ofBitVec (@unpackSign Format.binary64 x.toModel.toBits.toBitVec) = sign at hkind ⊢
  cases h with
  | zero =>
    cases hkind
    rfl
  | finite hcanonical =>
    rw [rank_double]
    cases hkind with
    | subnormal => rfl
    | normal _ _ hpos =>
      have hfield : (field - 1075 + 1074 : ℤ).toNat = field - 1 := by omega
      rw [hfield]
      omega

theorem eq_of_toBits {x y : Float} (h : x.toBits.toNat = y.toBits.toNat) : x = y := by
  obtain ⟨⟨bits, _⟩⟩ := x
  obtain ⟨⟨bits', _⟩⟩ := y
  obtain rfl : bits = bits' := UInt64.toNat_inj.1 h
  rfl

/-- **Every finite double** has a sign and a rank. -/
theorem exists_ranked {x : Float} (h : x.isFinite = true) :
    ∃ s n, n < lastRank Format.binary64 ∧ Ranked Format.binary64 s n x.toModel.unpack := by
  obtain ⟨fraction, field, s, hkind⟩ := decoded_float x
  change x.toModel.unpack.isFinite = true at h
  generalize x.toModel.unpack = value at h hkind
  rw [lastRank_double]
  cases hkind with
  | infinite | nan => cases h
  | zero => exact ⟨s, 0, by decide, .zero⟩
  | subnormal _ hpos hless =>
    have hcanonical : Canonical Format.binary64 fraction (-1074) :=
      ⟨hpos, hless.trans (by decide), le_rfl, .inl rfl⟩
    refine ⟨s, _, ?_, .finite hcanonical⟩
    rw [rank_double]
    omega
  | normal _ hstored _ =>
    exact ⟨s, _, hstored.rank_lt_iff.2 hstored.last, .finite hstored.canonical⟩

/-- Two doubles with the same sign and rank are the same. -/
theorem Ranked.float_eq {x y : Float} {s : Sign} {n : ℕ} (hx : Ranked Format.binary64 s n x.toModel.unpack)
    (hy : Ranked Format.binary64 s n y.toModel.unpack) : x = y :=
  eq_of_toBits ((toNat_toBits hx).trans (toNat_toBits hy).symm)

theorem Ranked.neg {y : Float} {n : ℕ} (h : Ranked Format.binary64 .positive n y.toModel.unpack)
    (hn : n < lastRank Format.binary64) : Ranked Format.binary64 .negative n (-y).toModel.unpack := by
  have hunpack : (-y).toModel.unpack = (Float.Model.pack y.toModel.unpack.neg).unpack := rfl
  have hneg : Ranked Format.binary64 .negative n y.toModel.unpack.neg := by
    generalize y.toModel.unpack = value at h
    cases h with
    | zero => exact .zero
    | finite hcanonical => exact .finite hcanonical
  have hkept : (Float.Model.pack y.toModel.unpack.neg).unpack = y.toModel.unpack.neg :=
    hneg.unpack_pack (by decide) hn
  rw [hunpack, hkept]
  exact hneg

/-- What is read of a double is a magnitude of the format, unless it is zero. -/
theorem magnitude_of {x : Float} {negative : Bool} {m : Magnitude} (h : ofFloat x = .finite negative m)
    (hpos : 0 < m.coefficient) : m.Of Format.binary64 := by
  have hread : ofFloat x = Format.double.read x.toBits.toNat := rfl
  rw [hread, read_double] at h
  generalize x.toBits.toNat = bits at h
  have hfraction : bits % 2 ^ 52 < 2 ^ 52 := Nat.mod_lt _ (by decide)
  split at h
  case isTrue => split at h <;> cases h
  case isFalse =>
    split at h
    case isTrue =>
      cases h
      exact ⟨⟨hpos, hfraction.trans (by decide), le_rfl, .inl rfl⟩,
        iff_of_false Bool.false_ne_true fun hnarrow => hnarrow.2 rfl⟩
    case isFalse hfield =>
      cases h
      refine ⟨⟨hpos, ?_, ?_, .inr (Nat.le_add_right _ _)⟩, ?_⟩
      · show 2 ^ 52 + bits % 2 ^ 52 < 2 ^ 53
        omega
      · show (-1074 : ℤ) ≤ -1074 + (bits / 2 ^ 52 % 2 ^ 11 - 1 : ℕ)
        omega
      · show (bits % 2 ^ 52 == 0 && 1 < bits / 2 ^ 52 % 2 ^ 11) = true ↔
          2 ^ 52 + bits % 2 ^ 52 = 2 ^ 52 ∧ (-1074 + (bits / 2 ^ 52 % 2 ^ 11 - 1 : ℕ) : ℤ) ≠ -1074
        simp only [Bool.and_eq_true, beq_iff_eq, decide_eq_true_eq]
        omega

/-! ## Numbers -/

/-- A positive double and its number. -/
def Stands (y : Float) (v : ℚ) : Prop :=
  ∃ (m : ℕ) (e : ℤ) (h : Canonical Format.binary64 m e),
    y.toModel.unpack = .finite .positive m e h.pos ∧ v = m * 2 ^ e

/-- The double nearest to a positive number. -/
def Computes (y : Float) (q : ℚ) : Prop :=
  ∃ u, Rounded Format.binary64 .positive q u ∧ y = .ofModel (.pack u)

theorem Stands.pos {y : Float} {v : ℚ} (h : Stands y v) : 0 < v := by
  obtain ⟨m, e, hcanonical, -, rfl⟩ := h
  have := hcanonical.pos
  positivity

theorem Stands.unique {y : Float} {v v' : ℚ} (h : Stands y v) (h' : Stands y v') : v = v' := by
  obtain ⟨m, e, hm, hy, rfl⟩ := h
  obtain ⟨m', e', hm', hy', rfl⟩ := h'
  rw [hy] at hy'
  cases hy'
  rfl

theorem Stands.ne_zero {y : Float} {v : ℚ} (h : Stands y v) : (y == 0.0) = false := by
  obtain ⟨m, e, hm, hy, -⟩ := h
  have hzero : (0.0 : Float).toModel.unpack = .zero .positive := rfl
  show y.toModel.unpack.beq (0.0 : Float).toModel.unpack = false
  rw [hy, hzero]
  rfl

/-- Numbers that are not too small use all bits. -/
theorem Canonical.bits_of_le {m : ℕ} {e : ℤ} (h : Canonical Format.binary64 m e)
    (hv : 2 ^ (-1022 : ℤ) ≤ (m : ℚ) * 2 ^ e) : 2 ^ 52 ≤ m := by
  rcases h.full with hleast | hfull
  · have hpow : (2 : ℚ) ^ (-1022 : ℤ) = 2 ^ 52 * 2 ^ (-1074 : ℤ) := by
      rw [← zpow_natCast, ← zpow_add₀ (by norm_num)]
      norm_num
    have he : e = -1074 := hleast
    rw [he, hpow, mul_le_mul_iff_left₀ (by positivity)] at hv
    exact_mod_cast hv
  · exact hfull

/-- Of a number that is not too small, a unit of the last place is a small part. -/
theorem Cut.unit_le {q : ℚ} {E : ℤ} (h : Cut Format.binary64 q E) (hq : 2 ^ (-1022 : ℤ) ≤ q) :
    2 ^ E ≤ q / 2 ^ 52 := by
  rw [le_div_iff₀ (by positivity)]
  rcases h.above with hleast | hfull
  · have he : E = -1074 := hleast
    refine le_of_eq_of_le ?_ hq
    rw [he, ← zpow_natCast, ← zpow_add₀ (by norm_num)]
    norm_num
  · have hbits : (2 : ℚ) ^ 52 ≤ q / 2 ^ E := hfull
    rwa [le_div_iff₀ (by positivity), mul_comm] at hbits

section
variable {y z : Float} {v v' : ℚ}

theorem Stands.mul (hy : Stands y v) (hz : Stands z v') (hv : 2 ^ (-1022 : ℤ) ≤ v) :
    Computes (y * z) (v * v') := by
  obtain ⟨m, e, h, hy, rfl⟩ := hy
  obtain ⟨m', e', h', hz, rfl⟩ := hz
  refine ⟨UnpackedFloat.mul Format.binary64 y.toModel.unpack z.toModel.unpack, ?_, rfl⟩
  rw [hy, hz]
  exact @rounded_mul _ .positive .positive m m' e e' h.pos h'.pos
    (Nat.le_trans (h.bits_of_le hv) (Nat.le_mul_of_pos_right m h'.pos))

theorem Stands.div (hy : Stands y v) (hz : Stands z v') : Computes (y / z) (v / v') := by
  obtain ⟨m, e, h, hy, rfl⟩ := hy
  obtain ⟨m', e', h', hz, rfl⟩ := hz
  refine ⟨UnpackedFloat.div Format.binary64 y.toModel.unpack z.toModel.unpack, ?_, rfl⟩
  rw [hy, hz]
  exact @rounded_div _ .positive .positive m m' e e' h.pos h'.pos

theorem computes_ofNat {n : ℕ} (hpos : 0 < n) (hsize : n < 2 ^ 64) :
    Computes (UInt64.ofNat n).toFloat n := by
  refine ⟨UnpackedFloat.ofNat Format.binary64 n, rounded_ofNat hpos, ?_⟩
  have hword : (UInt64.ofNat n).toNat = n := UInt64.toNat_ofNat_of_lt' hsize
  show Float.ofModel (.pack (UnpackedFloat.ofNat Format.binary64 (UInt64.ofNat n).toNat)) = _
  rw [hword]

end

namespace Computes
variable {y : Float} {q : ℚ}

/-- A computed double has the rank nearest to the number, or is infinite. -/
theorem ranked (h : Computes y q) : ∃ E n, Cut Format.binary64 q E ∧
    Nearest (level Format.binary64 E q) n ∧
    (n < lastRank Format.binary64 → Ranked Format.binary64 .positive n y.toModel.unpack) ∧
    (lastRank Format.binary64 ≤ n → y.toModel.unpack = .infinity .positive) := by
  obtain ⟨u, hrounded, rfl⟩ := h
  obtain ⟨E, n, hcut, hn, hu⟩ := hrounded.ranked
  refine ⟨E, n, hcut, hn, fun hless => ?_, fun hmore => ?_⟩
  · have hunpack : (Float.Model.pack u).unpack = u := hu.unpack_pack (by decide) hless
    exact hunpack.symm ▸ hu
  · exact hu.unpack_pack_infinity (by decide) hmore

/-- Up to the largest double there is room. -/
theorem lt_lastRank {E : ℤ} {n : ℕ} (hcut : Cut Format.binary64 q E)
    (hn : Nearest (level Format.binary64 E q) n) (hq : 0 ≤ q) (hroom : q ≤ (2 ^ 53 - 1) * 2 ^ 971) :
    n < lastRank Format.binary64 := by
  have hlevel := level_le (e := 971) hcut hq (by decide)
  have hunits : q / 2 ^ (971 : ℤ) ≤ 2 ^ 53 - 1 := by
    rw [div_le_iff₀ (by positivity), show (971 : ℤ) = (971 : ℕ) from rfl, zpow_natCast]
    exact hroom
  have hplace : level Format.binary64 971 q = 2045 * 2 ^ 52 + q / 2 ^ (971 : ℤ) := rfl
  have hle : n ≤ 2047 * 2 ^ 52 - 1 := by
    refine hn.le_of_lt ?_
    norm_num
    linarith
  rw [lastRank_double]
  omega

/-- **A computed double** has the nearest number of units. -/
theorem stands (h : Computes y q) (hlow : 2 ^ (-1074 : ℤ) ≤ q) (hroom : q ≤ (2 ^ 53 - 1) * 2 ^ 971) :
    ∃ (E : ℤ) (r : ℕ), Stands y (r * 2 ^ E) ∧ Cut Format.binary64 q E ∧ Nearest (q / 2 ^ E) r := by
  have hq : 0 ≤ q := le_trans (by positivity) hlow
  obtain ⟨u, hrounded, rfl⟩ := h
  obtain ⟨E, n, hcut, hn, hu⟩ := hrounded.ranked
  obtain ⟨E', r, hcut', hr, hv⟩ := hrounded.number
  have hunpack : (Float.Model.pack u).unpack = u :=
    hu.unpack_pack (by decide) (lt_lastRank hcut hn hq hroom)
  have hpos : 0 < n := by
    have hunits : 1 ≤ q / 2 ^ Format.binary64.minExponent := (one_le_div (by positivity)).2 hlow
    have hplace := le_level (e := Format.binary64.minExponent) hcut le_rfl (.inl rfl)
    have hone : (1 : ℚ) ≤ min (q / 2 ^ Format.binary64.minExponent) (2 ^ Format.binary64.mantissaBits) :=
      le_min hunits (one_le_pow₀ (by norm_num))
    refine hn.ge_of_gt ?_
    rw [sub_self, Int.toNat_zero, Nat.cast_zero, zero_mul, zero_add] at hplace
    push_cast
    linarith
  cases hu with
  | zero => cases hpos
  | @finite m e hcanonical =>
    exact ⟨E', r, ⟨m, e, hcanonical, hunpack, (Option.some.inj hv).symm⟩, hcut', hr⟩

/-- Numbers with few enough bits are computed exactly. -/
theorem stands_exact (h : Computes y q) {m : ℕ} {e : ℤ} (hm : Canonical Format.binary64 m e)
    (hq : q = m * 2 ^ e) (hroom : q ≤ (2 ^ 53 - 1) * 2 ^ 971) : Stands y q := by
  have hlow : 2 ^ (-1074 : ℤ) ≤ q := by
    have hone : (1 : ℚ) ≤ m := by exact_mod_cast hm.pos
    have hunit : (2 : ℚ) ^ (-1074 : ℤ) ≤ 2 ^ e := zpow_le_zpow_right₀ one_le_two hm.least
    rw [hq]
    calc (2 : ℚ) ^ (-1074 : ℤ) ≤ 2 ^ e := hunit
      _ ≤ m * 2 ^ e := le_mul_of_one_le_left (by positivity) hone
  obtain ⟨E, r, hy, hcut, hr⟩ := h.stands hlow hroom
  obtain rfl := hcut.unique (hq ▸ hm.cut)
  rw [hq, mul_div_cancel_right₀ _ (by positivity)] at hr
  obtain rfl := hr.unique (Nearest.natCast m)
  exact hq ▸ hy

/-- Natural numbers are computed exactly if they have few enough bits in front of zeros. -/
theorem stands_scaled {c k : ℕ} (h : Computes y (c * 2 ^ k)) (hpos : 0 < c) (hbits : c < 2 ^ 53)
    (hroom : (c * 2 ^ k : ℚ) ≤ (2 ^ 53 - 1) * 2 ^ 971) : Stands y (c * 2 ^ k) := by
  have hlog : c.log2 < 53 := (Nat.log2_lt hpos.ne').2 hbits
  have hcanonical : Canonical Format.binary64 (c <<< (52 - c.log2)) (c.log2 - 52 + k) :=
    canonical_natCast (f := Format.binary64) hpos hbits (show (-1074 : ℤ) ≤ c.log2 - 52 + k by omega)
  have hscaled : (c : ℚ) = (c <<< (52 - c.log2) : ℕ) * 2 ^ (c.log2 - 52 : ℤ) :=
    natCast_eq_scaled (f := Format.binary64) hpos hbits
  refine h.stands_exact hcanonical ?_ hroom
  rw [zpow_add₀ (by norm_num), zpow_natCast, ← mul_assoc, ← hscaled]

end Computes

/-! ## Large natural numbers -/

theorem natCast_room {n : ℕ} (h : n ≤ (2 ^ 53 - 1) * 2 ^ 971) : (n : ℚ) ≤ (2 ^ 53 - 1) * 2 ^ 971 := by
  have hcast : (n : ℚ) ≤ ((2 ^ 53 - 1) * 2 ^ 971 : ℕ) := Nat.cast_le.2 h
  rwa [Nat.cast_mul, Nat.cast_sub Nat.one_le_two_pow, Nat.cast_pow, Nat.cast_pow, Nat.cast_one,
    Nat.cast_ofNat] at hcast

/-- Cutting off bits as the formats do is rounding to nearest. -/
theorem nearest_shiftNearest (a s : ℕ) : Nearest (a / 2 ^ s) (shiftNearest a s) := by
  have hless := Nat.mod_lt a (Nat.two_pow_pos s)
  have hsplit : (a : ℚ) / 2 ^ s = (a / 2 ^ s : ℕ) + (a % 2 ^ s : ℕ) / (2 ^ s : ℕ) := by
    have hcast : ((2 ^ s : ℕ) : ℚ) * (a / 2 ^ s : ℕ) + (a % 2 ^ s : ℕ) = a := by
      exact_mod_cast Nat.div_add_mod a (2 ^ s)
    rw [← hcast]
    push_cast
    field_simp
  have hround : shiftNearest a s =
      (accuracyOfFraction (a % 2 ^ s) (2 ^ s)).roundToNearestEven (a / 2 ^ s) := by
    show (if 2 * (a % 2 ^ s) < 2 ^ s then a / 2 ^ s
      else if 2 ^ s < 2 * (a % 2 ^ s) then a / 2 ^ s + 1
      else a / 2 ^ s + a / 2 ^ s % 2) = _
    unfold accuracyOfFraction
    split
    case isTrue hlt =>
      split
      case isTrue => rfl
      case isFalse => rw [Nat.compare_eq_lt.2 hlt]; rfl
    case isFalse hge =>
      have hsome : a % 2 ^ s ≠ 0 := by
        intro hzero
        rw [hzero] at hge
        exact hge (Nat.two_pow_pos s)
      rw [if_neg hsome]
      split
      case isTrue hgt => rw [Nat.compare_eq_gt.2 hgt]; rfl
      case isFalse hle => rw [Nat.compare_eq_eq.2 (by omega)]; rfl
  rw [hround, hsplit]
  exact (Lies.fraction _ hless).nearest

/-- A natural number with bits enough is cut off where its bits end. -/
theorem cut_natCast {n : ℕ} (hbits : 52 ≤ n.log2) : Cut Format.binary64 n (n.log2 - 52 : ℕ) := by
  have hpos : n ≠ 0 := by
    rintro rfl
    rw [Nat.log2_zero] at hbits
    omega
  have hsplit : n.log2 = 52 + (n.log2 - 52) := by omega
  have hlow := Nat.log2_self_le hpos
  have hhigh := lt_two_pow_log2 n
  rw [hsplit, Nat.pow_add] at hlow
  rw [hsplit, Nat.add_right_comm, Nat.pow_add] at hhigh
  have hleast : Format.binary64.minExponent ≤ (n.log2 - 52 : ℕ) :=
    le_trans (show Format.binary64.minExponent ≤ 0 by decide) (Int.natCast_nonneg _)
  refine ⟨hleast, ?_, .inr ?_⟩ <;> rw [zpow_natCast]
  · rw [div_lt_iff₀ (by positivity)]
    exact_mod_cast hhigh
  · rw [le_div_iff₀ (by positivity)]
    exact_mod_cast hlow

/-- The number of a double that is computed for a large natural number. -/
theorem Computes.stands_natCast {y : Float} {n : ℕ} (h : Computes y n) (hbits : 52 ≤ n.log2)
    (hroom : n ≤ (2 ^ 53 - 1) * 2 ^ 971) :
    Stands y ((shiftNearest n (n.log2 - 52) * 2 ^ (n.log2 - 52) : ℕ)) := by
  have hone : 1 ≤ n := by
    refine Nat.one_le_iff_ne_zero.2 ?_
    rintro rfl
    rw [Nat.log2_zero] at hbits
    omega
  have hlow : (2 : ℚ) ^ (-1074 : ℤ) ≤ n :=
    (zpow_le_one_of_nonpos₀ one_le_two (by norm_num)).trans (by exact_mod_cast hone)
  obtain ⟨E, r, hy, hcut, hr⟩ := h.stands hlow (natCast_room hroom)
  obtain rfl := hcut.unique (cut_natCast hbits)
  rw [zpow_natCast] at hr hy
  obtain rfl := hr.unique (nearest_shiftNearest n _)
  exact_mod_cast hy

end SidPlayback.Decimal
