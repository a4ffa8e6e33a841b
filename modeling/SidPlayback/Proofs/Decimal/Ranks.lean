/-
  The values of a binary format, numbered by size.

  The pattern of a positive value, read as a natural number, is its rank among the values, so
  rounding to a value is rounding to a natural number on a scale that has a corner at each power
  of two.

  * `Decimal.level` is the place of a number on the scale, as far as one exponent goes, and
    `Decimal.Ranked` says which value has a rank;
  * `Decimal.Rounded.ranked`: rounding is to the nearest rank;
  * `Decimal.level_le` and `Decimal.le_level` compare places at different exponents;
  * `Decimal.Rounded.eq_finite`: numbers of the format stay as they are;
  * `Decimal.Ranked.unpack_pack`: values are stored as they are, and too large ones as infinite.
-/
import SidPlayback.Proofs.Decimal.Rounding

namespace SidPlayback.Decimal

open Float.Model Float.Model.UnpackedFloat

variable {f : Float.Model.Format}

/-! ## Places -/

/-- The rank of a value. -/
def rank (f : Float.Model.Format) (e : ℤ) (m : ℕ) : ℕ :=
  (e - f.minExponent).toNat * 2 ^ f.mantissaBitsWithoutImplicit + m

/-- The place of a number among the ranks, if it is cut off at the exponent `e`. -/
def level (f : Float.Model.Format) (e : ℤ) (q : ℚ) : ℚ :=
  (e - f.minExponent).toNat * 2 ^ f.mantissaBitsWithoutImplicit + q / 2 ^ e

/-- Halving `k + 1` times takes less than `k + 1` halves of the largest coefficient. -/
theorem lost_units {u w : ℚ} (k : ℕ) (hu : 0 ≤ u) (hw : u * 2 ^ (k + 1) ≤ 2 * w) :
    u * 2 ^ (k + 1) ≤ (k + 1) * w + u := by
  have hpow : 0 ≤ u * 2 ^ (k + 1) := by positivity
  cases k with
  | zero => norm_num at hw ⊢; linarith
  | succ k =>
    have hmore : 0 ≤ k * w := mul_nonneg (Nat.cast_nonneg k) (by linarith)
    push_cast at hw ⊢
    linarith

/-- Doubling `k` times adds more than `k` times the smallest coefficient. -/
theorem gained_units {u w : ℚ} (k : ℕ) (hw : 0 ≤ w) (hu : w ≤ u) : k * w + u ≤ u * 2 ^ k := by
  have hbernoulli : (k + 1 : ℚ) ≤ 2 ^ k := by exact_mod_cast Nat.lt_two_pow_self
  calc k * w + u ≤ k * u + u := by gcongr
    _ = u * (k + 1) := by ring
    _ ≤ u * 2 ^ k := mul_le_mul_of_nonneg_left hbernoulli (hw.trans hu)

/-- The scale at one exponent is a tangent of the whole scale. -/
theorem level_le {q : ℚ} {E e : ℤ} (h : Cut f q E) (hq : 0 ≤ q) (he : f.minExponent ≤ e) :
    level f E q ≤ level f e q := by
  have hleast := h.least
  unfold level
  rcases lt_trichotomy E e with hlt | rfl | hgt
  · -- Above its own exponent a number loses fewer units than there are ranks passed over.
    obtain ⟨k, hk⟩ : ∃ k : ℕ, e = E + (k + 1 : ℕ) := ⟨(e - E - 1).toNat, by omega⟩
    have hranks : (e - f.minExponent).toNat = (E - f.minExponent).toNat + (k + 1) := by omega
    have hbelow := h.below
    rw [div_zpow q E (k + 1), ← hk, two_pow_mantissaBits] at hbelow
    rw [div_zpow q E (k + 1), ← hk, hranks]
    have hless := lost_units k (show 0 ≤ q / 2 ^ e by positivity) hbelow.le
    push_cast
    linarith
  · exact le_rfl
  · obtain ⟨k, hk⟩ : ∃ k : ℕ, E = e + (k : ℕ) := ⟨(E - e).toNat, by omega⟩
    have hranks : (E - f.minExponent).toNat = (e - f.minExponent).toNat + k := by omega
    have habove := h.above.resolve_left (by omega)
    rw [div_zpow q e k, ← hk, hranks]
    have hless := gained_units k (show (0 : ℚ) ≤ 2 ^ f.mantissaBitsWithoutImplicit by positivity) habove
    push_cast
    linarith

/-- At an exponent that a number reaches, its place is found up to the next power of two. -/
theorem le_level {q : ℚ} {E e : ℤ} (h : Cut f q E) (he : f.minExponent ≤ e)
    (habove : e = f.minExponent ∨ 2 ^ f.mantissaBitsWithoutImplicit ≤ q / 2 ^ e) :
    (e - f.minExponent).toNat * 2 ^ f.mantissaBitsWithoutImplicit +
      min (q / 2 ^ e) (2 ^ f.mantissaBits) ≤ level f E q := by
  unfold level
  rcases (h.ge habove).eq_or_lt with rfl | hlt
  · linarith [min_le_left (q / 2 ^ e) (2 ^ f.mantissaBits)]
  · have hunits := h.above.resolve_left (by omega)
    have hranks : ((e - f.minExponent).toNat + 1 : ℚ) ≤ (E - f.minExponent).toNat := by
      exact_mod_cast (by omega : (e - f.minExponent).toNat + 1 ≤ (E - f.minExponent).toNat)
    have hpos : (0 : ℚ) < 2 ^ f.mantissaBitsWithoutImplicit := by positivity
    have hlast := min_le_right (q / 2 ^ e) (2 ^ f.mantissaBits)
    rw [two_pow_mantissaBits] at hlast ⊢
    nlinarith

/-! ## Ranks of values -/

/-- A coefficient and an exponent of the format, not limited in size. -/
structure Canonical (f : Float.Model.Format) (m : ℕ) (e : ℤ) : Prop where
  pos : 0 < m
  bits : m < 2 ^ f.mantissaBits
  least : f.minExponent ≤ e
  full : e = f.minExponent ∨ 2 ^ f.mantissaBitsWithoutImplicit ≤ m

/-- The value with a sign and a rank. -/
inductive Ranked (f : Float.Model.Format) (s : Sign) : ℕ → UnpackedFloat → Prop where
  | zero : Ranked f s 0 (.zero s)
  | finite {m : ℕ} {e : ℤ} (h : Canonical f m e) : Ranked f s (rank f e m) (.finite s m e h.pos)

/-- A carry out of the coefficient is a carry into the exponent. -/
theorem ranked_units (s : Sign) {e : ℤ} {r : ℕ} (hleast : f.minExponent ≤ e)
    (hfull : e = f.minExponent ∨ 2 ^ f.mantissaBitsWithoutImplicit ≤ r)
    (hr : r ≤ 2 ^ f.mantissaBits) : Ranked f s (rank f e r) (units f s e r) := by
  unfold units
  split
  case isTrue h =>
    subst h
    have he : e = f.minExponent := by
      refine hfull.resolve_right fun hbits => ?_
      exact absurd (Nat.two_pow_pos f.mantissaBitsWithoutImplicit) (by omega)
    have hrank : rank f e 0 = 0 := by simp [rank, he]
    rw [hrank]
    exact .zero
  case isFalse h =>
    split
    case isTrue hlt => exact .finite ⟨Nat.pos_of_ne_zero h, hlt, hleast, hfull⟩
    case isFalse hge =>
      have htwice := two_pow_mantissaBits (R := ℕ) f
      have hpos := Nat.two_pow_pos f.mantissaBitsWithoutImplicit
      have hrank : rank f e r = rank f (e + 1) (2 ^ f.mantissaBitsWithoutImplicit) := by
        have hnext : (e + 1 - f.minExponent).toNat = (e - f.minExponent).toNat + 1 := by omega
        have heq : r = 2 ^ f.mantissaBits := by omega
        rw [rank, rank, hnext, heq, htwice]
        ring
      rw [hrank]
      exact .finite ⟨hpos, by omega, by omega, .inr le_rfl⟩

namespace Rounded
variable {s : Sign} {q : ℚ} {y : UnpackedFloat}

/-- A rounded coefficient has as many bits as the number. -/
theorem full {e : ℤ} {r : ℕ} (hcut : Cut f q e) (hr : Nearest (q / 2 ^ e) r) :
    e = f.minExponent ∨ 2 ^ f.mantissaBitsWithoutImplicit ≤ r := by
  refine hcut.above.imp_right fun habove => hr.ge_of_gt ?_
  push_cast
  linarith

/-- **Rounding** is to the nearest rank. -/
theorem ranked (h : Rounded f s q y) :
    ∃ e n, Cut f q e ∧ Nearest (level f e q) n ∧ Ranked f s n y := by
  obtain @⟨e, r, hcut, hr⟩ := h
  refine ⟨e, rank f e r, hcut, ?_, ranked_units s hcut.least (full hcut hr) (le_of_nearest_cut hcut hr)⟩
  have heven : Even ((e - f.minExponent).toNat * 2 ^ f.mantissaBitsWithoutImplicit) :=
    (Nat.even_pow.2 ⟨even_two, f.hm.ne'⟩).mul_left _
  have hplace := hr.add heven
  push_cast at hplace
  exact hplace

end Rounded

theorem Canonical.cut {m : ℕ} {e : ℤ} (h : Canonical f m e) : Cut f (m * 2 ^ e) e := by
  refine ⟨h.least, ?_, h.full.imp_right fun hbits => ?_⟩ <;>
    rw [mul_div_cancel_right₀ _ (by positivity)]
  · exact_mod_cast h.bits
  · exact_mod_cast hbits

/-- **Numbers of the format** are not changed by rounding. -/
theorem Rounded.eq_finite {s : Sign} {m : ℕ} {e : ℤ} {y : UnpackedFloat} (h : Canonical f m e)
    (hy : Rounded f s (m * 2 ^ e) y) : y = .finite s m e h.pos := by
  obtain @⟨e', r, hcut, hr⟩ := hy
  obtain rfl := h.cut.unique hcut
  rw [mul_div_cancel_right₀ _ (by positivity)] at hr
  obtain rfl := (Nearest.natCast m).unique hr
  rw [Decimal.units, dif_neg h.pos.ne', if_pos h.bits]

/-- The number of a positive value has the nearest number of units. -/
theorem Rounded.number {q : ℚ} {y : UnpackedFloat} (h : Rounded f .positive q y) :
    ∃ e r, Cut f q e ∧ Nearest (q / 2 ^ e) r ∧ rational? y = some ((r : ℚ) * 2 ^ e) := by
  obtain @⟨e, r, hcut, hr⟩ := h
  refine ⟨e, r, hcut, hr, ?_⟩
  unfold Decimal.units
  split
  case isTrue h => rw [h, Nat.cast_zero, zero_mul]; rfl
  case isFalse h =>
    split
    case isTrue => rfl
    case isFalse hge =>
      have heq : r = 2 ^ f.mantissaBits := le_antisymm (le_of_nearest_cut hcut hr) (not_lt.1 hge)
      rw [rational?, heq, two_pow_mantissaBits, zpow_add₀ (by norm_num)]
      push_cast
      congr 1
      ring

/-! ## Exact operations -/

/-- A natural number with all bits of a coefficient. -/
theorem canonical_natCast {n : ℕ} (hpos : 0 < n) (hbits : n < 2 ^ f.mantissaBits) {e : ℤ}
    (hleast : f.minExponent ≤ n.log2 - f.mantissaBitsWithoutImplicit + e) :
    Canonical f (n <<< (f.mantissaBitsWithoutImplicit - n.log2))
      (n.log2 - f.mantissaBitsWithoutImplicit + e) := by
  have hlog := (Nat.log2_lt hpos.ne').2 hbits
  have hwidth := mantissaBits_eq f
  have hshift : 0 < n <<< (f.mantissaBitsWithoutImplicit - n.log2) := Nat.shiftLeft_pos_iff.2 hpos
  have hfull : (n <<< (f.mantissaBitsWithoutImplicit - n.log2)).log2 = f.mantissaBitsWithoutImplicit := by
    rw [log2_shiftLeft hpos]
    omega
  obtain ⟨hlow, hhigh⟩ := (Nat.log2_eq_iff hshift.ne').1 hfull
  refine ⟨hshift, ?_, hleast, .inr hlow⟩
  rw [two_pow_mantissaBits, ← Nat.pow_succ']
  exact hhigh

theorem natCast_eq_scaled {n : ℕ} (hpos : 0 < n) (hbits : n < 2 ^ f.mantissaBits) :
    (n : ℚ) = (n <<< (f.mantissaBitsWithoutImplicit - n.log2) : ℕ) *
      2 ^ (n.log2 - f.mantissaBitsWithoutImplicit : ℤ) := by
  have hlog := (Nat.log2_lt hpos.ne').2 hbits
  have hwidth := mantissaBits_eq f
  have hplace : (n.log2 - f.mantissaBitsWithoutImplicit : ℤ) =
      -(f.mantissaBitsWithoutImplicit - n.log2 : ℕ) := by omega
  rw [hplace, Nat.shiftLeft_eq, zpow_neg, zpow_natCast]
  push_cast
  rw [mul_inv_cancel_right₀ (by positivity)]

/-- **Natural numbers** with few enough bits are exact. -/
theorem ofNat_eq_finite {n : ℕ} (hpos : 0 < n) (hbits : n < 2 ^ f.mantissaBits)
    (hleast : f.minExponent ≤ n.log2 - f.mantissaBitsWithoutImplicit) :
    UnpackedFloat.ofNat f n = .finite .positive (n <<< (f.mantissaBitsWithoutImplicit - n.log2))
      (n.log2 - f.mantissaBitsWithoutImplicit) (Nat.shiftLeft_pos_iff.2 hpos) := by
  have hcanonical := canonical_natCast hpos hbits (e := 0) (by omega)
  rw [add_zero] at hcanonical
  have hrounded := rounded_ofNat (f := f) hpos
  rw [natCast_eq_scaled hpos hbits] at hrounded
  exact hrounded.eq_finite hcanonical

/-- **Dividing by a power of two** is exact, as long as no bits are lost. -/
theorem div_two_pow_eq {s : Sign} {m : ℕ} {e k : ℤ} (h : Canonical f m e)
    (hdivided : Canonical f m (e - k)) :
    UnpackedFloat.div f (.finite s m e h.pos)
        (.finite .positive (2 ^ f.mantissaBitsWithoutImplicit) (k - f.mantissaBitsWithoutImplicit)
          (Nat.two_pow_pos _)) = .finite (s / .positive) m (e - k) h.pos := by
  have hrounded := @rounded_div f s .positive m (2 ^ f.mantissaBitsWithoutImplicit) e
    (k - f.mantissaBitsWithoutImplicit) h.pos (Nat.two_pow_pos _)
  have hdivisor : ((2 ^ f.mantissaBitsWithoutImplicit : ℕ) : ℚ) *
      2 ^ (k - f.mantissaBitsWithoutImplicit) = 2 ^ k := by
    rw [zpow_sub₀ (by norm_num), zpow_natCast]
    push_cast
    field_simp
  rw [hdivisor, mul_div_assoc, ← zpow_sub₀ (by norm_num)] at hrounded
  exact hrounded.eq_finite hdivided

/-! ## Storing -/

section
variable {s : Sign}

theorem minExponent_eq (f : Float.Model.Format) :
    f.minExponent + f.exponentBias + f.mantissaBitsWithoutImplicit = 1 := by
  have hbias : ((f.exponentBias : ℕ) : ℤ) = 2 ^ (f.exponentBits - 1) - 1 := by
    rw [Float.Model.Format.exponentBias]
    push_cast [Nat.one_le_two_pow]
    rfl
  have hwidth := mantissaBits_eq f
  rw [Float.Model.Format.minExponent]
  omega

/-- The rank of infinity. -/
def lastRank (f : Float.Model.Format) : ℕ :=
  (2 ^ f.exponentBits - 1) * 2 ^ f.mantissaBitsWithoutImplicit

theorem Canonical.rank_lt_iff (hexponents : 1 < f.exponentBits) {m : ℕ} {e : ℤ} (h : Canonical f m e) :
    rank f e m < lastRank f ↔ (e - f.minExponent).toNat + 2 < 2 ^ f.exponentBits := by
  have hleast := h.least
  have hbits := h.bits
  have hfour : 2 ^ 2 ≤ 2 ^ f.exponentBits := Nat.pow_le_pow_right (by decide) hexponents
  obtain ⟨last, hlast⟩ : ∃ last, 2 ^ f.exponentBits = last + 2 :=
    ⟨_, (Nat.sub_add_cancel (Nat.le_trans (by decide) hfour)).symm⟩
  have hranks : lastRank f = last * 2 ^ f.mantissaBitsWithoutImplicit + 2 ^ f.mantissaBitsWithoutImplicit := by
    rw [lastRank, hlast, Nat.add_sub_assoc (by decide), Nat.succ_mul]
  rw [two_pow_mantissaBits] at hbits
  rw [hranks, rank, hlast]
  constructor
  · intro hlt
    by_contra hge
    have hmore : last * 2 ^ f.mantissaBitsWithoutImplicit ≤
        (e - f.minExponent).toNat * 2 ^ f.mantissaBitsWithoutImplicit := Nat.mul_le_mul_right _ (by omega)
    have hfull := h.full.resolve_left (by omega)
    omega
  · intro hlt
    have hless : ((e - f.minExponent).toNat + 1) * 2 ^ f.mantissaBitsWithoutImplicit ≤
        last * 2 ^ f.mantissaBitsWithoutImplicit := Nat.mul_le_mul_right _ (by omega)
    rw [Nat.succ_mul] at hless
    omega

/-- The exponent is stored from one on, and zero stands for numbers with fewer bits. -/
theorem Canonical.pack_eq {m : ℕ} {e : ℤ} (h : Canonical f m e) :
    UnpackedFloat.pack f (.finite s m e h.pos) =
      if 2 ^ f.exponentBits ≤ (e - f.minExponent).toNat + 2 then packedInfinity f s
      else if 2 ^ f.mantissaBitsWithoutImplicit ≤ m then
        packComponents f s (BitVec.ofNat _ ((e - f.minExponent).toNat + 1)) (BitVec.ofNat _ m)
      else packComponents f s 0#_ (BitVec.ofNat _ m) := by
  have hleast := h.least
  have hmin := minExponent_eq f
  have hbiased : (e + f.exponentBias + f.mantissaBitsWithoutImplicit).toNat =
      (e - f.minExponent).toNat + 1 := by omega
  have hfull : m.log2 + 1 = f.mantissaBits ↔ 2 ^ f.mantissaBitsWithoutImplicit ≤ m := by
    have hlog : m.log2 < f.mantissaBits := (Nat.log2_lt h.pos.ne').2 h.bits
    have hwidth : f.mantissaBits = f.mantissaBitsWithoutImplicit + 1 := Nat.add_comm ..
    rw [← Nat.le_log2 h.pos.ne']
    omega
  simp only [UnpackedFloat.pack, hbiased, hfull]

theorem unpack_packComponents (s : Sign) (exponent : BitVec f.exponentBits)
    (fraction : BitVec f.mantissaBitsWithoutImplicit) :
    UnpackedFloat.unpack f (packComponents f s exponent fraction) =
      if exponent = -1#_ then if fraction = 0#_ then .infinity s else .notANumber
      else if exponent = 0#_ then
        if h : fraction = 0#_ then .zero s
        else .finite s fraction.toNat
          (exponent.toNat - (f.exponentBias + f.mantissaBitsWithoutImplicit) + 1)
          (Nat.pos_of_ne_zero fun hzero => h (BitVec.eq_of_toNat_eq hzero))
      else .finite s (1#1 ++ fraction).toNat
        (exponent.toNat - (f.exponentBias + f.mantissaBitsWithoutImplicit))
        (toNat_implicit fraction ▸ Nat.add_pos_left (Nat.two_pow_pos _) _) := by
  simp only [UnpackedFloat.unpack, unpackMantissa_packComponents, unpackExponent_packComponents,
    unpackSign_packComponents, Sign.ofBitVec_toBitVec]

theorem ne_minusOne {n : ℕ} (exponent : BitVec n) (h : exponent.toNat + 1 < 2 ^ n) : exponent ≠ -1#n := by
  rintro rfl
  rw [BitVec.neg_one_eq_allOnes, BitVec.toNat_allOnes] at h
  have := Nat.two_pow_pos n
  omega

/-- **Values are stored** as they are, if they are not too large. -/
theorem Ranked.unpack_pack (hexponents : 1 < f.exponentBits) {n : ℕ} {y : UnpackedFloat}
    (h : Ranked f s n y) (hn : n < lastRank f) :
    UnpackedFloat.unpack f (UnpackedFloat.pack f y) = y := by
  have hmin := minExponent_eq f
  have hfour : 2 ^ 2 ≤ 2 ^ f.exponentBits := Nat.pow_le_pow_right (by decide) hexponents
  have hfirst : 0#f.exponentBits ≠ -1#_ := ne_minusOne _ (by rw [BitVec.toNat_zero]; omega)
  cases h with
  | zero =>
    refine (unpack_packComponents s 0#_ 0#_).trans ?_
    rw [if_neg hfirst, if_pos rfl, dif_pos rfl]
  | @finite m e hm =>
    have hless := (hm.rank_lt_iff hexponents).1 hn
    have hleast := hm.least
    have hbits := hm.bits
    rw [two_pow_mantissaBits] at hbits
    rw [hm.pack_eq, if_neg (by omega)]
    split
    case isTrue hfull =>
      have hexponent : (BitVec.ofNat f.exponentBits ((e - f.minExponent).toNat + 1)).toNat =
          (e - f.minExponent).toNat + 1 := by
        rw [BitVec.toNat_ofNat, Nat.mod_eq_of_lt (by omega)]
      have hcoefficient : (1#1 ++ BitVec.ofNat f.mantissaBitsWithoutImplicit m).toNat = m := by
        rw [toNat_implicit, BitVec.toNat_ofNat, Nat.mod_eq_sub_mod hfull, Nat.mod_eq_of_lt (by omega)]
        omega
      have hnormal : BitVec.ofNat f.exponentBits ((e - f.minExponent).toNat + 1) ≠ 0#_ := by
        intro hzero
        rw [hzero, BitVec.toNat_zero] at hexponent
        cases hexponent
      rw [unpack_packComponents, if_neg (ne_minusOne _ (by omega)), if_neg hnormal, UnpackedFloat.finite.injEq]
      exact ⟨rfl, hcoefficient, by omega⟩
    case isFalse hfew =>
      have hcoefficient : (BitVec.ofNat f.mantissaBitsWithoutImplicit m).toNat = m := by
        rw [BitVec.toNat_ofNat, Nat.mod_eq_of_lt (by omega)]
      have hsome : BitVec.ofNat f.mantissaBitsWithoutImplicit m ≠ 0#_ := by
        intro hzero
        rw [hzero, BitVec.toNat_zero] at hcoefficient
        exact hm.pos.ne hcoefficient
      have he := hm.full.resolve_right hfew
      rw [unpack_packComponents, if_neg hfirst, if_pos rfl, dif_neg hsome, UnpackedFloat.finite.injEq]
      refine ⟨rfl, hcoefficient, ?_⟩
      rw [BitVec.toNat_zero]
      omega

/-- Too large values are stored as infinite. -/
theorem Ranked.unpack_pack_infinity (hexponents : 1 < f.exponentBits) {n : ℕ} {y : UnpackedFloat}
    (h : Ranked f s n y) (hn : lastRank f ≤ n) :
    UnpackedFloat.unpack f (UnpackedFloat.pack f y) = .infinity s := by
  cases h with
  | zero =>
    have hpos : 0 < lastRank f := Nat.mul_pos
      (Nat.sub_pos_of_lt (Nat.one_lt_two_pow f.he.ne')) (Nat.two_pow_pos _)
    omega
  | finite hm =>
    have hmany := mt (hm.rank_lt_iff hexponents).2 (by omega)
    rw [hm.pack_eq, if_pos (by omega)]
    refine (unpack_packComponents s (-1#_) 0#_).trans ?_
    rw [if_pos rfl, if_pos rfl]

end
end SidPlayback.Decimal
