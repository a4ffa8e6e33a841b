/-
  How exact the numbers are that are read.

  The digits of a number are collected and scaled by a power of ten.  The digits, the power of
  ten and the result are each rounded, so the result need not be the nearest double, but it is
  the nearest one to a number that is only a little off.

  * `Json.powerOfTen_stands`: how exact the powers of ten are;
  * `Json.Close` is what is known of a scaled number before it is rounded, and `Json.scale_close`
    that it is known of all numbers with seventeen digits.
-/
import SidPlayback.Json.Number
import SidPlayback.Proofs.Decimal.Doubles
import SidPlayback.Proofs.Decimal.Spans

namespace SidPlayback.Json

open Decimal Float.Model Float.Model.UnpackedFloat

/-! ## Powers of ten -/

/-- The first powers of ten are kept in a table. -/
theorem toBits_powerOfTen : ∀ e < 23, (powerOfTen e).toBits =
    (Float.ofModel (.pack (UnpackedFloat.ofNat Format.binary64 (10 ^ e)))).toBits := by
  decide +kernel

/-- **Powers of ten** are rounded. -/
theorem computes_powerOfTen {e : ℕ} (he : e ≤ 308) : Computes (powerOfTen e) ((10 ^ e : ℕ) : ℚ) := by
  rcases Nat.lt_or_ge e 23 with hless | hmore
  · have hbits := congrArg UInt64.toNat (toBits_powerOfTen e hless)
    exact ⟨_, rounded_ofNat (Nat.pow_pos (by decide)), eq_of_toBits hbits⟩
  · have hmul : UnpackedFloat.ofScientific Format.binary64 1 e =
        UnpackedFloat.mul Format.binary64
          (.finite .positive (2 ^ 53) (-53) (Nat.two_pow_pos 53))
          (.finite .positive (10 ^ e) 0 (Nat.pow_pos (by decide))) := by
      rw [UnpackedFloat.ofScientific, dif_neg one_ne_zero, if_neg, if_neg, if_pos (Int.natCast_nonneg e)]
      · rfl
      · have hwidth : ((2 : ℤ) ^ Format.binary64.exponentBits + (1 : ℕ).log2) = 2048 := rfl
        omega
      · have hwidth : ((2 : ℤ) ^ Format.binary64.exponentBits) = 2048 := rfl
        omega
    have hbits : 2 ^ Format.binary64.mantissaBitsWithoutImplicit ≤ 2 ^ 53 * 10 ^ e :=
      Nat.le_trans (by decide) (Nat.le_mul_of_pos_right (2 ^ 53) (Nat.pow_pos (by decide)))
    have hrounded := @rounded_mul _ .positive .positive (2 ^ 53) (10 ^ e) (-53) 0 (Nat.two_pow_pos 53)
      (Nat.pow_pos (by decide)) hbits
    have hnumber : ((10 ^ e : ℕ) : ℚ) = (2 ^ 53 : ℕ) * 2 ^ (-53 : ℤ) * ((10 ^ e : ℕ) * 2 ^ (0 : ℤ)) := by
      norm_num
    refine ⟨UnpackedFloat.ofScientific Format.binary64 1 e, ?_, ?_⟩
    · rw [hmul, hnumber]
      exact hrounded
    · rw [powerOfTen, Float.ofScientific, dif_neg (by omega)]
      rfl

/-- A power of ten, cut off where a double ends. -/
def roundedPower (e : ℕ) : ℕ :=
  shiftNearest (10 ^ e) ((10 ^ e).log2 - 52) * 2 ^ ((10 ^ e).log2 - 52)

theorem log2_powerOfTen {e : ℕ} (he : 23 ≤ e) : 52 ≤ (10 ^ e).log2 := by
  rw [Nat.le_log2 (Nat.pow_pos (by decide)).ne']
  exact le_trans (by decide) (Nat.pow_le_pow_right (by decide) he)

/-- No power of ten is half-way between two doubles, or nearly so. -/
theorem roundedPower_bounds : ∀ e < 309, 23 ≤ e →
    100 * 2 ^ 53 * roundedPower e ≤ (100 * 2 ^ 53 + 91) * 10 ^ e ∧
      100 * 2 ^ 53 * 10 ^ e ≤ 100 * 2 ^ 53 * roundedPower e + 91 * 10 ^ e := by
  decide +kernel

/-- The largest power of ten is nearly a double, and not far from a power of two. -/
theorem roundedPower_last {e k : ℕ} (he : e = 308) (hk : k = 1023) :
    10 * 2 ^ 53 * roundedPower e ≤ (10 * 2 ^ 53 + 1) * 10 ^ e ∧
      10 * 2 ^ 53 * 10 ^ e ≤ 10 * 2 ^ 53 * roundedPower e + 10 ^ e ∧
      11125 * 2 ^ k ≤ 10000 * roundedPower e ∧ 10000 * 10 ^ e ≤ 11126 * 2 ^ k := by
  subst he hk
  decide +kernel

theorem powerOfTen_room {e : ℕ} (he : e ≤ 308) : 10 ^ e ≤ (2 ^ 53 - 1) * 2 ^ 971 := by
  have hlast : 10 ^ 308 ≤ (2 ^ 53 - 1) * 2 ^ 971 := by decide +kernel
  exact (pow_le_pow_right₀ (by decide) he).trans hlast

theorem stands_roundedPower {e : ℕ} (hlow : 23 ≤ e) (he : e ≤ 308) :
    Stands (powerOfTen e) (roundedPower e) :=
  (computes_powerOfTen he).stands_natCast (log2_powerOfTen hlow) (powerOfTen_room he)

/-- **Powers of ten** are exact, or off by less than a unit of the last place. -/
theorem powerOfTen_stands {e : ℕ} (he : e ≤ 308) : ∃ p : ℚ, Stands (powerOfTen e) p ∧
    |p - 10 ^ e| ≤ 91 / 100 / 2 ^ 53 * 10 ^ e ∧ (e ≤ 22 → p = 10 ^ e) := by
  have hpos : (0 : ℚ) < 10 ^ e := by positivity
  rcases Nat.lt_or_ge e 23 with hless | hmore
  · have hsplit : (10 ^ e : ℚ) = (5 ^ e : ℕ) * 2 ^ e := by
      rw [Nat.cast_pow, ← mul_pow]
      norm_num
    have hbits : 5 ^ e < 2 ^ 53 :=
      (Nat.pow_le_pow_right (by decide) (Nat.le_of_lt_succ hless)).trans_lt (by decide)
    have hroom := natCast_room (powerOfTen_room he)
    have hcomputes := computes_powerOfTen he
    rw [Nat.cast_pow, Nat.cast_ofNat, hsplit] at hcomputes hroom
    have hstands := hcomputes.stands_scaled (Nat.pow_pos (by decide)) hbits hroom
    rw [← hsplit] at hstands
    refine ⟨10 ^ e, hstands, ?_, fun _ => rfl⟩
    rw [sub_self, abs_zero]
    positivity
  · obtain ⟨hhigh, hlow⟩ := roundedPower_bounds e (by omega) hmore
    replace hhigh : (100 * 2 ^ 53 * roundedPower e : ℚ) ≤ (100 * 2 ^ 53 + 91) * 10 ^ e := by
      exact_mod_cast hhigh
    replace hlow : (100 * 2 ^ 53 * 10 ^ e : ℚ) ≤ 100 * 2 ^ 53 * roundedPower e + 91 * 10 ^ e := by
      exact_mod_cast hlow
    refine ⟨roundedPower e, stands_roundedPower hmore he, ?_, fun hfew => by omega⟩
    rw [abs_le]
    constructor <;> linarith

/-- The largest power of ten is off by less. -/
theorem powerOfTen_last {e k : ℕ} (he : e = 308) (hk : k = 1023) :
    ∃ p : ℚ, Stands (powerOfTen e) p ∧ |p - 10 ^ e| ≤ 1 / 10 / 2 ^ 53 * 10 ^ e ∧
      11125 / 10000 * 2 ^ k ≤ p ∧ 10 ^ e ≤ 11126 / 10000 * (2 ^ k : ℚ) := by
  obtain ⟨hhigh, hlow, hleast, hmost⟩ := roundedPower_last he hk
  replace hhigh : (10 * 2 ^ 53 * roundedPower e : ℚ) ≤ (10 * 2 ^ 53 + 1) * 10 ^ e := by
    exact_mod_cast hhigh
  replace hlow : (10 * 2 ^ 53 * 10 ^ e : ℚ) ≤ 10 * 2 ^ 53 * roundedPower e + 10 ^ e := by
    exact_mod_cast hlow
  replace hleast : (11125 * 2 ^ k : ℚ) ≤ 10000 * roundedPower e := by exact_mod_cast hleast
  replace hmost : (10000 * 10 ^ e : ℚ) ≤ 11126 * 2 ^ k := by exact_mod_cast hmost
  refine ⟨roundedPower e, stands_roundedPower (by omega) (by omega), ?_, ?_, ?_⟩
  · rw [abs_le]
    constructor <;> linarith
  · linarith
  · linarith

/-! ## Digits -/

/-- **The digits that are collected** are exact, or off by half a unit of the last place. -/
theorem significand_stands {S : ℕ} (hpos : 0 < S) (hdigits : S ≤ 10 ^ 17) :
    ∃ (E : ℤ) (F : ℚ), Stands (UInt64.ofNat S).toFloat F ∧ Cut Format.binary64 S E ∧
      |F - S| ≤ 2 ^ E / 2 ∧ (S < 2 ^ 53 → F = S) := by
  have hcomputes := computes_ofNat hpos (hdigits.trans_lt (by decide))
  have hone : (1 : ℚ) ≤ S := by exact_mod_cast hpos
  have hlow : (2 : ℚ) ^ (-1074 : ℤ) ≤ S :=
    (zpow_le_one_of_nonpos₀ one_le_two (by decide)).trans hone
  have hroom := natCast_room (hdigits.trans (by decide +kernel))
  obtain ⟨E, r, hx, hcut, hr⟩ := hcomputes.stands hlow hroom
  refine ⟨E, r * 2 ^ E, hx, hcut, hr.error (by positivity), fun hbits => ?_⟩
  have hexact : Computes (UInt64.ofNat S).toFloat (S * 2 ^ 0) := by
    rwa [pow_zero, mul_one]
  have hstands := hexact.stands_scaled hpos hbits (by rwa [pow_zero, mul_one])
  rw [pow_zero, mul_one] at hstands
  exact hx.unique hstands

/-! ## Products and quotients -/

section
variable {F S p P a b : ℚ} (hS : 0 < S) (hP : 0 < P) (hF : |F - S| ≤ a * S) (hp : |p - P| ≤ b * P)
include hS hP hF hp

/-- A product is off by little if its factors are. -/
theorem product_off : |F * p - S * P| ≤ (a + b + a * b) * (S * P) := by
  have ha : 0 ≤ a * S := (abs_nonneg _).trans hF
  have hsplit : F * p - S * P = (F - S) * (p - P) + (F - S) * P + S * (p - P) := by ring
  calc |F * p - S * P| ≤ |F - S| * |p - P| + |F - S| * P + S * |p - P| := by
        rw [hsplit, ← abs_mul, ← abs_of_pos hP, ← abs_of_pos hS, ← abs_mul, ← abs_mul,
          abs_of_pos hP, abs_of_pos hS]
        exact abs_add_three _ _ _
    _ ≤ a * S * (b * P) + a * S * P + S * (b * P) := by gcongr
    _ = (a + b + a * b) * (S * P) := by ring

/-- A quotient is off by little if its parts are. -/
theorem quotient_off (hb : b < 1) : |F / p - S / P| ≤ (a + b) / (1 - b) * (S / P) := by
  have hpos : (1 - b) * P ≤ p := by linarith [(abs_le.1 hp).1]
  have hless : 0 < (1 - b) * P := by
    have : 0 < 1 - b := by linarith
    positivity
  have hp' : 0 < p := hless.trans_le hpos
  have hsplit : F / p - S / P = ((F - S) * P - S * (p - P)) / (p * P) := by
    field_simp
    ring
  have hbound : |(F - S) * P - S * (p - P)| ≤ (a + b) * (S * P) := by
    calc |(F - S) * P - S * (p - P)| ≤ |(F - S) * P| + |S * (p - P)| := abs_sub _ _
      _ = |F - S| * P + S * |p - P| := by rw [abs_mul, abs_mul, abs_of_pos hP, abs_of_pos hS]
      _ ≤ a * S * P + S * (b * P) := by gcongr
      _ = (a + b) * (S * P) := by ring
  have hsum : 0 ≤ (a + b) * S := by
    have := (abs_nonneg _).trans hbound
    rw [← mul_assoc] at this
    exact nonneg_of_mul_nonneg_left this hP
  rw [hsplit, abs_div, abs_of_pos (mul_pos hp' hP), div_le_iff₀ (mul_pos hp' hP)]
  refine hbound.trans ?_
  have hone : 0 < 1 - b := by linarith
  calc (a + b) * (S * P) = (a + b) * S * ((1 - b) * P) / (1 - b) := by field_simp
    _ ≤ (a + b) * S * p / (1 - b) := by gcongr
    _ = (a + b) / (1 - b) * (S / P) * (p * P) := by field_simp

end

/-! ## Scaled numbers -/

/-- A number that is off by less than a unit of the last place of a double, or of the least one. -/
structure Close (d q : ℚ) : Prop where
  nonneg : 0 ≤ q
  off : |q - d| < d / 2 ^ 52 ∨ |q - d| < 2 ^ (-1074 : ℤ)

section
variable {S : ℕ}

/-- Digits that do not fit are off by a part of the number. -/
theorem significand_off {E : ℤ} {F : ℚ} (hpos : 0 < S) (hcut : Cut Format.binary64 S E)
    (hF : |F - S| ≤ 2 ^ E / 2) : |F - S| ≤ 1 / 2 ^ 53 * S ∧ 2 ^ (-1022 : ℤ) ≤ F := by
  have hone : (1 : ℚ) ≤ S := by exact_mod_cast hpos
  have htiny : (2 : ℚ) ^ (-1022 : ℤ) ≤ 1 / 2 := by
    rw [one_div, ← zpow_neg_one]
    exact zpow_le_zpow_right₀ one_le_two (by decide)
  have hunit := hcut.unit_le (htiny.trans (by linarith))
  have hoff : |F - S| ≤ 1 / 2 ^ 53 * S := by linarith
  refine ⟨hoff, htiny.trans ?_⟩
  linarith [(abs_le.1 hoff).1]

/-- **Products** with powers of ten. -/
theorem scale_of_nonneg (hpos : 0 < S) (hdigits : S ≤ 10 ^ 17) {e : ℕ} (he : e ≤ 308) :
    ∃ y q, Computes y q ∧ Close (S * 10 ^ e) q ∧ (S < 2 ^ 53 → e ≤ 22 → q = S * 10 ^ e) ∧
      (y.isInf = false → scale S e = some y) := by
  obtain ⟨E, F, hx, hcut, hF, hexact⟩ := significand_stands hpos hdigits
  obtain ⟨p, hp, hoff, hfew⟩ := powerOfTen_stands he
  obtain ⟨hrel, hlow⟩ := significand_off hpos hcut hF
  have hS : (0 : ℚ) < S := by exact_mod_cast hpos
  have hproduct := product_off hS (by positivity : (0 : ℚ) < 10 ^ e) hrel hoff
  have hd : (0 : ℚ) < S * 10 ^ e := by positivity
  refine ⟨_, F * p, hx.mul hp hlow, ⟨(mul_pos hx.pos hp.pos).le, .inl ?_⟩, ?_, ?_⟩
  · generalize (S * 10 ^ e : ℚ) = d at hproduct hd
    linarith
  · intro hbits hsmall
    rw [hexact hbits, hfew hsmall]
  · intro hinf
    rw [scale]
    simp only [show ¬ (308 < (e : ℤ)) by omega, Int.natCast_nonneg, if_true, if_false, Int.toNat_natCast,
      hinf, Bool.false_eq_true]

/-- **Quotients** by powers of ten. -/
theorem scale_of_neg (hpos : 0 < S) (hdigits : S ≤ 10 ^ 17) {e : ℕ} (hsome : 0 < e) (he : e ≤ 308) :
    ∃ y q, Computes y q ∧ Close (S / 10 ^ e) q ∧ (S < 2 ^ 53 → e ≤ 22 → q = S / 10 ^ e) ∧
      scale S (-e) = some y := by
  obtain ⟨E, F, hx, hcut, hF, hexact⟩ := significand_stands hpos hdigits
  obtain ⟨p, hp, hoff, hfew⟩ := powerOfTen_stands he
  obtain ⟨hrel, hlow⟩ := significand_off hpos hcut hF
  have hS : (0 : ℚ) < S := by exact_mod_cast hpos
  have hquotient := quotient_off hS (by positivity : (0 : ℚ) < 10 ^ e) hrel hoff (by norm_num)
  have hd : (0 : ℚ) < S / 10 ^ e := by positivity
  refine ⟨_, F / p, hx.div hp, ⟨(div_pos hx.pos hp.pos).le, .inl ?_⟩, ?_, ?_⟩
  · generalize (S / 10 ^ e : ℚ) = d at hquotient hd
    linarith
  · intro hbits hsmall
    rw [hexact hbits, hfew hsmall]
  · have htimes : (e - 1) / 308 = 0 := Nat.div_eq_of_lt (by omega)
    rw [scale]
    simp only [show ¬ (308 < -(e : ℤ)) by omega, show ¬ (0 ≤ -(e : ℤ)) by omega, if_false,
      Int.natAbs_neg, Int.natAbs_natCast, htimes, Nat.mul_zero, Nat.sub_zero, lower]

/-- Of the numbers with too many digits, those whose digits are off by most are not off by most
    when they are divided: the divisor is far enough from a power of two. -/
theorem divided_off {S F g w u : ℚ} (hg : 0 < g) (hS : 2 ^ 52 * g ≤ S) (hF : |F - S| ≤ g / 2)
    (hfull : 2 ^ 52 * (11125 / 10000 * w) ≤ F) (hplace : w = g ∨ w ≤ g / 2)
    (hu : u ≤ 11126 / 10000 * w) :
    u / 2 + (g / 2 + 1 / 10 / 2 ^ 53 * S) / (1 - 1 / 10 / 2 ^ 53) < S / 2 ^ 52 := by
  rw [← lt_sub_iff_add_lt', div_lt_iff₀ (by norm_num)]
  obtain ⟨hlow, hhigh⟩ := abs_le.1 hF
  rcases hplace with rfl | hless
  · linarith
  · linarith

/-- A place whose double is not above the digits is theirs, or half of it at most. -/
theorem place_cases {q F : ℚ} {E E' : ℤ} {k : ℕ} (hbelow : q < 2 ^ 53 * 2 ^ E)
    (hF : |F - q| ≤ 2 ^ E / 2) (hw : 2 ^ 52 * (11125 / 10000 * (2 ^ E' * 2 ^ k)) ≤ F) :
    (2 : ℚ) ^ E' * 2 ^ k = 2 ^ E ∨ (2 : ℚ) ^ E' * 2 ^ k ≤ 2 ^ E / 2 := by
  have hjoined : (2 : ℚ) ^ E' * 2 ^ k = 2 ^ (E' + k) := by
    rw [zpow_add₀ (by norm_num), zpow_natCast]
  have hhalf : (2 : ℚ) ^ E / 2 = 2 ^ (E - 1) := (zpow_sub_one₀ (by norm_num) E).symm
  have hunit : (0 : ℚ) < 2 ^ E := by positivity
  have hnext : (2 : ℚ) ^ (E' + k) < 2 ^ (E + 1) := by
    rw [← hjoined, zpow_add_one₀ (by norm_num)]
    linarith [(abs_le.1 hF).2]
  have hle : E' + k < E + 1 := (zpow_lt_zpow_iff_right₀ one_lt_two).1 hnext
  rw [hjoined, hhalf]
  rcases (Int.le_of_lt_add_one hle).eq_or_lt with heq | hlt
  · exact .inl (congrArg _ heq)
  · exact .inr (zpow_le_zpow_right₀ one_le_two (by omega))

/-- What is divided by the largest power of ten stays in the range of the doubles. -/
theorem lowered_room {F p : ℚ} {k : ℕ} (hk : k = 1023) (hdigits : S ≤ 10 ^ 17) (hF : 1 / 2 ≤ F)
    (hF' : F ≤ 2 * S) (hp : 2 ^ k ≤ p) (hp' : p ≤ 2 * 2 ^ k) :
    2 ^ (-1074 : ℤ) ≤ F / p ∧ F / p ≤ (2 ^ 53 - 1) * 2 ^ 971 := by
  have hone : (1 : ℚ) ≤ p := (one_le_pow₀ (by norm_num)).trans hp
  have hscale : (2 : ℚ) ^ (-1074 : ℤ) * 2 ^ k = 1 / 2 ^ 51 := by
    rw [one_div, ← zpow_natCast, ← zpow_natCast, ← zpow_neg, ← zpow_add₀ (by norm_num)]
    congr 1
    omega
  constructor
  · rw [le_div_iff₀ (by linarith)]
    calc (2 : ℚ) ^ (-1074 : ℤ) * p ≤ 2 ^ (-1074 : ℤ) * (2 * 2 ^ k) := by gcongr
      _ = 2 * (2 ^ (-1074 : ℤ) * 2 ^ k) := by ring
      _ ≤ F := by rw [hscale]; linarith
  · have hless : 2 * S ≤ (2 ^ 53 - 1) * 2 ^ 971 :=
      (Nat.mul_le_mul_left 2 hdigits).trans (by decide +kernel)
    calc F / p ≤ F := div_le_self (by linarith) hone
      _ ≤ (2 * S : ℕ) := by push_cast; exact hF'
      _ ≤ _ := natCast_room hless

section
variable {F p B : ℚ} {E E' : ℤ} {e k : ℕ} (hpos : 0 < S)
  (hoff : |p - 10 ^ e| ≤ 1 / 10 / 2 ^ 53 * 10 ^ e) (hfull : 2 ^ 52 * 2 ^ E' ≤ F / p)
  (hlast : |B - S / 10 ^ e| ≤ 2 ^ E' / 2 + |F / p - S / 10 ^ e|)
include hpos hoff hfull hlast

/-- Exact digits are off by the divisor and by the last place only. -/
theorem lowered_few (hexact : F = S) : |B - S / 10 ^ e| < S / 10 ^ e / 2 ^ 52 := by
  subst hexact
  have hS : (0 : ℚ) < S := by exact_mod_cast hpos
  have hexactly : |(S : ℚ) - S| ≤ 0 * S := by simp
  have hdivided := quotient_off hS (by positivity) hexactly hoff (by norm_num)
  have hnear := (abs_le.1 hdivided).2
  have hd : (0 : ℚ) < S / 10 ^ e := by positivity
  generalize (S / 10 ^ e : ℚ) = d at *
  linarith

/-- Digits that are rounded are off by half a place more. -/
theorem lowered_many (hmany : 2 ^ 53 ≤ S) (hcut : Cut Format.binary64 S E) (hF : |F - S| ≤ 2 ^ E / 2)
    (hp : 0 < p) (hleast : 11125 / 10000 * 2 ^ k ≤ p) (hmost : 10 ^ e ≤ 11126 / 10000 * (2 ^ k : ℚ)) :
    |B - S / 10 ^ e| < S / 10 ^ e / 2 ^ 52 := by
  have hS : (0 : ℚ) < S := by exact_mod_cast hpos
  have hT : (0 : ℚ) < 10 ^ e := by positivity
  have hunit : (0 : ℚ) < 2 ^ E := by positivity
  have hcast : (2 : ℚ) ^ 53 ≤ S := by exact_mod_cast hmany
  have htiny : (2 : ℚ) ^ (-1022 : ℤ) ≤ 1 := zpow_le_one_of_nonpos₀ one_le_two (by decide)
  have hsize : (2 : ℚ) ^ 52 * 2 ^ E ≤ S := by
    have := hcut.unit_le (htiny.trans (by linarith))
    linarith
  have hbelow : (S : ℚ) < 2 ^ 53 * 2 ^ E := (div_lt_iff₀ hunit).1 hcut.below
  have hpart : |F - S| ≤ 2 ^ E / 2 / S * S := by
    rwa [div_mul_cancel₀ _ hS.ne']
  have hdivided := quotient_off hS hT hpart hoff (by norm_num)
  have hw : 2 ^ 52 * (11125 / 10000 * (2 ^ E' * 2 ^ k)) ≤ F := by
    rw [le_div_iff₀ hp] at hfull
    calc (2 : ℚ) ^ 52 * (11125 / 10000 * (2 ^ E' * 2 ^ k)) =
        2 ^ 52 * 2 ^ E' * (11125 / 10000 * 2 ^ k) := by ring
      _ ≤ 2 ^ 52 * 2 ^ E' * p := by gcongr
      _ ≤ F := hfull
  have hu : (2 : ℚ) ^ E' * 10 ^ e ≤ 11126 / 10000 * (2 ^ E' * 2 ^ k) := by
    calc (2 : ℚ) ^ E' * 10 ^ e ≤ 2 ^ E' * (11126 / 10000 * 2 ^ k) := by gcongr
      _ = 11126 / 10000 * (2 ^ E' * 2 ^ k) := by ring
  have hless := divided_off hunit hsize hF hw (place_cases hbelow hF hw) hu
  rw [div_right_comm, lt_div_iff₀ hT]
  refine lt_of_le_of_lt ?_ hless
  calc |B - S / 10 ^ e| * 10 ^ e
      ≤ (2 ^ E' / 2 + (2 ^ E / 2 / S + 1 / 10 / 2 ^ 53) / (1 - 1 / 10 / 2 ^ 53) * (S / 10 ^ e)) *
        10 ^ e := by gcongr; linarith
    _ = 2 ^ E' * 10 ^ e / 2 + (2 ^ E / 2 + 1 / 10 / 2 ^ 53 * S) / (1 - 1 / 10 / 2 ^ 53) := by
      field_simp

end

/-- **Quotients** by the largest power of ten. -/
theorem lowered_off (hpos : 0 < S) (hdigits : S ≤ 10 ^ 17) {e k : ℕ} (he : e = 308) (hk : k = 1023) :
    ∃ B : ℚ, Stands ((UInt64.ofNat S).toFloat / powerOfTen e) B ∧
      (|B - S / 10 ^ e| < S / 10 ^ e / 2 ^ 52 ∨ |B - S / 10 ^ e| < 10 * 2 ^ (-1074 : ℤ)) := by
  obtain ⟨E, F, hx, hcut, hF, hexact⟩ := significand_stands hpos hdigits
  obtain ⟨p, hp, hoff, hleast, hmost⟩ := powerOfTen_last he hk
  obtain ⟨hrel, -⟩ := significand_off hpos hcut hF
  have hone : (1 : ℚ) ≤ S := by exact_mod_cast hpos
  have htwo : (0 : ℚ) < 2 ^ k := by positivity
  have hdigitsOff := abs_le.1 hrel
  obtain ⟨hlow, hroom⟩ := lowered_room (F := F) (p := p) hk hdigits (by linarith) (by linarith)
    (by linarith) (by linarith [(abs_le.1 hoff).2])
  obtain ⟨E', r, hy, hcut', hr⟩ := (hx.div hp).stands hlow hroom
  have hlast : |(r * 2 ^ E' : ℚ) - S / 10 ^ e| ≤ 2 ^ E' / 2 + |F / p - S / 10 ^ e| :=
    (abs_sub_le _ (F / p) _).trans (add_le_add_left (hr.error (by positivity)) _)
  refine ⟨r * 2 ^ E', hy, ?_⟩
  rcases hcut'.above with hfew | hfull
  · -- The quotient has the least units.
    right
    obtain rfl : E' = -1074 := hfew
    have hbelow : F / p / 2 ^ (-1074 : ℤ) < 2 ^ 53 := hcut'.below
    rw [div_lt_iff₀ (by positivity)] at hbelow
    have hquotient := quotient_off (by linarith) (by positivity) hrel hoff (by norm_num)
    obtain ⟨-, hnear⟩ := abs_le.1 (abs_sub_comm (F / p) _ ▸ hquotient)
    have hd : (0 : ℚ) < S / 10 ^ e := by positivity
    generalize (S / 10 ^ e : ℚ) = d at *
    generalize (2 : ℚ) ^ (-1074 : ℤ) = c at *
    norm_num at *
    linarith
  · left
    replace hfull : 2 ^ 52 * 2 ^ E' ≤ F / p := (le_div_iff₀ (by positivity)).1 hfull
    rcases Nat.lt_or_ge S (2 ^ 53) with hbits | hmany
    · exact lowered_few hpos hoff hfull hlast (hexact hbits)
    · exact lowered_many hpos hoff hfull hlast hmany hcut hF hp.pos hleast hmost

/-- Below all powers of ten there are two quotients. -/
theorem scale_of_lt (hpos : 0 < S) (hdigits : S ≤ 10 ^ 17) {e : ℕ} (hmore : 308 < e) (he : e ≤ 324) :
    ∃ y q, Computes y q ∧ Close (S / 10 ^ e) q ∧ scale S (-e) = some y := by
  obtain ⟨E, F, hx, -⟩ := significand_stands hpos hdigits
  obtain ⟨l, hl⟩ : ∃ l, l = 308 := ⟨_, rfl⟩
  obtain ⟨j, hj⟩ : ∃ j, e = l + j := ⟨e - l, by omega⟩
  obtain ⟨B, hB, hoff⟩ := lowered_off hpos hdigits hl rfl
  obtain ⟨p, hp, -, hfew⟩ := powerOfTen_stands (e := j) (by omega)
  obtain rfl := hfew (by omega)
  have hten : (10 : ℚ) ≤ 10 ^ j := le_self_pow₀ (by norm_num) (by omega)
  have hsplit : B / 10 ^ j - S / 10 ^ e = (B - S / 10 ^ l) / 10 ^ j := by
    rw [hj, pow_add, sub_div, div_div]
  refine ⟨_, B / 10 ^ j, hB.div hp, ⟨(div_pos hB.pos hp.pos).le, ?_⟩, ?_⟩
  · rw [hsplit, abs_div, abs_of_pos hp.pos, div_lt_iff₀ hp.pos, div_lt_iff₀ hp.pos]
    refine hoff.imp (fun hless => hless.trans_eq ?_) fun hless => hless.trans_le ?_
    · rw [hj, pow_add]
      field_simp
    · rw [mul_comm]
      gcongr
  · have htimes : (e - 1) / 308 = 1 := Nat.div_eq_of_lt_le (by omega) (by omega)
    have hplaces : e - 308 = j := by omega
    rw [scale]
    simp only [show ¬ (308 < -(e : ℤ)) by omega, show ¬ (0 ≤ -(e : ℤ)) by omega, if_false,
      Int.natAbs_neg, Int.natAbs_natCast, htimes, Nat.mul_one, hplaces, lower, hx.ne_zero,
      Bool.false_eq_true, hl]

/-- **What is scaled** is rounded from a number that is close, and that is exact if the digits and
    the power of ten are. -/
theorem scale_close (hpos : 0 < S) (hdigits : S ≤ 10 ^ 17) {t : ℤ} (hlow : -324 ≤ t) (hhigh : t ≤ 308) :
    ∃ y q, Computes y q ∧ Close (S * 10 ^ t) q ∧
      (S < 2 ^ 53 → -22 ≤ t → t ≤ 22 → q = S * 10 ^ t) ∧ (y.isInf = false → scale S t = some y) := by
  rcases le_or_gt 0 t with hnonneg | hneg
  · obtain ⟨e, rfl⟩ := Int.eq_ofNat_of_zero_le hnonneg
    obtain ⟨y, q, hy, hclose, hexact, hscale⟩ := scale_of_nonneg hpos hdigits (e := e) (by omega)
    rw [zpow_natCast]
    exact ⟨y, q, hy, hclose, fun hbits _ hsmall => hexact hbits (by omega), hscale⟩
  · obtain ⟨e, rfl⟩ : ∃ e : ℕ, t = -e := ⟨t.natAbs, by omega⟩
    rw [zpow_neg, zpow_natCast, ← div_eq_mul_inv]
    rcases Nat.lt_or_ge 308 e with hmore | hless
    · obtain ⟨y, q, hy, hclose, hscale⟩ := scale_of_lt hpos hdigits hmore (by omega)
      exact ⟨y, q, hy, hclose, fun _ hsmall => by omega, fun _ => hscale⟩
    · obtain ⟨y, q, hy, hclose, hexact, hscale⟩ := scale_of_neg hpos hdigits (by omega) hless
      exact ⟨y, q, hy, hclose, fun hbits hsmall _ => hexact hbits (by omega), fun _ => hscale⟩

end

end SidPlayback.Json
