/-
  What the bits of a number in double precision stand for.

  The bits are decoded twice: by the rules of floating-point arithmetic, and into a sign
  and an exact magnitude.  Both are the same number.

  * `Decimal.Decoded` lists the kinds of bit patterns, and `Decimal.decoded_unpack` says that
    there is no other;
  * `Decimal.Reads` relates a value to what is read, and `Decimal.reads_ofFloat` says that they
    agree;
  * `Decimal.roundSaturating_eq`: rounding to a natural number is by the number that a value
    stands for.
-/
import SidPlayback.Decimal.Binary
import SidPlayback.Proofs.Decimal.Whole

namespace SidPlayback.Decimal

open Float.Model Float.Model.UnpackedFloat

/-! ## Bit patterns -/

section
variable (b : BitVec 64)

theorem toNat_unpackMantissa :
    (@unpackMantissa Format.binary64 b).toNat = b.toNat % 2 ^ 52 := by
  simp [unpackMantissa]

theorem toNat_unpackExponent :
    (@unpackExponent Format.binary64 b).toNat = b.toNat / 2 ^ 52 % 2 ^ 11 := by
  simp [unpackExponent, Nat.shiftRight_eq_div_pow]

theorem testBit_sign :
    b.toNat.testBit 63 = (Sign.ofBitVec (@unpackSign Format.binary64 b) == .negative) := by
  have hbit : b.toNat.testBit 63 = (@unpackSign Format.binary64 b).getLsbD 0 := by
    rw [unpackSign_def, BitVec.getLsbD_extractLsb']
    rfl
  rw [hbit]
  generalize @unpackSign Format.binary64 b = sign
  revert sign
  decide

end

/-- The kinds of bit patterns: by the fraction, the exponent field and the sign, and the values
    that they stand for. -/
inductive Decoded : Nat → Nat → Sign → UnpackedFloat → Prop where
  | infinite (s : Sign) : Decoded 0 2047 s (.infinity s)
  | nan {fraction : Nat} (s : Sign) : fraction ≠ 0 → Decoded fraction 2047 s .notANumber
  | zero (s : Sign) : Decoded 0 0 s (.zero s)
  | subnormal {fraction : Nat} (s : Sign) (h : 0 < fraction) : fraction < 2 ^ 52 →
      Decoded fraction 0 s (.finite s fraction (-1074) h)
  | normal {fraction field : Nat} (s : Sign) (h : Stored (2 ^ 52 + fraction) (field - 1075)) :
      0 < field → Decoded fraction field s (.finite s (2 ^ 52 + fraction) (field - 1075) h.pos)

/-- **Every bit pattern** is of one of these kinds. -/
theorem decoded_unpack (b : BitVec 64) :
    Decoded (b.toNat % 2 ^ 52) (b.toNat / 2 ^ 52 % 2 ^ 11)
      (Sign.ofBitVec (@unpackSign Format.binary64 b)) (UnpackedFloat.unpack Format.binary64 b) := by
  have hlow : b.toNat % 2 ^ 52 < 2 ^ 52 := Nat.mod_lt _ (by decide)
  have hhigh : b.toNat / 2 ^ 52 % 2 ^ 11 < 2 ^ 11 := Nat.mod_lt _ (by decide)
  rw [← toNat_unpackMantissa, ← toNat_unpackExponent] at *
  unfold UnpackedFloat.unpack
  dsimp only
  split
  case isTrue hlast =>
    have hfield : (@unpackExponent Format.binary64 b).toNat = 2047 := congrArg BitVec.toNat hlast
    rw [hfield]
    split
    case isTrue hzero =>
      have hfraction : (@unpackMantissa Format.binary64 b).toNat = 0 := congrArg BitVec.toNat hzero
      rw [hfraction]
      exact .infinite _
    case isFalse hsome => exact .nan _ fun h => hsome (BitVec.eq_of_toNat_eq h)
  case isFalse hfinite =>
    have hlast : (@unpackExponent Format.binary64 b).toNat ≠ 2047 :=
      fun h => hfinite (BitVec.eq_of_toNat_eq h)
    split
    case isTrue hfirst =>
      have hfield : (@unpackExponent Format.binary64 b).toNat = 0 := congrArg BitVec.toNat hfirst
      rw [hfield]
      split
      case isTrue hzero =>
        have hfraction : (@unpackMantissa Format.binary64 b).toNat = 0 := congrArg BitVec.toNat hzero
        rw [hfraction]
        exact .zero _
      case isFalse hsome =>
        have hpos := Nat.pos_of_ne_zero fun h => hsome (BitVec.eq_of_toNat_eq h)
        exact .subnormal _ hpos hlow
    case isFalse hfirst =>
      have hpos : 0 < (@unpackExponent Format.binary64 b).toNat :=
        Nat.pos_of_ne_zero fun h => hfirst (BitVec.eq_of_toNat_eq h)
      have hstored : Stored (2 ^ 52 + (@unpackMantissa Format.binary64 b).toNat)
          ((@unpackExponent Format.binary64 b).toNat - 1075) :=
        ⟨⟨(Nat.log2_eq_iff (by omega)).2 (by omega), by omega⟩, by omega⟩
      have himplicit : (1#1 ++ @unpackMantissa Format.binary64 b).toNat =
          2 ^ 52 + (@unpackMantissa Format.binary64 b).toNat := toNat_implicit _
      simp only [himplicit]
      exact .normal _ hstored hpos

theorem decoded_float (x : Float) :
    ∃ fraction field s, Decoded fraction field s x.toModel.unpack :=
  ⟨_, _, _, decoded_unpack x.toModel.toBits.toBitVec⟩

/-- A coefficient has 53 bits, unless the exponent is the least. -/
theorem unpack_bounds_double {x : Float} {s : Sign} {m : Nat} {e : Int} {hm : 0 < m}
    (h : x.toModel.unpack = .finite s m e hm) : m < 2 ^ 53 ∧ (e = -1074 ∨ Stored m e) := by
  obtain ⟨fraction, field, sign, hkind⟩ := decoded_float x
  rw [h] at hkind
  cases hkind with
  | subnormal _ _ hless => exact ⟨hless.trans (by decide), .inl rfl⟩
  | normal _ hstored _ => exact ⟨hstored.bounds.2, .inr hstored⟩

/-! ## Readings -/

/-- What is read of a value. -/
inductive Reads : UnpackedFloat → Reading → Prop where
  | nan : Reads .notANumber .nan
  | infinite (s : Sign) : Reads (.infinity s) (.infinite (s == .negative))
  | zero (s : Sign) : Reads (.zero s) (.finite (s == .negative) ⟨0, -1074, false⟩)
  | finite (s : Sign) (m : Nat) (e : Int) (h : 0 < m) (narrow : Bool) :
      Reads (.finite s m e h) (.finite (s == .negative) ⟨m, e, narrow⟩)

theorem read_double (bits : Nat) : Format.double.read bits =
    if bits / 2 ^ 52 % 2 ^ 11 = 2047 then
      if bits % 2 ^ 52 = 0 then .infinite (bits.testBit 63) else .nan
    else if bits / 2 ^ 52 % 2 ^ 11 = 0 then
      .finite (bits.testBit 63) ⟨bits % 2 ^ 52, -1074, false⟩
    else
      .finite (bits.testBit 63) ⟨2 ^ 52 + bits % 2 ^ 52,
        -1074 + (bits / 2 ^ 52 % 2 ^ 11 - 1 : Nat),
        bits % 2 ^ 52 == 0 && 1 < bits / 2 ^ 52 % 2 ^ 11⟩ := rfl

/-- **What is read** of a double is its value. -/
theorem reads_ofFloat (x : Float) : Reads x.toModel.unpack (ofFloat x) := by
  have hread : ofFloat x = Format.double.read x.toModel.toBits.toBitVec.toNat := rfl
  have hunpack : x.toModel.unpack =
      UnpackedFloat.unpack Format.binary64 x.toModel.toBits.toBitVec := rfl
  rw [hread, hunpack, read_double]
  generalize x.toModel.toBits.toBitVec = b
  have hkind := decoded_unpack b
  rw [testBit_sign b]
  generalize UnpackedFloat.unpack Format.binary64 b = value at hkind ⊢
  generalize b.toNat % 2 ^ 52 = fraction at hkind ⊢
  generalize b.toNat / 2 ^ 52 % 2 ^ 11 = field at hkind ⊢
  generalize Sign.ofBitVec (@unpackSign Format.binary64 b) = s at hkind ⊢
  cases hkind with
  | infinite => exact .infinite s
  | nan _ hsome => rw [if_pos rfl, if_neg hsome]; exact .nan
  | zero => exact .zero s
  | subnormal _ hpos => exact .finite s _ _ hpos false
  | normal _ hstored hpos =>
    have hlast := hstored.last
    have hexponent : -1074 + (field - 1 : Nat) = (field - 1075 : Int) := by omega
    rw [if_neg (by omega), if_neg hpos.ne', hexponent]
    exact .finite s _ _ hstored.pos _

/-! ## Rounding -/

/-- **Rounding** is by the number that is meant. -/
theorem Magnitude.round_eq (m : Magnitude) :
    m.round = ⌊(m.coefficient : ℚ) * 2 ^ m.exponent + 1 / 2⌋₊ := by
  unfold Magnitude.round
  split
  case isTrue h =>
    obtain ⟨k, hk⟩ := Int.eq_ofNat_of_zero_le h
    have hwhole : (m.coefficient : ℚ) * 2 ^ m.exponent = (m.coefficient * 2 ^ k : Nat) := by
      rw [hk]; push_cast; rfl
    rw [hwhole, add_comm, Nat.floor_add_natCast (by norm_num),
      Nat.floor_eq_zero.2 (by norm_num), Nat.zero_add, hk]
    rfl
  case isFalse h =>
    obtain ⟨k, hk⟩ : ∃ k : Nat, m.exponent = -k := ⟨(-m.exponent).toNat, by omega⟩
    have hhalf : (m.coefficient : ℚ) * 2 ^ m.exponent + 1 / 2 =
        (2 * m.coefficient + 2 ^ k : Nat) / (2 ^ k * 2 : Nat) := by
      rw [hk, zpow_neg, zpow_natCast]
      push_cast
      field_simp
    rw [hhalf, Nat.floor_div_eq_div, ← Nat.div_div_eq_div_mul, Nat.add_div_right _ (Nat.two_pow_pos k), hk]
    simp

theorem roundSaturating_le (limit : Nat) (x : Float) : roundSaturating limit x ≤ limit := by
  unfold roundSaturating
  split
  · exact Nat.zero_le _
  · exact Nat.zero_le _
  · exact Nat.zero_le _
  · exact Nat.le_refl _
  · exact Nat.min_le_right _ _

/-- A number is rounded to the nearest natural number, a half upwards, as far as the limit
    goes. -/
theorem roundSaturating_eq {x : Float} {q : ℚ} (h : rational? x.toModel.unpack = some q)
    (limit : Nat) : roundSaturating limit x = min ⌊q + 1 / 2⌋₊ limit := by
  have hreads := reads_ofFloat x
  unfold roundSaturating
  generalize ofFloat x = reading at hreads ⊢
  obtain ⟨s, hx, rfl⟩ | ⟨m, e, hm, hx, rfl, -⟩ | ⟨m, e, hm, hx, hneg⟩ := rational?_cases h <;>
    rw [hx] at hreads <;> cases hreads
  · have hround : (⟨0, -1074, false⟩ : Magnitude).round = ⌊(0 : ℚ) + 1 / 2⌋₊ := by
      rw [Magnitude.round_eq, Nat.cast_zero, zero_mul]
    have hfloor : ⌊(0 : ℚ) + 1 / 2⌋₊ = 0 := Nat.floor_eq_zero.2 (by norm_num)
    cases s with
    | positive => exact congrArg (min · limit) hround
    | negative => rw [hfloor, Nat.zero_min]; rfl
  · exact congrArg (min · limit) (Magnitude.round_eq _)
  · rw [Nat.floor_eq_zero.2 (by linarith), Nat.zero_min]
    rfl

theorem roundSaturating_infinity {x : Float} {s : Sign} (h : x.toModel.unpack = .infinity s)
    (limit : Nat) : roundSaturating limit x = if s == .positive then limit else 0 := by
  have hreads := reads_ofFloat x
  unfold roundSaturating
  generalize ofFloat x = reading at hreads ⊢
  rw [h] at hreads
  cases hreads
  cases s <;> rfl

theorem roundSaturating_nan {x : Float} (h : x.toModel.unpack = .notANumber) (limit : Nat) :
    roundSaturating limit x = 0 := by
  have hreads := reads_ofFloat x
  unfold roundSaturating
  generalize ofFloat x = reading at hreads ⊢
  rw [h] at hreads
  cases hreads
  rfl

end SidPlayback.Decimal
