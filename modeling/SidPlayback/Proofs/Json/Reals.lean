/-
  Doubles in JSON that are read back, or nearly so.

  A double is written with the shortest digits that recall it, but the digits are not always read
  as the nearest double.  What is read is the same double if its digits are few, and is not far
  from it in any case.

  * `Json.Reloaded` says how far off what is read may be;
  * `Json.scale_recalls`: what is read of the digits of a double;
  * `Json.Codec.returns_real`: every finite double is read back so.
-/
import SidPlayback.Proofs.Json.Codec
import SidPlayback.Proofs.Json.Numerals
import SidPlayback.Proofs.Json.Scaling

namespace SidPlayback.Json

open Decimal Float.Model Float.Model.UnpackedFloat

/-! ## Digits of magnitudes -/

/-- The rank of a magnitude among the doubles. -/
def place (x : Magnitude) : ℕ := rank Format.binary64 x.exponent x.coefficient

/-- A double that is not far from a rank. -/
def Beside (r : ℕ) (y : Float) : Prop :=
  ∃ n < lastRank Format.binary64, Ranked Format.binary64 .positive n y.toModel.unpack ∧
    n ≤ r + 2 ∧ r ≤ n + 2

section
variable {x : Magnitude} (hx : x.Of Format.binary64) (hlast : place x < lastRank Format.binary64)
include hx hlast

theorem exponent_le : x.exponent ≤ 971 := by
  have hleast : -1074 ≤ x.exponent := hx.least
  have hfull := hx.full
  have hmin : Format.binary64.minExponent = -1074 := rfl
  rw [place, rank_double, lastRank_double] at hlast
  by_contra hmore
  replace hfull : 2 ^ 52 ≤ x.coefficient := hfull.resolve_left (by omega)
  omega

/-- No digits of a double are above the powers of ten. -/
theorem recalls_lt {d : ℚ} (h : Recalls x d) : d < 10 ^ (309 : ℤ) := by
  have hbits : (x.coefficient : ℚ) + 1 ≤ 2 ^ 53 := by exact_mod_cast hx.bits
  have hexponent : (2 : ℚ) ^ x.exponent ≤ 2 ^ (971 : ℤ) :=
    zpow_le_zpow_right₀ one_le_two (exponent_le hx hlast)
  have hunits : d ≤ (x.coefficient + 1 / 2) * 2 ^ x.exponent :=
    (div_le_iff₀ (by positivity)).1 h.high
  have hlarge : 2 ^ 1024 < 10 ^ 309 := by decide +kernel
  have hpowers : (2 : ℚ) ^ (1024 : ℤ) < 10 ^ (309 : ℤ) := by exact_mod_cast hlarge
  calc d ≤ (x.coefficient + 1 / 2) * 2 ^ x.exponent := hunits
    _ ≤ 2 ^ (53 : ℤ) * 2 ^ (971 : ℤ) := by
      refine mul_le_mul ?_ hexponent (by positivity) (by positivity)
      norm_num at hbits ⊢
      linarith
    _ = 2 ^ (1024 : ℤ) := (zpow_add₀ (by norm_num) _ _).symm
    _ < 10 ^ (309 : ℤ) := hpowers

/-- **What is read of the digits** of a double is not far from it, and is the double itself if
    they are few. -/
theorem scale_recalls {S : ℕ} {t : ℤ} (h : Recalls x (S * 10 ^ t)) (hdigits : S ≤ 10 ^ 17)
    (hlow : -324 ≤ t) (hroom : place x + 2 < lastRank Format.binary64) :
    ∃ y, scale S t = some y ∧ Beside (place x) y ∧ 
      (S < 2 ^ 53 → -22 ≤ t → t ≤ 22 → Ranked Format.binary64 .positive (place x) y.toModel.unpack) := by
  have hd := h.pos hx
  have hten : (0 : ℚ) < 10 ^ t := by positivity
  have hpos : 0 < S := by
    have : (0 : ℚ) < S := (pos_iff_pos_of_mul_pos hd).2 hten
    exact_mod_cast this
  have hhigh : t ≤ 308 := by
    have hone : (1 : ℚ) ≤ S := by exact_mod_cast hpos
    have hless : (10 : ℚ) ^ t < 10 ^ (309 : ℤ) :=
      (le_mul_of_one_le_left hten.le hone).trans_lt (recalls_lt hx hlast h)
    have := (zpow_lt_zpow_iff_right₀ (a := (10 : ℚ)) (by norm_num)).1 hless
    omega
  obtain ⟨y, q, hy, hclose, hexact, hscale⟩ := scale_close hpos hdigits hlow hhigh
  obtain ⟨E, n, hcut, hn, hfinite, -⟩ := hy.ranked
  obtain ⟨hupper, hlower⟩ := h.near hx (by decide) hclose.nonneg hclose.off hcut hn
  change n ≤ place x + 2 at hupper
  have hranked := hfinite (by omega)
  have hinf : y.isInf = false := by
    show y.toModel.unpack.isInf = false
    generalize y.toModel.unpack = value at hranked
    cases hranked <;> rfl
  refine ⟨y, hscale hinf, ⟨n, by omega, hranked, hupper, hlower⟩, fun hbits hleast hmost => ?_⟩
  have hq := hexact hbits hleast hmost
  rw [hq] at hcut hn
  have heq : n = place x := hn.unique (h.nearest hx hcut)
  exact heq ▸ hranked

/-- The digits that are searched for a double, and what is known of them. -/
theorem numeral_eq : ∃ c p, x.numeral .even = .ofScaled c p ∧ Shortest x c p ∧ 0 < c ∧ p ≤ 308 := by
  obtain ⟨c, p, hsearch, hshortest⟩ := shortest_search hx .even
  have hd := hshortest.recalls.pos hx
  have hten : (0 : ℚ) < 10 ^ p := by positivity
  have hpos : 0 < c := by
    have : (0 : ℚ) < c := (pos_iff_pos_of_mul_pos hd).2 hten
    exact_mod_cast this
  refine ⟨c, p, ?_, hshortest, hpos, ?_⟩
  · rw [Magnitude.numeral, if_neg hx.pos.ne']
    simp only [hsearch]
  · have hone : (1 : ℚ) ≤ c := by exact_mod_cast hpos
    have hless : (10 : ℚ) ^ p < 10 ^ (309 : ℤ) :=
      (le_mul_of_one_le_left hten.le hone).trans_lt (recalls_lt hx hlast hshortest.recalls)
    have := (zpow_lt_zpow_iff_right₀ (a := (10 : ℚ)) (by norm_num)).1 hless
    omega

end

/-! ## The largest doubles -/

/-- The largest double. -/
def largest : Float := Float.ofBits 0x7fefffffffffffff

theorem ranked_largest : Ranked Format.binary64 .positive (2047 * 2 ^ 52 - 1) largest.toModel.unpack :=
  Ranked.finite (m := 2 ^ 53 - 1) (e := 971) ⟨by decide, by decide, by decide, by decide⟩

/-- The digits of the largest doubles are read as the largest one. -/
theorem scale_largest : ∀ k < 2,
    let n := (⟨2 ^ 53 - 2 + k, 971, false⟩ : Magnitude).numeral .even
    n.digits.length = 17 ∧ n.point = 309 ∧
      (scale (digitsOf n) 292).map Float.toBits = some 0x7fefffffffffffff := by
  decide +kernel

section
variable {x : Magnitude} (hx : x.Of Format.binary64)
include hx

/-- The magnitudes that might be read as infinite. -/
theorem eq_largest (hlast : place x < lastRank Format.binary64)
    (hroom : ¬ place x + 2 < lastRank Format.binary64) :
    ∃ k < 2, x = ⟨2 ^ 53 - 2 + k, 971, false⟩ ∧ place x = 2047 * 2 ^ 52 - 2 + k := by
  have hexponent := exponent_le hx hlast
  have hleast : -1074 ≤ x.exponent := hx.least
  have hbits : x.coefficient < 2 ^ 53 := hx.bits
  have hnarrow := hx.narrow
  rw [place, rank_double, lastRank_double] at hlast hroom
  obtain ⟨m, e, narrow⟩ := x
  dsimp only at hexponent hleast hbits hlast hroom hnarrow
  obtain rfl : e = 971 := by omega
  refine ⟨m - (2 ^ 53 - 2), by omega, ?_, ?_⟩
  · have hm : 2 ^ 53 - 2 + (m - (2 ^ 53 - 2)) = m := by omega
    have hwide : narrow = false := by
      rw [← Bool.not_eq_true, hnarrow]
      intro h
      have : m = 2 ^ 52 := h.1
      omega
    rw [hm, hwide]
  · rw [place, rank_double]
    dsimp only
    omega

end

/-! ## Written magnitudes -/

/-- What is known of the numeral of a magnitude, and of what is read of it. -/
structure Written (x : Magnitude) : Prop where
  proper : Proper (x.numeral .even)
  digits : digitsOf (x.numeral .even) ≤ 10 ^ 17
  point : ((x.numeral .even).point - 1).natAbs < 2 ^ 30
  scaled : ∀ s, Spelled (x.numeral .even) s → ∃ y, scale s.significand s.power = some y ∧
    Beside (place x) y ∧
    ((x.numeral .even).Short → Ranked Format.binary64 .positive (place x) y.toModel.unpack)

theorem scale_zero : ∀ t ∈ [(0 : ℤ), -1], (scale 0 t).map Float.toBits = some 0 := by decide +kernel

theorem written_zero : Written ⟨0, -1074, false⟩ := by
  have hproper : Proper .zero := ⟨digits_toDigits 0, fun _ => rfl⟩
  have hplace : place ⟨0, -1074, false⟩ = 0 := rfl
  refine ⟨hproper, by decide, by decide, fun s hs => ?_⟩
  have hscale : (scale s.significand s.power).map Float.toBits = some 0 := by
    rcases hs.collected hproper with ⟨hS, hp⟩ | ⟨hS, hp, -⟩ <;> rw [hS, hp]
    · exact scale_zero 0 (by decide)
    · exact scale_zero (-1) (by decide)
  obtain ⟨y, hy, hbits⟩ := Option.map_eq_some_iff.1 hscale
  obtain rfl : y = Float.ofBits 0 := eq_of_toBits (congrArg UInt64.toNat hbits)
  have hranked : Ranked Format.binary64 .positive 0 (Float.ofBits 0).toModel.unpack := .zero
  rw [hplace]
  exact ⟨_, hy, ⟨0, by decide, hranked, Nat.zero_le _, Nat.zero_le _⟩, fun _ => hranked⟩

section
variable {x : Magnitude} (hx : x.Of Format.binary64) (hlast : place x < lastRank Format.binary64)
include hx hlast

/-- What is read of a magnitude that is not one of the largest. -/
theorem scale_shortest (hroom : place x + 2 < lastRank Format.binary64) {c : ℕ} {p : ℤ}
    (hshortest : Shortest x c p) (hpos : 0 < c) (hdigits : digitsOf (.ofScaled c p) ≤ 10 ^ 17)
    {s : Spelling} (hs : Spelled (.ofScaled c p) s) :
    ∃ y, scale s.significand s.power = some y ∧ Beside (place x) y ∧
      ((Numeral.ofScaled c p).Short → Ranked Format.binary64 .positive (place x) y.toModel.unpack) := by
  have hn := proper_ofScaled hpos p
  obtain ⟨k, hc, hplaces⟩ := ofScaled_number hpos p
  have hnumber : (s.significand : ℚ) * 10 ^ s.power = c * 10 ^ p := by
    rw [hs.number hn, hplaces, zpow_add₀ (by norm_num), zpow_natCast, ← mul_assoc]
    congr 1
    exact_mod_cast hc.symm
  have hlow : -324 ≤ s.power := by
    have hleast := hshortest.least
    rcases hs.collected hn with ⟨-, hp⟩ | ⟨-, hp, -⟩
    · omega
    · omega
  obtain ⟨y, hscale, hbeside, hexact⟩ := scale_recalls hx hlast (hnumber ▸ hshortest.recalls)
    (hs.significand_le hn hdigits) hlow hroom
  refine ⟨y, hscale, hbeside, fun hshort => ?_⟩
  obtain ⟨hbits, hleast, hmost⟩ := hs.few hn hshort
  exact hexact hbits hleast hmost

/-- What is read of the largest magnitudes. -/
theorem scale_of_largest (hroom : ¬ place x + 2 < lastRank Format.binary64) {s : Spelling}
    (hs : Spelled (x.numeral .even) s) (hn : Proper (x.numeral .even)) :
    ∃ y, scale s.significand s.power = some y ∧ Beside (place x) y ∧
      ((x.numeral .even).Short → Ranked Format.binary64 .positive (place x) y.toModel.unpack) := by
  obtain ⟨k, hk, rfl, hplace⟩ := eq_largest hx hlast hroom
  obtain ⟨hlength, hpoint, hscale⟩ := scale_largest k hk
  obtain ⟨y, hy, hbits⟩ := Option.map_eq_some_iff.1 hscale
  obtain rfl : y = largest := eq_of_toBits (congrArg UInt64.toNat hbits)
  obtain ⟨hS, hp⟩ | ⟨-, -, -, hpoint'⟩ := hs.collected hn
  · have hpower : s.power = 292 := by omega
    refine ⟨largest, by rw [hS, hpower, hy], ⟨_, by decide, ranked_largest, ?_, ?_⟩, fun hshort => ?_⟩
    · omega
    · omega
    · have := hshort.digits
      omega
  · omega

/-- **Magnitudes** are read back, or nearly so. -/
theorem written_of : Written x := by
  obtain ⟨c, p, hnumeral, hshortest, hpos, hp⟩ := numeral_eq hx hlast
  have hn : Proper (x.numeral .even) := hnumeral ▸ proper_ofScaled hpos p
  have hdigits : digitsOf (x.numeral .even) ≤ 10 ^ 17 := by
    obtain ⟨k, hc, -⟩ := ofScaled_number hpos p
    rw [hnumeral]
    exact (Nat.le_mul_of_pos_right _ (Nat.pow_pos (by decide))).trans (hc ▸ hshortest.digits)
  refine ⟨hn, hdigits, ?_, fun s hs => ?_⟩
  · have hlength : (Nat.toDigits 10 c).length ≤ 18 :=
      (Nat.length_toDigits_le_iff (by decide) (by decide)).2 (hshortest.digits.trans_lt (by decide))
    have hpoint : (x.numeral .even).point = (Nat.toDigits 10 c).length + p := by rw [hnumeral]; rfl
    have hleast := hshortest.least
    omega
  · by_cases hroom : place x + 2 < lastRank Format.binary64
    · rw [hnumeral] at hs hdigits ⊢
      exact scale_shortest hx hlast hroom hshortest hpos hdigits hs
    · exact scale_of_largest hx hlast hroom hs hn

end

/-! ## Doubles -/

/-- A double with few digits, in places near the point. -/
def Short (x : Float) : Prop :=
  ∃ negative m, ofFloat x = .finite negative m ∧ (m.numeral .even).Short

/-- What may be read of a double: two bit patterns away at most, and the double itself if it has few
    digits. -/
structure Reloaded (x y : Float) : Prop where
  finite : y.isFinite = true
  above : y.toBits.toNat ≤ x.toBits.toNat + 2
  below : x.toBits.toNat ≤ y.toBits.toNat + 2
  short : Short x → y = x

/-- What is read of a finite double. -/
theorem exists_written {x : Float} (hx : x.isFinite = true) : ∃ s m,
    ofFloat x = .finite (s == .negative) m ∧ Ranked Format.binary64 s (place m) x.toModel.unpack ∧
      Written m := by
  obtain ⟨s, n, hless, hranked⟩ := exists_ranked hx
  have hreads := reads_ofFloat x
  have hof {negative : Bool} {m : Magnitude} := @magnitude_of x negative m
  generalize x.toModel.unpack = value at hranked hreads ⊢
  generalize ofFloat x = reading at hreads hof ⊢
  cases hranked with
  | zero =>
    cases hreads
    exact ⟨s, _, rfl, .zero, written_zero⟩
  | finite hcanonical =>
    cases hreads
    exact ⟨s, _, rfl, .finite hcanonical, written_of (hof rfl hcanonical.pos) hless⟩

/-- What is read has the sign of what was written, and a rank that is the same or near. -/
theorem reloaded_signed {x y : Float} {s : Sign} {n : ℕ} (hx : Ranked Format.binary64 s n x.toModel.unpack)
    (hy : Beside n y) (hshort : Short x → Ranked Format.binary64 .positive n y.toModel.unpack) :
    Reloaded x (if (s == .negative) = true then -y else y) := by
  obtain ⟨n', hless, hranked, hupper, hlower⟩ := hy
  have hsigned : Ranked Format.binary64 s n'
      (if (s == .negative) = true then -y else y).toModel.unpack := by
    cases s with
    | positive => exact hranked
    | negative => exact hranked.neg hless
  have hx' := toNat_toBits hx
  have hy' := toNat_toBits hsigned
  refine ⟨?_, by omega, by omega, fun hfew => ?_⟩
  · show (if (s == .negative) = true then -y else y).toModel.unpack.isFinite = true
    generalize (if (s == .negative) = true then -y else y).toModel.unpack = value at hsigned
    cases hsigned <;> rfl
  · obtain rfl := hranked.rank_unique (hshort hfew)
    exact hsigned.float_eq hx

/-- What is read of a spelling with a sign. -/
theorem yields_real {s : Spelling} (hs : s.WellFormed) {negative : Bool} {y : Float}
    (hvalue : (s.lexeme negative).value = .ok (.real y)) {rest : List Char} (h : Ends rest) :
    Yields Codec.real.read ((if negative then ['-'] else []) ++ s.text ++ rest) y rest := by
  obtain ⟨c, hc, hnumber, hblank⟩ := hs.head? negative rest
  refine (yields_look hc hblank).bind ?_
  simp only [if_pos hnumber]
  have hread : Yields Number.read ((if negative then ['-'] else []) ++ s.text ++ rest) (.real y) rest := by
    refine (hs.yields_read .endInValue negative h).bind ?_
    rw [hvalue]
    exact .pure _ _
  exact hread.bind (.pure y rest)

/-- What is read of a double is what is scaled of its digits, with its sign. -/
theorem returns_scaled {x : Float} {negative : Bool} {m : Magnitude} (hread : ofFloat x = .finite negative m)
    (hwritten : Written m) {s : Spelling} (hs : Spelled (m.numeral .even) s)
    (htext : (Layout.json (-5) 15).numeralText (m.numeral .even) = s.text) {y : Float}
    (hy : scale s.significand s.power = some y) :
    Codec.real.Returns x (if negative = true then -y else y) := fun rest hrest => by
  have hvalue := hs.value hwritten.proper hwritten.digits hwritten.point negative
  rw [hy] at hvalue
  have hwrite : Codec.real.write x = (if negative = true then ['-'] else []) ++ s.text := by
    show (Layout.json (-5) 15).text (ofFloat x) = _
    rw [hread, ← htext]
    rfl
  rw [hwrite]
  exact yields_real (hs.wellFormed hwritten.proper) hvalue hrest

namespace Codec

/-- **Every finite double** is read back, or nearly so. -/
theorem returns_real {x : Float} (hx : x.isFinite = true) : ∃ y, Reloaded x y ∧ real.Returns x y := by
  obtain ⟨sign, m, hread, hranked, hwritten⟩ := exists_written hx
  obtain ⟨s, hs, htext⟩ := exists_spelled (m.numeral .even)
  obtain ⟨y, hy, hbeside, hshort⟩ := hwritten.scaled s hs
  refine ⟨_, reloaded_signed hranked hbeside ?_, returns_scaled hread hwritten hs htext hy⟩
  rintro ⟨negative, m', hread', hfew⟩
  rw [hread] at hread'
  cases hread'
  exact hshort hfew

theorem real_faithful {x : Float} (hx : x.isFinite = true) (hshort : Short x) : real.Faithful x := by
  obtain ⟨y, hy, hreturns⟩ := returns_real hx
  obtain rfl := hy.short hshort
  exact hreturns

end Codec
end SidPlayback.Json
