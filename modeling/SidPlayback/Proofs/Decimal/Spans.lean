/-
  The shortest digits of a double.

  The search runs over seventeen decimal grids, the last of which is fine enough: its point next
  to the number lies within the span.  So the digits that are written recall the number.

  * `Decimal.Span.contains_iff`: a point of a grid is in the span if it recalls the magnitude;
  * `Decimal.Span.isSome_onGrid`: on a fine grid there is such a point;
  * `Decimal.Span.search_spec`: the search ends with such a point, on the first fine grid at the
    latest;
  * `Decimal.Shortest` is what is known of the result, and `Decimal.shortest_search` that it is
    known.
-/
import SidPlayback.Decimal.Shortest
import SidPlayback.Proofs.Decimal.Recall

namespace SidPlayback.Decimal

theorem pow_toNat_eq {b : ℚ} (hb : b ≠ 0) (p : ℤ) : b ^ p.toNat = b ^ p * b ^ (-p).toNat := by
  rcases le_total 0 p with hp | hp
  · obtain ⟨n, rfl⟩ := Int.eq_ofNat_of_zero_le hp
    simp
  · obtain ⟨n, hn⟩ := Int.eq_ofNat_of_zero_le (Int.neg_nonneg.2 hp)
    obtain rfl : p = -n := by omega
    simp [hb]

namespace Span

/-! ## Spans of magnitudes -/

section
variable (x : Magnitude) (p : ℤ)

/-- The common denominator of a span in units of `10 ^ p`. -/
def scale : ℚ := (ofMagnitude x).denominator * 10 ^ (-p).toNat

theorem scale_pos : 0 < scale x p := by
  have hpos : 0 < (ofMagnitude x).denominator := Nat.two_pow_pos _
  unfold scale
  positivity

theorem denominator_inUnits : (((ofMagnitude x).inUnits p).denominator : ℚ) = 10 ^ p * scale x p := by
  have hunits : ((ofMagnitude x).inUnits p).denominator = (ofMagnitude x).denominator * 10 ^ p.toNat := rfl
  rw [hunits, Nat.cast_mul, Nat.cast_pow, Nat.cast_ofNat, pow_toNat_eq (by norm_num), scale]
  ring

/-- The numerators of a span are multiples of a quarter of the unit. -/
theorem quarters (n : ℕ) : ((n * 2 ^ (x.exponent - 2).toNat * 10 ^ (-p).toNat : ℕ) : ℚ) =
    n / 4 * 2 ^ x.exponent * scale x p := by
  have hdenominator : (ofMagnitude x).denominator = 2 ^ (-(x.exponent - 2)).toNat := rfl
  rw [scale, hdenominator]
  push_cast
  rw [pow_toNat_eq (by norm_num) (x.exponent - 2), zpow_sub₀ (by norm_num)]
  ring

theorem value_inUnits : (((ofMagnitude x).inUnits p).value : ℚ) =
    x.coefficient * 2 ^ x.exponent * scale x p := by
  refine (quarters x p (4 * x.coefficient)).trans ?_
  push_cast
  ring

/-- The number itself, in units of `10 ^ p`. -/
theorem number_inUnits : (((ofMagnitude x).inUnits p).value : ℚ) / ((ofMagnitude x).inUnits p).denominator =
    x.coefficient * 2 ^ x.exponent / 10 ^ p := by
  rw [value_inUnits, denominator_inUnits, mul_div_mul_right _ _ (scale_pos x p).ne']

theorem high_inUnits : (((ofMagnitude x).inUnits p).high : ℚ) =
    (x.coefficient + 1 / 2) * 2 ^ x.exponent * scale x p := by
  refine (quarters x p (4 * x.coefficient + 2)).trans ?_
  push_cast
  ring

theorem low_inUnits (hpos : 0 < x.coefficient) : (((ofMagnitude x).inUnits p).low : ℚ) =
    (x.coefficient - x.slack) * 2 ^ x.exponent * scale x p := by
  refine (quarters x p (4 * x.coefficient - if x.narrowBelow then 1 else 2)).trans ?_
  rw [Magnitude.slack]
  split <;>
  · rw [Nat.cast_sub (by omega)]
    push_cast
    ring

end

variable {x : Magnitude}

/-- **The points of a grid** that are in the span of a magnitude recall it. -/
theorem contains_iff (hpos : 0 < x.coefficient) (p : ℤ) (c : ℕ) :
    ((ofMagnitude x).inUnits p).contains c = true ↔ Recalls x (c * 10 ^ p) := by
  have hunit : (0 : ℚ) < 2 ^ x.exponent := by positivity
  have hpoint : ((c * ((ofMagnitude x).inUnits p).denominator : ℕ) : ℚ) = c * 10 ^ p * scale x p := by
    rw [Nat.cast_mul, denominator_inUnits, mul_assoc]
  have hclosed : ((ofMagnitude x).inUnits p).closed = true ↔ Even x.coefficient := by
    rw [Nat.even_iff]
    exact beq_iff_eq
  unfold contains
  simp only [← Nat.cast_le (α := ℚ), ← Nat.cast_lt (α := ℚ), Bool.and_eq_true, decide_eq_true_eq,
    apply_ite (· = true), hclosed, hpoint, low_inUnits x p hpos, high_inUnits,
    mul_le_mul_iff_left₀ (scale_pos x p), mul_lt_mul_iff_left₀ (scale_pos x p),
    ← le_div_iff₀ hunit, ← div_le_iff₀ hunit, ← lt_div_iff₀ hunit, ← div_lt_iff₀ hunit]
  split
  case isTrue heven =>
    exact ⟨fun h => ⟨h.1, h.2, fun hodd => absurd heven hodd⟩, fun h => ⟨h.low, h.high⟩⟩
  case isFalse hodd =>
    exact ⟨fun h => ⟨h.1.le, h.2.le, fun _ => h⟩, fun h => h.inner hodd⟩

/-! ## Grids -/

/-- On a grid that is fine enough for a magnitude, the nearest point is in its span. -/
def Fine (x : Magnitude) (p : ℤ) : Prop := (10 : ℚ) ^ p / 2 < x.slack * 2 ^ x.exponent

theorem recalls_of_near {d : ℚ} (hnear : |d - x.coefficient * 2 ^ x.exponent| < x.slack * 2 ^ x.exponent) :
    Recalls x d := by
  have hunit : (0 : ℚ) < 2 ^ x.exponent := by positivity
  have hslack := x.slack_cases
  have hstrict : x.coefficient - x.slack < d / 2 ^ x.exponent ∧
      d / 2 ^ x.exponent < x.coefficient + 1 / 2 := by
    rw [abs_lt] at hnear
    rw [lt_div_iff₀ hunit, div_lt_iff₀ hunit]
    constructor
    · linarith
    · nlinarith
  exact ⟨hstrict.1.le, hstrict.2.le, fun _ => hstrict⟩

/-- A point next to the value is tried first, and then the points around the value. -/
theorem pick_eq (tie : Tie) (s : Span) (hpos : 0 < s.denominator) : ∃ nearer : ℕ,
    nearer ≤ s.value / s.denominator + 1 ∧
    |(nearer : ℚ) * s.denominator - s.value| ≤ s.denominator / 2 ∧
    s.pick tie =
      if s.contains nearer then some nearer
      else if s.contains (s.value / s.denominator) then some (s.value / s.denominator)
      else if s.contains (s.value / s.denominator + 1) then some (s.value / s.denominator + 1)
      else none := by
  have hsplit : (s.denominator : ℚ) * (s.value / s.denominator : ℕ) + (s.value % s.denominator : ℕ) =
      s.value := by exact_mod_cast Nat.div_add_mod s.value s.denominator
  have hless : ((s.value % s.denominator : ℕ) : ℚ) < s.denominator := by
    exact_mod_cast Nat.mod_lt s.value hpos
  have hrest : (0 : ℚ) ≤ (s.value % s.denominator : ℕ) := Nat.cast_nonneg _
  have hbelow (h : 2 * (s.value % s.denominator) ≤ s.denominator) :
      |((s.value / s.denominator : ℕ) : ℚ) * s.denominator - s.value| ≤ s.denominator / 2 := by
    have hhalf : (2 : ℚ) * (s.value % s.denominator : ℕ) ≤ s.denominator := by exact_mod_cast h
    rw [abs_le]
    constructor <;> linarith
  have habove (h : s.denominator ≤ 2 * (s.value % s.denominator)) :
      |((s.value / s.denominator + 1 : ℕ) : ℚ) * s.denominator - s.value| ≤ s.denominator / 2 := by
    have hhalf : (s.denominator : ℚ) ≤ 2 * (s.value % s.denominator : ℕ) := by exact_mod_cast h
    push_cast
    rw [abs_le]
    constructor <;> linarith
  rcases Nat.lt_trichotomy (2 * (s.value % s.denominator)) s.denominator with hlt | heq | hgt
  · exact ⟨s.value / s.denominator, Nat.le_succ _, hbelow hlt.le, by simp only [pick, if_pos hlt]⟩
  · obtain ⟨nearer, hnearer, hpick⟩ : ∃ nearer,
        (nearer = s.value / s.denominator ∨ nearer = s.value / s.denominator + 1) ∧
        s.pick tie = if s.contains nearer then some nearer
          else if s.contains (s.value / s.denominator) then some (s.value / s.denominator)
          else if s.contains (s.value / s.denominator + 1) then some (s.value / s.denominator + 1)
          else none := by
      simp only [pick, heq, lt_irrefl, if_false]
      cases tie with
      | even =>
        exact ⟨s.value / s.denominator + s.value / s.denominator % 2, by omega, rfl⟩
      | upward => exact ⟨_, .inr rfl, rfl⟩
    refine ⟨nearer, by omega, ?_, hpick⟩
    rcases hnearer with rfl | rfl
    · exact hbelow heq.le
    · exact habove heq.ge
  · exact ⟨s.value / s.denominator + 1, le_rfl, habove hgt.le,
      by simp only [pick, if_neg hgt.not_gt, if_pos hgt]⟩

/-- What is picked is the value cut off or one more, and is in the span. -/
theorem pick_spec {tie : Tie} {s : Span} (hpos : 0 < s.denominator) {c : ℕ} (h : s.pick tie = some c) :
    s.contains c = true ∧ c ≤ s.value / s.denominator + 1 := by
  obtain ⟨nearer, hbound, -, hpick⟩ := pick_eq tie s hpos
  rw [hpick] at h
  split at h
  case isTrue hnearer => cases h; exact ⟨hnearer, hbound⟩
  case isFalse =>
    split at h
    case isTrue hbelow => cases h; exact ⟨hbelow, Nat.le_succ _⟩
    case isFalse =>
      split at h
      case isTrue habove => cases h; exact ⟨habove, le_rfl⟩
      case isFalse => cases h

/-- On a fine grid a point is found. -/
theorem isSome_onGrid (tie : Tie) (hpos : 0 < x.coefficient) {p : ℤ} (h : Fine x p) :
    ((ofMagnitude x).onGrid tie p).isSome = true := by
  have hscale := scale_pos x p
  have hdenominator : 0 < ((ofMagnitude x).inUnits p).denominator := by
    have : (0 : ℚ) < ((ofMagnitude x).inUnits p).denominator := by
      rw [denominator_inUnits]
      positivity
    exact_mod_cast this
  obtain ⟨nearer, -, hnear, hpick⟩ := pick_eq tie ((ofMagnitude x).inUnits p) hdenominator
  have hcontains : ((ofMagnitude x).inUnits p).contains nearer = true := by
    rw [contains_iff hpos]
    refine recalls_of_near (lt_of_le_of_lt ?_ h)
    rw [denominator_inUnits, value_inUnits, ← mul_assoc, ← sub_mul, abs_mul, abs_of_pos hscale,
      mul_div_right_comm, mul_le_mul_iff_left₀ hscale] at hnear
    exact hnear
  rw [onGrid, hpick, if_pos hcontains]
  rfl

/-- **The search** ends on a grid with a point, if there is one within the steps. -/
theorem search_spec (tie : Tie) (s : Span) {steps k : ℕ} (hk : k < steps) (p : ℤ)
    (h : (s.onGrid tie (p - k)).isSome = true) :
    ∃ c p', s.search tie steps p = (c, p') ∧ s.onGrid tie p' = some c ∧ p - k ≤ p' ∧ p' ≤ p := by
  induction steps generalizing k p with
  | zero => omega
  | succ steps ih =>
    rw [search]
    cases hgrid : s.onGrid tie p with
    | some c => exact ⟨c, p, rfl, hgrid, by omega, le_rfl⟩
    | none =>
      obtain _ | k := k
      · rw [Nat.cast_zero, sub_zero, hgrid] at h
        cases h
      · have hplace : p - 1 - k = p - (k + 1 : ℕ) := by push_cast; ring
        obtain ⟨c, p', hsearch, hfound, hlow, hhigh⟩ := ih (by omega) (p - 1) (hplace ▸ h)
        exact ⟨c, p', hsearch, hfound, by omega, by omega⟩

/-! ## Seventeen digits -/

theorem length_toDigits_bounds {n : ℕ} (hn : 0 < n) :
    10 ^ ((Nat.toDigits 10 n).length - 1) ≤ n ∧ n < 10 ^ (Nat.toDigits 10 n).length := by
  have hlength := Nat.length_toDigits_pos (b := 10) (n := n)
  refine ⟨?_, (Nat.length_toDigits_le_iff (by decide) hlength).1 le_rfl⟩
  rcases Nat.eq_zero_or_pos ((Nat.toDigits 10 n).length - 1) with hzero | hpos
  · rw [hzero]
    exact hn
  · by_contra hless
    have := (Nat.length_toDigits_le_iff (b := 10) (by decide) hpos).2 (not_le.1 hless)
    omega

/-- The width of a number is the least power of ten above it. -/
theorem width_spec {s : Span} (hvalue : 0 < s.value) (hpos : 0 < s.denominator) :
    (10 : ℚ) ^ (s.width - 1) ≤ s.value / s.denominator ∧
      (s.value : ℚ) / s.denominator < 10 ^ s.width := by
  have hd : (0 : ℚ) < s.denominator := by exact_mod_cast hpos
  have hv : (0 : ℚ) < s.value := by exact_mod_cast hvalue
  unfold width
  dsimp only
  split
  case isTrue hle =>
    obtain ⟨hlow, hhigh⟩ := length_toDigits_bounds (Nat.div_pos hle hpos)
    have hlength := Nat.length_toDigits_pos (b := 10) (n := s.value / s.denominator)
    set k := (Nat.toDigits 10 (s.value / s.denominator)).length with hk
    rw [Nat.le_div_iff_mul_le hpos] at hlow
    rw [Nat.div_lt_iff_lt_mul hpos] at hhigh
    have hplace : (k : ℤ) - 1 = (k - 1 : ℕ) := by omega
    rw [le_div_iff₀ hd, div_lt_iff₀ hd, hplace, zpow_natCast, zpow_natCast]
    exact ⟨by exact_mod_cast hlow, by exact_mod_cast hhigh⟩
  case isFalse hgt =>
    have hquotient : 0 < (s.denominator - 1) / s.value := Nat.div_pos (by omega) hvalue
    obtain ⟨hlow, hhigh⟩ := length_toDigits_bounds hquotient
    have hlength := Nat.length_toDigits_pos (b := 10) (n := (s.denominator - 1) / s.value)
    set k := (Nat.toDigits 10 ((s.denominator - 1) / s.value)).length with hk
    rw [Nat.le_div_iff_mul_le hvalue] at hlow
    rw [Nat.div_lt_iff_lt_mul hvalue] at hhigh
    have hplace : (1 : ℤ) - k = -(k - 1 : ℕ) := by omega
    have hplace' : (1 : ℤ) - k - 1 = -(k : ℕ) := by omega
    rw [hplace', hplace, zpow_neg, zpow_neg, zpow_natCast, zpow_natCast, ← one_div, ← one_div,
      div_le_div_iff₀ (by positivity) hd, div_lt_div_iff₀ hd (by positivity)]
    have hlow' : (10 ^ (k - 1) * s.value : ℕ) < s.denominator := by omega
    have hhigh' : s.denominator ≤ 10 ^ k * s.value := by omega
    constructor
    · rw [one_mul, mul_comm]
      exact_mod_cast hhigh'
    · rw [one_mul, mul_comm]
      exact_mod_cast hlow'

end Span

open Float.Model

/-- What is known of the digits and the grid that are found for a double. -/
structure Shortest (x : Magnitude) (c : ℕ) (p : ℤ) : Prop where
  recalls : Recalls x (c * 10 ^ p)
  digits : c ≤ 10 ^ 17
  least : -324 ≤ p

/-- No double is below the grid `10 ^ -324`. -/
theorem least_grid_lt : (10 : ℚ) ^ (-324 : ℤ) < 2 ^ (-1074 : ℤ) := by
  have hpow : 2 ^ 1074 < 10 ^ 324 := by decide +kernel
  rw [zpow_neg, zpow_neg, inv_lt_inv₀ (by positivity) (by positivity)]
  exact_mod_cast hpow

section
variable {x : Magnitude} (hx : x.Of Format.binary64)
include hx

/-- Seventeen digits are fine enough. -/
theorem fine_of_width {w : ℤ} (hw : (10 : ℚ) ^ (w - 1) ≤ x.coefficient * 2 ^ x.exponent) :
    Span.Fine x (w - 17) := by
  have hunit : (0 : ℚ) < 2 ^ x.exponent := by positivity
  have hsplit : (10 : ℚ) ^ (w - 17) = 10 ^ (w - 1) / 10 ^ 16 := by
    rw [show w - 17 = w - 1 - (16 : ℕ) by push_cast; ring, zpow_sub₀ (by norm_num), zpow_natCast]
  have hslack : (x.coefficient : ℚ) / 10 ^ 16 / 2 < x.slack := by
    unfold Magnitude.slack
    split
    case isTrue hnarrow =>
      have hcoefficient : (x.coefficient : ℚ) = 2 ^ 52 := by exact_mod_cast (hx.narrow.1 hnarrow).1
      rw [hcoefficient]
      norm_num
    case isFalse =>
      have hbits : (x.coefficient : ℚ) < 2 ^ 53 := by exact_mod_cast hx.bits
      rw [div_div, div_lt_iff₀ (by norm_num)]
      norm_num at hbits ⊢
      linarith
  rw [Span.Fine, hsplit]
  calc (10 : ℚ) ^ (w - 1) / 10 ^ 16 / 2 ≤ (x.coefficient : ℚ) * 2 ^ x.exponent / 10 ^ 16 / 2 := by
        gcongr
    _ = (x.coefficient : ℚ) / 10 ^ 16 / 2 * 2 ^ x.exponent := by ring
    _ < x.slack * 2 ^ x.exponent := by gcongr

/-- The grid below all doubles is fine enough. -/
theorem fine_least : Span.Fine x (-324) := by
  have hleast : -1074 ≤ x.exponent := hx.least
  have hgrid := least_grid_lt
  have hslack : (2 : ℚ) ^ (-1074 : ℤ) / 2 ≤ x.slack * 2 ^ x.exponent := by
    unfold Magnitude.slack
    split
    case isTrue hnarrow =>
      have hne : x.exponent ≠ -1074 := (hx.narrow.1 hnarrow).2
      have hmore : (2 : ℚ) ^ (-1074 + 1 : ℤ) ≤ 2 ^ x.exponent :=
        zpow_le_zpow_right₀ one_le_two (by omega)
      rw [zpow_add_one₀ (by norm_num)] at hmore
      linarith
    case isFalse =>
      have hmore : (2 : ℚ) ^ (-1074 : ℤ) ≤ 2 ^ x.exponent := zpow_le_zpow_right₀ one_le_two hleast
      linarith
  rw [Span.Fine]
  linarith

/-- **The digits that are found** recall the double, and are seventeen at most. -/
theorem shortest_search (tie : Tie) : ∃ c p,
    (Span.ofMagnitude x).search tie 17 ((Span.ofMagnitude x).width - 1) = (c, p) ∧ Shortest x c p := by
  set s := Span.ofMagnitude x with hs
  have hunit : (0 : ℚ) < 2 ^ x.exponent := by positivity
  have hcoefficient : (0 : ℚ) < x.coefficient := by exact_mod_cast hx.pos
  have hpos : 0 < s.denominator := Nat.two_pow_pos _
  have hvalue : 0 < s.value :=
    Nat.mul_pos (Nat.mul_pos (by decide) hx.pos) (Nat.two_pow_pos _)
  have hnumber : (s.value : ℚ) / s.denominator = x.coefficient * 2 ^ x.exponent := by
    have hunits : s.inUnits 0 = s := by simp [Span.inUnits]
    have hzero := Span.number_inUnits x 0
    rwa [← hs, hunits, zpow_zero, div_one] at hzero
  obtain ⟨hlow, hhigh⟩ := Span.width_spec hvalue hpos
  rw [hnumber] at hlow hhigh
  have hwidth : -324 < s.width := by
    have hleast : (2 : ℚ) ^ (-1074 : ℤ) ≤ x.coefficient * 2 ^ x.exponent := by
      have hone : (1 : ℚ) ≤ x.coefficient := by exact_mod_cast hx.pos
      have hexponent : (2 : ℚ) ^ (-1074 : ℤ) ≤ 2 ^ x.exponent := zpow_le_zpow_right₀ one_le_two hx.least
      nlinarith
    rw [← zpow_lt_zpow_iff_right₀ (a := (10 : ℚ)) (by norm_num)]
    exact (least_grid_lt.trans_le hleast).trans hhigh
  -- The last grid that may be tried has seventeen digits, or is the one below all doubles.
  obtain ⟨k, hk, hfine, hleast⟩ : ∃ k : ℕ, k < 17 ∧ Span.Fine x (s.width - 1 - k) ∧
      -324 ≤ s.width - 1 - k ∧ s.width - 17 ≤ s.width - 1 - k := by
    rcases le_total (-307) s.width with hwide | hnarrow
    · refine ⟨16, by decide, ?_, by omega, by omega⟩
      have hplace : s.width - 1 - (16 : ℕ) = s.width - 17 := by omega
      rw [hplace]
      exact fine_of_width hx hlow
    · refine ⟨(s.width + 323).toNat, by omega, ?_, by omega, by omega⟩
      have hplace : s.width - 1 - (s.width + 323).toNat = -324 := by omega
      rw [hplace]
      exact fine_least hx
  obtain ⟨c, p, hsearch, hgrid, hp, -⟩ :=
    Span.search_spec tie s hk (s.width - 1) (Span.isSome_onGrid tie hx.pos hfine)
  have hdenominator : 0 < (s.inUnits p).denominator := Nat.mul_pos hpos (Nat.pow_pos (by decide))
  obtain ⟨hcontains, hbound⟩ := Span.pick_spec hdenominator hgrid
  refine ⟨c, p, hsearch, (Span.contains_iff hx.pos p c).1 hcontains, ?_, by omega⟩
  have hbelow : (s.inUnits p).value / (s.inUnits p).denominator < 10 ^ 17 := by
    rw [Nat.div_lt_iff_lt_mul hdenominator, ← Nat.cast_lt (α := ℚ), Nat.cast_mul, ← div_lt_iff₀
      (by exact_mod_cast hdenominator), Span.number_inUnits]
    calc (x.coefficient : ℚ) * 2 ^ x.exponent / 10 ^ p < 10 ^ s.width / 10 ^ p := by gcongr
      _ = 10 ^ (s.width - p) := (zpow_sub₀ (by norm_num) _ _).symm
      _ ≤ 10 ^ (17 : ℤ) := zpow_le_zpow_right₀ (by norm_num) (by omega)
      _ = (10 ^ 17 : ℕ) := by norm_num
  omega

end
end SidPlayback.Decimal
