/-
  Which lists of values are accepted as a panning.

  * `Panning.Accepted` says so of the numbers that the values stand for;
  * `Panning.check_cases`: these are the lists that are accepted, and they are
    accepted as they are.
-/
import Mathlib.Data.Rat.Cast.Order
import SidPlayback.Panning
import SidPlayback.Proofs.Decimal.Rational

namespace SidPlayback.Panning

/-- A finite number from `0` to `1`. -/
def InRange (v : Float32) : Prop := ∃ q ∈ Decimal.rational? v.toModel.unpack, 0 ≤ q ∧ q ≤ 1

/-- Thirty finite numbers from `0` to `1`. -/
def Accepted (values : List Float32) : Prop := values.length = 30 ∧ ∀ v ∈ values, InRange v

instance : DecidablePred InRange := fun v =>
  inferInstanceAs (Decidable (∃ q ∈ Decimal.rational? v.toModel.unpack, 0 ≤ q ∧ q ≤ 1))

instance : DecidablePred Accepted := fun values =>
  inferInstanceAs (Decidable (values.length = 30 ∧ ∀ v ∈ values, InRange v))

/-- **Positions** are the finite numbers from `0` to `1`; `-0` is among them. -/
theorem isPosition_iff (v : Float32) : isPosition v = true ↔ InRange v := by
  have hfinite : v.isFinite = true ↔ ∃ q, Decimal.rational? v.toModel.unpack = some q :=
    Decimal.isFinite_iff v.toModel.unpack
  simp only [isPosition, Bool.and_eq_true, decide_eq_true_eq, hfinite, InRange, Option.mem_def]
  constructor
  · rintro ⟨⟨⟨q, hq⟩, hzero⟩, hone⟩
    exact ⟨q, hq, (Decimal.zero_le_iff hq).1 hzero, (Decimal.le_one_iff hq).1 hone⟩
  · rintro ⟨q, hq, hzero, hone⟩
    exact ⟨⟨⟨q, hq⟩, (Decimal.zero_le_iff hq).2 hzero⟩, (Decimal.le_one_iff hq).2 hone⟩

theorem accepted_replicate {v : Float32} (h : isPosition v = true) :
    Accepted (List.replicate 30 v) :=
  ⟨List.length_replicate, fun _ hw => List.eq_of_mem_replicate hw ▸ (isPosition_iff v).1 h⟩

theorem firstOutside_eq_none (start : Nat) (values : List Float32) :
    firstOutside start values = none ↔ ∀ v ∈ values, InRange v := by
  induction values generalizing start with
  | nil => simp [firstOutside]
  | cons v rest ih =>
    rw [List.forall_mem_cons, ← isPosition_iff, ← ih (start + 1), firstOutside]
    cases isPosition v <;> simp

/-- **Validation** accepts what is to be accepted, unchanged, and nothing else. -/
theorem check_cases (values : List Float32) :
    (Accepted values ∧ ∃ h, check values = .ok ⟨values, h⟩) ∨
    (¬ Accepted values ∧ ∃ fault, check values = .error fault) := by
  unfold check
  split
  case isFalse hlength => exact .inr ⟨fun h => hlength h.1, _, rfl⟩
  case isTrue hlength =>
    split
    case h_1 hnone => exact .inl ⟨⟨hlength, (firstOutside_eq_none 0 values).1 hnone⟩, hlength, rfl⟩
    case h_2 hsome =>
      refine .inr ⟨fun h => ?_, _, rfl⟩
      rw [(firstOutside_eq_none 0 values).2 h.2] at hsome
      cases hsome

end SidPlayback.Panning
