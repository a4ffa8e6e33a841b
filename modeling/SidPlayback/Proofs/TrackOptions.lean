/-
  Which options for starting a track are accepted.

  * `TrackOptions.Sensible` says so of the number that the timeout stands for;
  * `TrackOptions.check_cases`: these are the options that are accepted;
  * `TrackOptions.parse_cases`: a text is accepted if it is JSON for such options.
-/
import SidPlayback.Proofs.Decimal.Rational
import SidPlayback.TrackOptions

namespace SidPlayback

namespace Decimal

theorem lt_zero_iff {x : Float} {q : ℚ} (h : rational? x.toModel.unpack = some q) :
    x < 0.0 ↔ q < 0 := by
  have hlt : x < 0.0 ↔ x.toModel.unpack.lt (.zero .positive) = true := decide_eq_true_iff
  rw [hlt]
  obtain ⟨s, hx, rfl⟩ | ⟨m, e, hm, hx, -, hq⟩ | ⟨m, e, hm, hx, hq⟩ := rational?_cases h
  · rw [hx]; exact iff_of_false (fun h => by cases h) (lt_irrefl _)
  · rw [hx]; exact iff_of_false (fun h => by cases h) hq.le.not_gt
  · rw [hx]; exact iff_of_true rfl hq

end Decimal

namespace TrackOptions

/-- The timeout, if there is one, is a finite number that is not negative. -/
def Sensible (o : TrackOptions) : Prop :=
  ∀ seconds ∈ o.timeout, ∃ q ∈ Decimal.rational? seconds.toModel.unpack, 0 ≤ q

theorem isTimeout_iff (seconds : Float) :
    isTimeout seconds = true ↔ ∃ q ∈ Decimal.rational? seconds.toModel.unpack, 0 ≤ q := by
  have hfinite : seconds.isFinite = true ↔ ∃ q, Decimal.rational? seconds.toModel.unpack = some q :=
    Decimal.isFinite_iff seconds.toModel.unpack
  simp only [isTimeout, Bool.and_eq_true, Bool.not_eq_true', decide_eq_false_iff_not, hfinite,
    Option.mem_def]
  constructor
  · rintro ⟨⟨q, hq⟩, hneg⟩
    exact ⟨q, hq, not_lt.1 fun h => hneg ((Decimal.lt_zero_iff hq).2 h)⟩
  · rintro ⟨q, hq, hpos⟩
    exact ⟨⟨q, hq⟩, fun h => absurd ((Decimal.lt_zero_iff hq).1 h) (not_lt.2 hpos)⟩

theorem check_cases (o : TrackOptions) :
    (o.Sensible ∧ o.check = .ok ()) ∨
    (¬ o.Sensible ∧ ∃ seconds ∈ o.timeout, o.check = .error (badTimeout seconds)) := by
  unfold check
  split
  case h_1 seconds hsome =>
    by_cases h : isTimeout seconds = true
    · refine .inl ⟨fun other hother => ?_, if_pos h⟩
      rw [hsome] at hother
      cases hother
      exact (isTimeout_iff seconds).1 h
    · refine .inr ⟨fun hsensible => h ?_, seconds, hsome, if_neg h⟩
      exact (isTimeout_iff seconds).2 (hsensible seconds hsome)
  case h_2 hnone =>
    refine .inl ⟨fun seconds hsome => ?_, rfl⟩
    rw [hnone] at hsome
    cases hsome

theorem parse_cases (json : String) :
    (∃ fault, record.parse json = .error fault ∧
      parse json = .error (.configuration (fault.message json))) ∨
    ∃ o, record.parse json = .ok o ∧
      ((o.Sensible ∧ parse json = .ok o) ∨
        (¬ o.Sensible ∧ ∃ seconds ∈ o.timeout, parse json = .error (badTimeout seconds))) := by
  cases hread : record.parse json with
  | error fault =>
    refine .inl ⟨fault, rfl, ?_⟩
    simp only [parse, Json.Record.decode, hread]
    rfl
  | ok o =>
    have hparse : parse json = o.check.map fun _ => o := by
      simp only [parse, Json.Record.decode, hread]
      cases hc : o.check <;>
        simp [Except.mapError, Except.map, bind, Except.bind, hc, pure, Except.pure]
    refine .inr ⟨o, rfl, ?_⟩
    rcases o.check_cases with ⟨hok, hcheck⟩ | ⟨hno, seconds, hsome, hcheck⟩
    · exact .inl ⟨hok, by rw [hparse, hcheck]; rfl⟩
    · exact .inr ⟨hno, seconds, hsome, by rw [hparse, hcheck]; rfl⟩

end TrackOptions
end SidPlayback
