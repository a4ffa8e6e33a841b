/-
  When the status of a window says that there was digi output.

  The status goes by the average rate, rounded to a whole number, and not by the rates.  So
  output at an average rate below one half does not show.

  * `Digi.rates` are the rates of the readings with digi output, and `Digi.average` their
    average in double precision;
  * `Digi.half_le_average`: rates of one half at least have such an average, whatever is lost
    or overflows in between;
  * `Digi.Window.isActive_status_iff`: a status is active if there was output, of an average
    rate of one half at least;
  * `Digi.activity_shown`: what this means for the status of every window, and
    `Digi.faint_output_hidden`: a window with output whose status is not active.
-/
import SidPlayback.Proofs.Decimal.Reach
import SidPlayback.Proofs.Digi.Techniques

namespace SidPlayback.Digi

/-- The rates of the readings with digi output. -/
def rates (readings : List Reading) : List Float := (readings.filter (·.isOutput)).map (·.rate)

/-- The average of rates, which are added from left to right. -/
def average (rates : List Float) : Float := rates.foldl (· + ·) 0.0 / Decimal.whole rates.length

/-! ## Averages -/

section
variable {rates : List Float}

/-- Sums of rates of one half at least: each adds its part, rounding included. -/
theorem reaches_sum (hhalf : ∀ rate ∈ rates, 0.5 ≤ rate) (hne : rates ≠ [])
    (hlength : rates.length ≤ 2 ^ 53) :
    Decimal.Reaches (rates.length / 2) (rates.foldl (· + ·) 0.0) := by
  induction rates using List.reverseRecOn with
  | nil => exact absurd rfl hne
  | append_singleton before rate ih =>
    rw [List.length_append, List.length_singleton] at hlength ⊢
    rw [List.foldl_concat]
    have hrate : Decimal.Reaches (1 / 2) rate :=
      (Decimal.reaches_half_iff rate).2 (hhalf rate (by simp))
    rcases Nat.eq_zero_or_pos before.length with hfirst | hpos
    · obtain rfl := List.length_eq_zero_iff.1 hfirst
      rw [← Nat.cast_one] at hrate
      exact hrate.zero_add one_pos
    · refine (ih (fun r hr => hhalf r (by simp [hr])) (List.length_pos_iff.1 hpos) ?_).add hpos ?_ hrate
      · omega
      · omega

/-- **Rates of one half at least** have an average of one half at least. -/
theorem half_le_average (hhalf : ∀ rate ∈ rates, 0.5 ≤ rate) (hne : rates ≠ [])
    (hlength : rates.length < 2 ^ 53) : 0.5 ≤ average rates :=
  (Decimal.reaches_half_iff _).1
    ((reaches_sum hhalf hne hlength.le).div_whole (List.length_pos_iff.2 hne) hlength)

end

/-! ## Windows -/

section
variable {readings : List Reading}

theorem length_rates : (rates readings).length = readings.countP (·.isOutput) := by
  rw [rates, List.length_map, List.countP_eq_length_filter]

theorem rates_eq_nil_iff : rates readings = [] ↔ ∀ r ∈ readings, r.isOutput = false := by
  simp [rates]

theorem rates_ne_nil_iff : rates readings ≠ [] ↔ ∃ r ∈ readings, r.isOutput = true := by
  rw [ne_eq, rates_eq_nil_iff]
  simp

theorem forall_mem_rates {p : Float → Prop} :
    (∀ rate ∈ rates readings, p rate) ↔ ∀ r ∈ readings, r.isOutput = true → p r.rate := by
  simp only [rates, List.forall_mem_map, List.mem_filter, and_imp]

namespace Window

theorem rateSum_collect : (collect readings).rateSum = (rates readings).foldl (· + ·) 0.0 := by
  induction readings using List.reverseRecOn with
  | nil => rfl
  | append_singleton readings r ih =>
    rw [collect_snoc]
    cases h : r.isOutput with
    | true =>
      have hrates : rates (readings ++ [r]) = rates readings ++ [r.rate] := by simp [rates, h]
      rw [add_of_isOutput h, hrates, List.foldl_concat, ← ih]
    | false =>
      have hrates : rates (readings ++ [r]) = rates readings := by simp [rates, h]
      rw [add_of_not_isOutput h, hrates, ← ih]

/-- Without output the status is the default one. -/
theorem status_of_silent (h : rates readings = []) : (collect readings).status = {} :=
  if_pos (by rw [batches_collect, ← length_rates, h]; rfl)

theorem rate_status (h : rates readings ≠ []) (hlength : readings.length < UInt32.size) :
    (collect readings).status.rate =
      UInt32.ofNat (Decimal.roundSaturating (UInt32.size - 1) (average (rates readings))) := by
  have hcount : (collect readings).batches = (rates readings).length := by
    rw [batches_collect, length_rates]
  have hless : (rates readings).length < UInt32.size := by
    rw [length_rates]
    exact List.countP_le_length.trans_lt hlength
  have hsome : (collect readings).batches ≠ 0 := by
    rw [hcount]
    exact (List.length_pos_iff.2 h).ne'
  rw [status, if_neg hsome]
  simp only [rateSum_collect, hcount, Decimal.toFloat_eq_whole', UInt32.toNat_ofNat_of_lt' hless]
  rfl

/-- **A status is active** if there was output, of an average rate of one half at least. -/
theorem isActive_status_iff (hlength : readings.length < UInt32.size) :
    (collect readings).status.isActive = true ↔
      (∃ r ∈ readings, r.isOutput = true) ∧ 0.5 ≤ average (rates readings) := by
  rw [Status.isActive, decide_eq_true_iff]
  by_cases h : rates readings = []
  · rw [status_of_silent h]
    exact iff_of_false (by decide) fun hsome => rates_ne_nil_iff.2 hsome.1 h
  · rw [and_iff_right (rates_ne_nil_iff.1 h), rate_status h hlength, UInt32.lt_iff_toNat_lt]
    have hlimit : Decimal.roundSaturating (UInt32.size - 1) (average (rates readings)) < UInt32.size :=
      Nat.lt_of_le_pred (by decide) (Decimal.roundSaturating_le _ _)
    rw [UInt32.toNat_ofNat_of_lt' hlimit]
    exact Decimal.roundSaturating_pos_iff (by decide) _

end Window
end

/-- The default status is the one that is inactive and names nothing. -/
theorem Status.eq_default_iff {status : Status} (h : status.isActive = false) :
    status = {} ↔ status.label = "" := by
  have hrate : status.rate = 0 := by
    rw [isActive, decide_eq_false_iff_not, UInt32.lt_iff_toNat_lt] at h
    exact UInt32.toNat_inj.1 (Nat.eq_zero_of_not_pos h)
  cases status
  simp_all

/-- **The status of every window** is active if there was output in it, of an average rate of
    one half at least.  So rates of one half at least always show, and a window without output
    has the default status; an inactive status has a label if techniques were named. -/
theorem activity_shown (inputs : List Input) (r : Reading)
    (hfull : (sinceReset inputs ++ [r]).length % 20 = 0) :
    let block := (sinceReset inputs ++ [r]).rtake 20
    let played := ∃ r ∈ block, r.rate.isFinite = true ∧ 0.0 < r.rate
    ∃ status, answer inputs r = some status ∧
      (status.isActive = true ↔ played ∧ 0.5 ≤ average (rates block)) ∧
      (status.isActive = false → (status = {} ↔ techniques block = ∅)) ∧
      (¬ played → status = {}) ∧
      ((∀ r ∈ block, r.rate.isFinite = true ∧ 0.0 < r.rate → 0.5 ≤ r.rate) →
        (status.isActive = true ↔ played) ∧ (status.isActive = false → status = {})) := by
  intro block played
  have hlength : block.length < UInt32.size := by
    rw [length_rtake]
    exact (Nat.min_le_left _ _).trans_lt (by decide)
  have houtput (r : Reading) : r.isOutput = true ↔ r.rate.isFinite = true ∧ 0.0 < r.rate := by
    simp [Reading.isOutput]
  have hplayed : rates block ≠ [] ↔ played := by simp only [rates_ne_nil_iff, houtput, played]
  have hactive := Window.isActive_status_iff hlength
  have hsilent (hnone : ¬ played) : (Window.collect block).status = {} :=
    Window.status_of_silent (not_not.1 (mt hplayed.1 hnone))
  simp only [houtput] at hactive
  refine ⟨_, answer_of_full hfull, hactive, fun hinactive => ?_, hsilent, fun hhalf => ?_⟩
  · rw [Status.eq_default_iff hinactive]
    exact (Window.describes_status block).eq_empty_iff
  · have hshown : (Window.collect block).status.isActive = true ↔ played := by
      refine hactive.trans (and_iff_left_of_imp fun hsome => ?_)
      refine half_le_average ?_ (hplayed.2 hsome) ?_
      · simp only [forall_mem_rates, houtput]
        exact hhalf
      · rw [length_rates]
        exact (List.countP_le_length.trans_lt hlength).trans (by decide)
    refine ⟨hshown, fun hinactive => hsilent fun hsome => ?_⟩
    rw [hshown.2 hsome] at hinactive
    cases hinactive

/-- Output at the least rate that always shows, and readings without output. -/
def halfInputs : List Input :=
  List.replicate 10 (.reading ⟨0.5, "PWM"⟩) ++ List.replicate 9 (.reading ⟨-1.0, "FM"⟩)

theorem activity_shown_half :
    let last : Reading := ⟨0.5, "PWM"⟩
    let block := (sinceReset halfInputs ++ [last]).rtake 20
    (sinceReset halfInputs ++ [last]).length % 20 = 0 ∧
      (∀ r ∈ block, r.rate.isFinite = true ∧ 0.0 < r.rate → 0.5 ≤ r.rate) ∧
      ∃ status, answer halfInputs last = some status ∧ status.isActive = true ∧
        0.5 ≤ average (rates block) := by
  intro last block
  have hfull : (sinceReset halfInputs ++ [last]).length % 20 = 0 := by decide
  have hblock : block = List.replicate 10 ⟨0.5, "PWM"⟩ ++ List.replicate 9 ⟨-1.0, "FM"⟩ ++ [last] := rfl
  have hlast : last ∈ block := by rw [hblock]; simp
  have hhalf : ∀ r ∈ block, r.rate.isFinite = true ∧ 0.0 < r.rate → 0.5 ≤ r.rate := by
    intro r hr houtput
    rw [hblock, List.mem_append, List.mem_append, List.mem_singleton] at hr
    obtain (hr | hr) | rfl := hr
    · rw [List.eq_of_mem_replicate hr]
      decide
    · rw [List.eq_of_mem_replicate hr] at houtput
      exact absurd houtput (by decide)
    · decide
  obtain ⟨status, hstatus, hiff, -, -, hshown⟩ := activity_shown halfInputs last hfull
  have hactive : status.isActive = true :=
    (hshown hhalf).1.2 ⟨last, hlast, by decide⟩
  exact ⟨hfull, hhalf, status, hstatus, hactive, (hiff.1 hactive).2⟩

/-- Nineteen readings with output at a rate of one quarter. -/
def faintInputs : List Input := List.replicate 19 (.reading ⟨0.25, "PWM"⟩)

/-- **Output at a low rate is hidden**: all twenty readings of a window have output, but its
    status is not active, and not the default one either. -/
theorem faint_output_hidden :
    let block := (sinceReset faintInputs ++ [(⟨0.25, "PWM"⟩ : Reading)]).rtake 20
    block.length = 20 ∧ (∀ r ∈ block, r.rate.isFinite = true ∧ 0.0 < r.rate) ∧
      ∃ status, answer faintInputs ⟨0.25, "PWM"⟩ = some status ∧
        status.isActive = false ∧ status ≠ {} := by
  intro block
  have hblock : block = List.replicate 20 ⟨0.25, "PWM"⟩ := rfl
  have hanswer : answer faintInputs ⟨0.25, "PWM"⟩ = some ⟨0, "PWM"⟩ := by decide +kernel
  refine ⟨by decide, fun r hr => ?_, _, hanswer, by decide, by decide⟩
  rw [hblock] at hr
  rw [List.eq_of_mem_replicate hr]
  decide

end SidPlayback.Digi
