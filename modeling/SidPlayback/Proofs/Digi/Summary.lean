/-
  What a digi status says of a block of frames.

  * `Digi.Frame` is the telemetry of a frame, and `Digi.outputs` are the frames of a
    block with digi output; `Digi.named` are the techniques that these name;
  * `Digi.Summarizes` says that a status is that of a block: the average of the rates
    of these frames, rounded, and the text for their techniques;
  * `Digi.Window.Holds` says which frames are in a window, `Digi.Window.Holds.status`
    that its status is that of these frames, `Digi.Window.Holds.observe_of_lt`
    and `Digi.Window.Holds.observe_of_eq` what one frame more makes of it.
-/
import SidPlayback.Proofs.Decimal.Average
import SidPlayback.Proofs.Digi.Labels
import SidPlayback.Proofs.Digi.Window
import SidPlayback.Text.Extended

namespace SidPlayback.Digi

/-! ## Frames -/

/-- What is reported of a frame. -/
structure Frame where
  rate : UInt16
  label : List UInt8
deriving DecidableEq

/-- The label of a frame, as a text. -/
def Frame.name (frame : Frame) : String := Text.Extended.decode frame.label

/-- The frames with digi output. -/
def outputs (block : List Frame) : List Frame := block.filter (·.rate ≠ 0)

/-- The sum of the rates. -/
def rateTotal (block : List Frame) : Nat := (block.map (·.rate.toNat)).sum

/-- The techniques that the frames with digi output name. -/
def named (block : List Frame) : Set String :=
  {label | label ≠ "" ∧ label ≠ "NONE" ∧ ∃ frame ∈ outputs block, frame.name = label}

/-- The status is that of the block: silence, or the average rate of the frames with
    output, a half rounded upwards, and the text for the techniques that they name. -/
structure Summarizes (block : List Frame) (status : Status) : Prop where
  silent : outputs block = [] → status.rate = 0 ∧ status.label = ""
  rate_eq : outputs block ≠ [] → status.rate.toNat =
    (2 * rateTotal (outputs block) + (outputs block).length) / (2 * (outputs block).length)
  describes : Describes (named block) status.label
  isActive_iff : status.isActive = true ↔ outputs block ≠ []

section
variable (block : List Frame) (frame : Frame)

theorem outputs_snoc : outputs (block ++ [frame]) =
    if frame.rate ≠ 0 then outputs block ++ [frame] else outputs block := by
  rw [outputs, List.filter_append]
  by_cases h : frame.rate = 0
  · simp [outputs, h]
  · simp [outputs, h]

@[simp] theorem rateTotal_snoc :
    rateTotal (block ++ [frame]) = rateTotal block + frame.rate.toNat := by
  simp [rateTotal]

theorem length_outputs_le : (outputs block).length ≤ block.length := List.length_filter_le _ _

/-- Rates are at least `1`, where there is output, and at most `65535`. -/
theorem rateTotal_bounds : (outputs block).length ≤ rateTotal (outputs block) ∧
    rateTotal (outputs block) ≤ 65535 * (outputs block).length := by
  induction block with
  | nil => exact ⟨Nat.le_refl 0, Nat.le_refl 0⟩
  | cons frame rest ih =>
    by_cases h : frame.rate = 0
    · have hcons : outputs (frame :: rest) = outputs rest := by simp [outputs, h]
      rw [hcons]; exact ih
    · have hcons : outputs (frame :: rest) = frame :: outputs rest := by simp [outputs, h]
      have hpos : frame.rate.toNat ≠ 0 := fun h0 => h (UInt16.toNat_inj.1 h0)
      have hlt : frame.rate.toNat < 65536 := frame.rate.toNat_lt
      have hsum : rateTotal (frame :: outputs rest) =
          frame.rate.toNat + rateTotal (outputs rest) := List.sum_cons
      rw [hcons, hsum, List.length_cons]
      omega

variable {block}

theorem average_bounds (h : 0 < (outputs block).length) :
    0 < (2 * rateTotal (outputs block) + (outputs block).length) / (2 * (outputs block).length) ∧
      (2 * rateTotal (outputs block) + (outputs block).length) / (2 * (outputs block).length) ≤
        65536 := by
  obtain ⟨hlow, hhigh⟩ := rateTotal_bounds block
  refine ⟨Nat.div_pos (by omega) (by omega), Nat.div_le_of_le_mul (by omega)⟩

end

/-! ## Windows -/

namespace Window

theorem isOutput_toFloat (rate : UInt16) : isOutput rate.toFloat = true ↔ rate ≠ 0 := by
  have hbound : rate.toNat < 2 ^ 53 := rate.toNat_lt.trans (by decide)
  rw [Decimal.toFloat_eq_whole, isOutput, Decimal.isFinite_whole hbound, Bool.true_and,
    decide_eq_true_iff, Decimal.zero_lt_whole hbound, Nat.pos_iff_ne_zero, ne_eq, ne_eq,
    ← UInt16.toNat_inj]
  rfl

/-- The frames are those in the window. -/
structure Holds (w : Window) (block : List Frame) : Prop where
  frames_eq : w.frames = block.length
  batches_eq : w.batches = (outputs block).length
  rateSum_eq : w.rateSum = Decimal.whole (rateTotal (outputs block))
  sorted : w.labels.Pairwise (· < ·)
  mem_labels : ∀ label, label ∈ w.labels ↔ ∃ frame ∈ outputs block, frame.name = label

theorem holds_empty : empty.Holds [] where
  frames_eq := rfl
  batches_eq := rfl
  rateSum_eq := rfl
  sorted := .nil
  mem_labels _ := by simp [outputs, empty]

variable {w : Window} {block : List Frame}

/-- **One frame more** in the window. -/
theorem Holds.add (h : w.Holds block) (hroom : block.length < windowLength) (frame : Frame) :
    (w.add frame.rate.toFloat frame.name).Holds (block ++ [frame]) := by
  have hframes := h.frames_eq
  by_cases hrate : frame.rate ≠ 0
  · have houtputs := (outputs_snoc block frame).trans (if_pos hrate)
    have hsum : rateTotal (outputs block) + frame.rate.toNat < 2 ^ 53 := by
      have hbounds := (rateTotal_bounds block).2
      have hlength := length_outputs_le block
      have hlast : frame.rate.toNat < 65536 := frame.rate.toNat_lt
      have hwindow : windowLength = 20 := rfl
      omega
    rw [Window.add, if_pos ((isOutput_toFloat _).2 hrate)]
    refine ⟨?_, ?_, ?_, Labels.sorted_insert h.sorted, fun label => ?_⟩
    · rw [hframes, List.length_append]; rfl
    · rw [h.batches_eq, houtputs, List.length_append]; rfl
    · rw [h.rateSum_eq, houtputs, rateTotal_snoc, Decimal.toFloat_eq_whole,
        Decimal.whole_add hsum]
    · rw [Labels.mem_insert, h.mem_labels, houtputs]
      simp only [List.mem_append, List.mem_singleton, or_and_right, exists_or, exists_eq_left]
      rw [or_comm, eq_comm]
  · have houtputs := (outputs_snoc block frame).trans (if_neg hrate)
    rw [Window.add, if_neg (mt (isOutput_toFloat _).1 hrate)]
    refine ⟨?_, ?_, ?_, h.sorted, ?_⟩
    · rw [hframes, List.length_append]; rfl
    · rw [houtputs]; exact h.batches_eq
    · rw [houtputs]; exact h.rateSum_eq
    · rw [houtputs]; exact h.mem_labels

/-- The label of the status is the text for the techniques of the frames. -/
theorem Holds.describes (h : w.Holds block) : Describes (named block) w.status.label := by
  have hlabels : w.batches = 0 → w.labels = [] := fun hnone => by
    have houtputs : outputs block = [] :=
      List.length_eq_zero_iff.1 (h.batches_eq.symm.trans hnone)
    refine List.eq_nil_iff_forall_not_mem.2 fun label hlabel => ?_
    obtain ⟨frame, hframe, -⟩ := (h.mem_labels label).1 hlabel
    rw [houtputs] at hframe
    cases hframe
  rw [label_status hlabels]
  exact Labels.describes_of_mem_iff h.sorted h.mem_labels

/-- **The status of a window** is that of the frames in it. -/
theorem Holds.status (h : w.Holds block) (hsize : block.length ≤ windowLength) :
    Summarizes block w.status := by
  obtain ⟨hlow, hhigh⟩ := rateTotal_bounds block
  have hlength := length_outputs_le block
  have hwindow : windowLength = 20 := rfl
  rcases Nat.eq_zero_or_pos (outputs block).length with hnone | hsome
  · have hblock : outputs block = [] := List.length_eq_zero_iff.1 hnone
    have hstatus : w.status = {} := if_pos (h.batches_eq.trans hnone)
    refine ⟨fun _ => by rw [hstatus]; exact ⟨rfl, rfl⟩, fun hne => absurd hblock hne, h.describes, ?_⟩
    rw [hstatus]
    exact iff_of_false (by decide) (fun hne => hne hblock)
  · have hblock : outputs block ≠ [] := List.length_pos_iff.1 hsome
    have hbatches : w.batches ≠ 0 := by rw [h.batches_eq]; exact hsome.ne'
    have hcount : (UInt32.ofNat (outputs block).length).toNat = (outputs block).length :=
      UInt32.toNat_ofNat_of_lt' (by rw [UInt32.size]; omega)
    obtain ⟨hleast, hmost⟩ := average_bounds hsome
    have hrate : w.status.rate.toNat = (2 * rateTotal (outputs block) + (outputs block).length) /
        (2 * (outputs block).length) := by
      rw [Window.status, if_neg hbatches]
      simp only [h.rateSum_eq, h.batches_eq, Decimal.toFloat_eq_whole', hcount]
      rw [Decimal.round_average (by omega) hsome (by omega) (by omega),
        Nat.min_eq_left (hmost.trans (by decide))]
      exact UInt32.toNat_ofNat_of_lt' (lt_of_le_of_lt hmost (by decide))
    refine ⟨fun hnil => absurd hnil hblock, fun _ => hrate, h.describes, iff_of_true ?_ hblock⟩
    rw [Status.isActive, decide_eq_true_iff, UInt32.lt_iff_toNat_lt, hrate]
    exact hleast

/-- **Observing a frame** adds it to the window, as long as there is room for more. -/
theorem Holds.observe_of_lt (h : w.Holds block) (hless : block.length + 1 < windowLength)
    (frame : Frame) : (w.observe frame.rate.toFloat frame.name).1 = none ∧
      (w.observe frame.rate.toFloat frame.name).2.Holds (block ++ [frame]) := by
  have hadd := h.add (by omega) frame
  have hframes := hadd.frames_eq.trans List.length_append
  unfold Window.observe
  simp only [hframes, List.length_singleton, if_pos hless]
  exact ⟨trivial, hadd⟩

/-- **The frame that fills a window** yields the status, and empties it. -/
theorem Holds.observe_of_eq (h : w.Holds block) (hfull : block.length + 1 = windowLength)
    (frame : Frame) : (w.observe frame.rate.toFloat frame.name).2 = empty ∧
      ∃ status, (w.observe frame.rate.toFloat frame.name).1 = some status ∧
        Summarizes (block ++ [frame]) status := by
  have hadd := h.add (by omega) frame
  have hframes := hadd.frames_eq.trans List.length_append
  unfold Window.observe
  simp only [hframes, List.length_singleton, hfull, Nat.lt_irrefl, if_false]
  refine ⟨trivial, _, rfl, hadd.status ?_⟩
  rw [List.length_append, List.length_singleton, hfull]

end Window
end SidPlayback.Digi
