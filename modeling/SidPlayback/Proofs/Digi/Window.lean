/-
  Windows that can come about.

  * `Digi.Window.Sound` says that the numbers and the labels of a window fit
    together, and that it is not full;
  * `Digi.Window.Sound.observe`: one frame more keeps this;
  * `Digi.Window.label_status`: the label of a status is the text for the labels;
  * `Digi.Window.frames_observe`: windows count frames modulo their length.
-/
import SidPlayback.Digi.Window

namespace SidPlayback.Digi

theorem Labels.insert_ne_nil (label : String) (labels : Labels) :
    Labels.insert label labels ≠ [] := by
  cases labels with
  | nil => simp [insert]
  | cons first rest =>
    unfold insert
    split
    · simp
    · split <;> simp

namespace Window

/-- The numbers and the labels fit together, and there is room for a frame. -/
structure Sound (w : Window) : Prop where
  batches_le : w.batches ≤ w.frames
  frames_lt : w.frames < 20
  labels_eq_nil : w.labels = [] ↔ w.batches = 0

theorem sound_empty : empty.Sound := ⟨Nat.le_refl 0, by decide, iff_of_true rfl rfl⟩

section
variable (w : Window) (rate : Float) (label : String)

@[simp] theorem frames_add : (w.add rate label).frames = w.frames + 1 := by
  unfold add; split <;> rfl

/-- A frame with digi output adds its label, any other only counts. -/
theorem add_cases :
    (w.add rate label).batches = w.batches + 1 ∧
        (w.add rate label).labels = Labels.insert label w.labels ∨
      (w.add rate label).batches = w.batches ∧ (w.add rate label).labels = w.labels := by
  unfold add
  split
  · exact .inl ⟨rfl, rfl⟩
  · exact .inr ⟨rfl, rfl⟩

end

variable {w : Window}

/-- **Observing.** A sound window stays sound, and after the frame that fills it
    the next one is. -/
theorem Sound.observe (h : w.Sound) (rate : Float) (label : String) :
    (w.observe rate label).2.Sound := by
  unfold Window.observe
  dsimp only
  split
  case isFalse => exact sound_empty
  case isTrue hroom =>
    have hle := h.batches_le
    rcases w.add_cases rate label with ⟨hb, hl⟩ | ⟨hb, hl⟩
    · refine ⟨by rw [hb, frames_add]; omega, hroom, ?_⟩
      rw [hb, hl]
      exact iff_of_false (Labels.insert_ne_nil _ _) (Nat.succ_ne_zero _)
    · refine ⟨by rw [hb, frames_add]; omega, hroom, ?_⟩
      rw [hb, hl]
      exact h.labels_eq_nil

/-- The label of a status is the text for the labels of the window, if it has none without
    digi output. -/
theorem label_status (h : w.batches = 0 → w.labels = []) :
    w.status.label = w.labels.summary := by
  unfold status
  split
  case isTrue hnone =>
    rw [h hnone]
    rfl
  case isFalse => rfl

/-- **Windows count frames** modulo their length. -/
theorem frames_observe (h : w.frames < windowLength) (rate : Float) (label : String) :
    (w.observe rate label).2.frames = (w.frames + 1) % windowLength := by
  unfold observe
  simp only [frames_add]
  split
  case isTrue hroom => rw [frames_add, Nat.mod_eq_of_lt hroom]
  case isFalse hfull =>
    have hlast : w.frames + 1 = windowLength := by omega
    rw [hlast, Nat.mod_self]; rfl

end Window
end SidPlayback.Digi
