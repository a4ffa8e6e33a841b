/-
  Windows along any sequence of readings and resets.

  A window depends only on the readings since the last reset that are in no full block of
  twenty.  Whatever came before is forgotten.

  * `Digi.Reading` is what a window is told of a frame, of any rate, and `Digi.Input` is a
    reading or a reset;
  * `Digi.Window.collect` is the window that holds given readings;
  * `Digi.sinceReset` are the readings since the last reset, and `Digi.pending` those of them
    that are in no full block; `Digi.Window.run_eq`: the window holds these;
  * `Digi.answer` is the answer to a reading: `Digi.answer_of_full` and
    `Digi.answer_of_partial` say which;
  * `Digi.windows_apart`: windows come on time, and do not depend on each other.
-/
import Mathlib.Data.List.DropRight
import SidPlayback.Proofs.Digi.Window

namespace SidPlayback.Digi

/-! ## Readings -/

/-- What a window is told of a frame. -/
structure Reading where
  rate : Float
  label : String

/-- Whether there was digi output: the rate is finite and positive. -/
def Reading.isOutput (r : Reading) : Bool := r.rate.isFinite && 0.0 < r.rate

/-- What a window is given. -/
inductive Input where
  | reading (r : Reading)
  | reset

/-- The readings since the last reset. -/
def sinceReset (inputs : List Input) : List Reading :=
  inputs.foldl (fun seen input =>
    match input with
    | .reading r => seen ++ [r]
    | .reset => []) []

/-- The readings since the last reset that are in no full block of twenty. -/
def pending (inputs : List Input) : List Reading :=
  (sinceReset inputs).rtake ((sinceReset inputs).length % 20)

@[simp] theorem sinceReset_reading (inputs : List Input) (r : Reading) :
    sinceReset (inputs ++ [.reading r]) = sinceReset inputs ++ [r] := by
  simp [sinceReset]

@[simp] theorem sinceReset_reset (inputs : List Input) : sinceReset (inputs ++ [.reset]) = [] := by
  simp [sinceReset]

theorem sinceReset_readings (readings : List Reading) :
    sinceReset (readings.map .reading) = readings := by
  induction readings using List.reverseRecOn with
  | nil => rfl
  | append_singleton readings r ih => rw [List.map_append, List.map_singleton, sinceReset_reading, ih]

theorem length_rtake {α : Type} (l : List α) (n : ℕ) : (l.rtake n).length = min n l.length := by
  rw [List.rtake, List.length_drop]
  omega

theorem length_pending (inputs : List Input) :
    (pending inputs).length = (sinceReset inputs).length % 20 := by
  rw [pending, length_rtake, min_eq_left (Nat.mod_le _ _)]

/-- A reading more is pending, or completes a block. -/
theorem pending_reading (inputs : List Input) (r : Reading) :
    pending (inputs ++ [.reading r]) =
      if (pending inputs).length + 1 < 20 then pending inputs ++ [r] else [] := by
  rw [length_pending, pending, pending, sinceReset_reading, List.length_append,
    List.length_singleton]
  split_ifs with hless
  · rw [show ((sinceReset inputs).length + 1) % 20 = (sinceReset inputs).length % 20 + 1 by omega,
      List.rtake_concat_succ]
  · rw [show ((sinceReset inputs).length + 1) % 20 = 0 by omega, List.rtake_zero]

theorem pending_reset (inputs : List Input) : pending (inputs ++ [.reset]) = [] := by
  rw [pending, sinceReset_reset, List.length_nil, List.rtake_nil]

/-! ## Windows -/

namespace Window

/-- The window that holds the given readings. -/
def collect (readings : List Reading) : Window :=
  readings.foldl (fun w r => w.add r.rate r.label) empty

/-- What an input makes of a window. -/
def next (w : Window) : Input → Window
  | .reading r => (w.observe r.rate r.label).2
  | .reset => empty

/-- What inputs make of a new window. -/
def run (inputs : List Input) : Window := inputs.foldl next empty

theorem collect_snoc (readings : List Reading) (r : Reading) :
    collect (readings ++ [r]) = (collect readings).add r.rate r.label := List.foldl_concat ..

theorem run_snoc (inputs : List Input) (input : Input) :
    run (inputs ++ [input]) = (run inputs).next input := List.foldl_concat ..

theorem add_of_isOutput {r : Reading} (h : r.isOutput = true) (w : Window) :
    w.add r.rate r.label =
      ⟨Labels.insert r.label w.labels, w.rateSum + r.rate, w.batches + 1, w.frames + 1⟩ :=
  if_pos h

theorem add_of_not_isOutput {r : Reading} (h : r.isOutput = false) (w : Window) :
    w.add r.rate r.label = { w with frames := w.frames + 1 } :=
  if_neg (by rw [isOutput, ← Reading.isOutput, h]; exact Bool.false_ne_true)

theorem frames_collect (readings : List Reading) :
    (collect readings).frames = readings.length := by
  induction readings using List.reverseRecOn with
  | nil => rfl
  | append_singleton readings r ih => rw [collect_snoc, frames_add, ih, List.length_append]; rfl

theorem batches_collect (readings : List Reading) :
    (collect readings).batches = readings.countP (·.isOutput) := by
  induction readings using List.reverseRecOn with
  | nil => rfl
  | append_singleton readings r ih =>
    rw [collect_snoc, List.countP_append, List.countP_singleton, ← ih]
    cases h : r.isOutput with
    | true => rw [add_of_isOutput h]; rfl
    | false => rw [add_of_not_isOutput h]; rfl

/-- **A reading more** is held, too, or completes the window. -/
theorem observe_collect (readings : List Reading) (r : Reading) :
    (collect readings).observe r.rate r.label =
      if readings.length + 1 < 20 then (none, collect (readings ++ [r]))
      else (some (collect (readings ++ [r])).status, empty) := by
  rw [observe, ← collect_snoc, frames_collect, List.length_append]
  rfl

/-- **A window holds the pending readings**, whatever came before. -/
theorem run_eq (inputs : List Input) : run inputs = collect (pending inputs) := by
  induction inputs using List.reverseRecOn with
  | nil => rfl
  | append_singleton inputs input ih =>
    rw [run_snoc, ih]
    cases input with
    | reading r =>
      rw [next, observe_collect, pending_reading]
      split_ifs <;> rfl
    | reset =>
      rw [pending_reset]
      rfl

end Window

/-! ## Answers -/

/-- The answer to a reading, after other inputs to a new window. -/
def answer (inputs : List Input) (r : Reading) : Option Status :=
  ((Window.run inputs).observe r.rate r.label).1

/-- Nothing is answered before a block of twenty is complete. -/
theorem answer_of_partial {inputs : List Input} {r : Reading}
    (h : (sinceReset inputs ++ [r]).length % 20 ≠ 0) : answer inputs r = none := by
  rw [List.length_append, List.length_singleton] at h
  rw [answer, Window.run_eq, Window.observe_collect, length_pending, if_pos (by omega)]

/-- **A block of twenty** is answered by the status of the window that holds it. -/
theorem answer_of_full {inputs : List Input} {r : Reading}
    (h : (sinceReset inputs ++ [r]).length % 20 = 0) :
    answer inputs r = some (Window.collect ((sinceReset inputs ++ [r]).rtake 20)).status := by
  rw [List.length_append, List.length_singleton] at h
  have hlast : (sinceReset inputs).length % 20 = 19 := by omega
  rw [answer, Window.run_eq, Window.observe_collect, length_pending, if_neg (by omega), pending,
    hlast, ← List.rtake_concat_succ]

/-- **Windows come on time and do not depend on each other.**  With so many readings since
    the last reset, the frames and the batches of the window are those after the last full
    block.  A status comes with each twentieth reading, and it is the one that a new window
    gives for the same twenty readings. -/
theorem windows_apart (inputs : List Input) :
    let seen := sinceReset inputs
    let tail := seen.rtake (seen.length % 20)
    (Window.run inputs).frames = seen.length % 20 ∧
      (Window.run inputs).batches = tail.countP (fun r => r.rate.isFinite && 0.0 < r.rate) ∧
      ∀ r, ((answer inputs r).isSome ↔ (seen ++ [r]).length % 20 = 0) ∧
        ∀ status, answer inputs r = some status → ∃ before : List Reading, before.length = 19 ∧
          (seen ++ [r]).rtake 20 = before ++ [r] ∧
          answer (before.map .reading) r = some status := by
  intro seen tail
  refine ⟨?_, ?_, fun r => ?_⟩
  · rw [Window.run_eq, Window.frames_collect, length_pending]
  · rw [Window.run_eq, Window.batches_collect]
    rfl
  by_cases h : (seen ++ [r]).length % 20 = 0
  · rw [answer_of_full h]
    refine ⟨iff_of_true rfl h, fun status hstatus => ?_⟩
    have hbefore : (seen.rtake 19).length = 19 := by
      rw [List.length_append, List.length_singleton] at h
      rw [length_rtake]
      omega
    refine ⟨seen.rtake 19, hbefore, List.rtake_concat_succ .., ?_⟩
    -- the new window is given the same block, and nothing else
    have hlength : (seen.rtake 19 ++ [r]).length = 20 := by rw [List.length_append, hbefore]; rfl
    have hblock : (seen.rtake 19 ++ [r]).rtake 20 = (seen ++ [r]).rtake 20 := by
      rw [List.rtake_concat_succ, List.rtake_concat_succ, List.rtake, hbefore, Nat.sub_self,
        List.drop_zero]
    rw [answer_of_full (by rw [sinceReset_readings, hlength]), sinceReset_readings, hblock]
    exact hstatus
  · rw [answer_of_partial h]
    exact ⟨iff_of_false Bool.false_ne_true h, nofun⟩

end SidPlayback.Digi
