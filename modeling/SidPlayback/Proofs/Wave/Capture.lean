/-
  Captures in a file that can be written.

  * `Wave.Capture.append_file` and `Wave.Capture.finish_file` are the steps of such a capture;
  * `Wave.Capture.appendAll_file`: frames are captured one after the other as if they were one;
  * `Wave.Capture.captures_frames`: what is captured is counted, and read back from the file.
-/
import Mathlib.Algebra.GroupWithZero.Nat
import SidPlayback.Proofs.Wave.Reading
import SidPlayback.Wave.Capture

namespace SidPlayback.Wave.Capture

/-! ## Steps -/

theorem append_file {c : Capture} (h : c.medium = .file) (frame : List Int16) :
    c.append frame = .ok { c with samples := c.samples ++ frame } := by
  rw [append, if_neg]
  rw [h]
  exact fun hfull => nomatch hfull.1

theorem finish_file {c : Capture} (h : c.medium = .file) :
    c.finish = if Even c.samples.size then .ok (c.samples.size / 2, encode c.rate c.samples.toList)
      else .error .oddSamples := by
  have hodd : c.written % channels ≠ 0 ↔ ¬ Even c.samples.size := not_congr Nat.even_iff.symm
  rw [finish, if_neg (by rw [h]; nofun)]
  by_cases heven : Even c.samples.size
  · rw [if_pos heven, if_neg (mt hodd.1 (not_not.2 heven))]
    rfl
  · rw [if_neg heven, if_pos (hodd.2 heven)]

theorem samples_append (samples : Array Int16) (sound rest : List Int16) :
    samples ++ sound ++ rest = samples ++ (sound ++ rest) := Array.ext' (by simp)

/-! ## Frames -/

/-- Writes the samples of frames, one frame after the other. -/
def appendAll (c : Capture) (frames : List (List Int16)) : Except Fault Capture :=
  frames.foldlM append c

theorem appendAll_file {c : Capture} (h : c.medium = .file) (frames : List (List Int16)) :
    c.appendAll frames = .ok { c with samples := c.samples ++ frames.flatten } := by
  induction frames generalizing c with
  | nil => simp [appendAll, pure, Except.pure]
  | cons frame rest ih =>
    have hstep : c.appendAll (frame :: rest) =
        appendAll { c with samples := c.samples ++ frame } rest := by
      rw [appendAll, List.foldlM_cons, append_file h]
      rfl
    rw [hstep, ih (c := { c with samples := c.samples ++ frame }) h, samples_append]
    rfl

/-- The capture holds the frames, and nothing else. -/
structure Captures (c : Capture) (rate : UInt32) (frames : List (List Int16)) : Prop where
  written_eq : c.written = (frames.map List.length).sum
  /-- With complete pairs of samples, what is read from the file is what was captured. -/
  even : Even frames.flatten.length → ∃ file, c.finish = .ok (frames.flatten.length / 2, file) ∧
    file.length = 44 + 2 * frames.flatten.length ∧ Consistent file ∧ field file 34 2 = 16 ∧
    read file = some ⟨2, rate.toNat, frames.flatten⟩
  odd : ¬ Even frames.flatten.length →
    c.finish.mapError Fault.failure = .error (.audioFile Fault.oddSamples.message)

theorem captures_flatten {rate : UInt32} (hrate : rate.toNat ≤ 1073741823)
    {frames : List (List Int16)} (hsize : 2 * frames.flatten.length < 2 ^ 32 - 36) :
    Captures ⟨.file, rate, frames.flatten.toArray⟩ rate frames := by
  refine ⟨List.length_flatten, fun heven => ?_, fun hodd => ?_⟩
  · obtain ⟨-, -, -, -, hdepth⟩ := field_format rate frames.flatten
    have hread := read_encode hrate heven hsize
    have hconsistent : Consistent (encode rate frames.flatten) := by
      by_contra hnot
      rw [read, if_neg hnot] at hread
      cases hread
    refine ⟨encode rate frames.flatten, ?_, length_encode _ _, hconsistent, hdepth, hread⟩
    rw [finish_file rfl, List.size_toArray, if_pos heven]
  · rw [finish_file rfl, List.size_toArray, if_neg hodd]
    rfl

/-- **What is captured is read back.**  After each frame the samples of all frames so far are
    counted.  A file with complete pairs of samples is read as the frames that were captured,
    and it does not matter how these were divided. -/
theorem captures_frames {rate : UInt32} (hrate : rate.toNat ≤ 1073741823)
    (frames : List (List Int16)) (hsize : 2 * frames.flatten.length < 2 ^ 32 - 36) :
    ∃ begun, create .file rate = .ok begun ∧
      (∀ n, ∃ c, begun.appendAll (frames.take n) = .ok c ∧ c.Captures rate (frames.take n)) ∧
      ∀ others : List (List Int16), others.flatten = frames.flatten →
        begun.appendAll others = begun.appendAll frames := by
  refine ⟨⟨.file, rate, #[]⟩, rfl, fun n => ?_, fun others hsame => ?_⟩
  · have hprefix : (frames.take n).flatten.length ≤ frames.flatten.length := by
      conv_rhs => rw [← List.take_append_drop n frames, List.flatten_append, List.length_append]
      exact Nat.le_add_right _ _
    refine ⟨_, appendAll_file rfl _, ?_⟩
    have hcaptured : Captures ⟨.file, rate, (frames.take n).flatten.toArray⟩ rate (frames.take n) :=
      captures_flatten hrate (by omega)
    simpa using hcaptured
  · rw [appendAll_file rfl, appendAll_file rfl, hsame]

/-- Frames with the least and the greatest sample, one of them empty. -/
def extremeFrames : List (List Int16) := [[0, -1, 32767], [], [-32768, 1, 256]]

theorem captures_frames_extreme :
    (44100 : UInt32).toNat ≤ 1073741823 ∧ 2 * extremeFrames.flatten.length < 2 ^ 32 - 36 ∧
      ∃ begun c file, create .file 44100 = .ok begun ∧ begun.appendAll extremeFrames = .ok c ∧
        c.written = 6 ∧ c.finish = .ok (3, file) ∧ file.length = 56 ∧
        read file = some ⟨2, 44100, [0, -1, 32767, -32768, 1, 256]⟩ := by
  have hrate : (44100 : UInt32).toNat ≤ 1073741823 := by decide
  have hsize : 2 * extremeFrames.flatten.length < 2 ^ 32 - 36 := by decide
  obtain ⟨begun, hbegun, hafter, -⟩ := captures_frames hrate extremeFrames hsize
  obtain ⟨c, hc, hcaptures⟩ := hafter 3
  obtain ⟨file, hfile, hlength, -, -, hread⟩ := hcaptures.even (by decide)
  exact ⟨hrate, hsize, begun, c, file, hbegun, hc, hcaptures.written_eq, hfile, hlength, hread⟩

end SidPlayback.Wave.Capture
