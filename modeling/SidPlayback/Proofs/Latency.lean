/-
  Latencies along any sequence of measurements and resets.

  What is averaged are the latencies since the last reset, in full blocks of a hundred; those of
  the open block are only collected.

  * `Latency.Input` is a measurement or a reset, and `Latency.run` what inputs make of a new
    latency;
  * `Latency.sinceReset` are the latencies since the last reset, in milliseconds;
  * `Latency.Collects` says which blocks a latency holds, and `Latency.collects_run` that it holds
    those since the last reset;
  * `Latency.Tells` is what can be asked of a latency, and `Latency.Collects.tells` says that it follows
    from what is held;
  * `Latency.Counts` is what numbers alone say of a latency.
-/
import SidPlayback.Latency
import SidPlayback.Proofs.Blocks
import SidPlayback.Proofs.Decimal.Whole

namespace SidPlayback.Latency

/-- What a latency is given. -/
inductive Input where
  | measured (elapsed : Duration)
  | reset

/-- What an input makes of a latency. -/
def next (l : Latency) : Input → Latency
  | .measured elapsed => l.record elapsed
  | .reset => empty

/-- What inputs make of a new latency. -/
def run (inputs : List Input) : Latency := inputs.foldl next empty

/-- The latencies since the last reset, in milliseconds. -/
def sinceReset (inputs : List Input) : List Float :=
  inputs.foldl (fun seen input =>
    match input with
    | .measured elapsed => seen ++ [elapsed.milliseconds]
    | .reset => []) []

/-- The sum of values, from left to right. -/
def total (values : List Float) : Float := values.foldl (· + ·) 0.0

/-- The average of a full block. -/
def blockAverage (block : List Float) : Float := total block / 100.0

theorem run_snoc (inputs : List Input) (input : Input) :
    run (inputs ++ [input]) = (run inputs).next input := List.foldl_concat ..

theorem sinceReset_measured (inputs : List Input) (elapsed : Duration) :
    sinceReset (inputs ++ [.measured elapsed]) = sinceReset inputs ++ [elapsed.milliseconds] := by
  simp [sinceReset]

theorem sinceReset_reset (inputs : List Input) : sinceReset (inputs ++ [.reset]) = [] := by
  simp [sinceReset]

theorem total_snoc (values : List Float) (value : Float) :
    total (values ++ [value]) = total values + value := List.foldl_concat ..

/-! ## Blocks -/

/-- The latency holds the sum of the open block of `values`, the average of the last full block and
    the sum of the averages of all of them. -/
structure Collects (l : Latency) (values : List Float) : Prop where
  windowSum : l.windowSum = total (openBlock 100 values)
  windowRuns : l.windowRuns = (openBlock 100 values).length
  windowAverage : l.windowAverage = (fullBlocks 100 values).getLast?.map blockAverage
  longSum : l.longSum = total ((fullBlocks 100 values).map blockAverage)
  windows : l.windows = (fullBlocks 100 values).length

theorem collects_empty : empty.Collects [] := ⟨rfl, rfl, rfl, rfl, rfl⟩

/-- A latency more is added to the open window, or completes it. -/
theorem record_cases (l : Latency) (elapsed : Duration) :
    (l.windowRuns + 1 ≠ 100 ∧ l.record elapsed =
        { l with windowSum := l.windowSum + elapsed.milliseconds, windowRuns := l.windowRuns + 1 }) ∨
      (l.windowRuns + 1 = 100 ∧ l.record elapsed =
        let average := (l.windowSum + elapsed.milliseconds) / 100.0
        ⟨0.0, 0, some average, l.longSum + average, l.windows + 1⟩) := by
  by_cases h : l.windowRuns + 1 = 100
  · refine .inr ⟨h, ?_⟩
    simp only [record, h, windowLength, if_true]
    rfl
  · exact .inl ⟨h, if_neg h⟩

/-- **One latency more** stays in the open block, or completes it. -/
theorem Collects.record {l : Latency} {values : List Float} (h : l.Collects values)
    (elapsed : Duration) : (l.record elapsed).Collects (values ++ [elapsed.milliseconds]) := by
  have hsum : l.windowSum + elapsed.milliseconds =
      total (openBlock 100 values ++ [elapsed.milliseconds]) := by rw [h.windowSum, total_snoc]
  have hruns := h.windowRuns
  have hblocks := blocks_snoc (show 0 < 100 by decide) values elapsed.milliseconds
  rcases l.record_cases elapsed with ⟨hroom, hrecord⟩ | ⟨hlast, hrecord⟩
  · obtain ⟨-, hfull, hopen⟩ := hblocks.resolve_right fun h => hroom (by rw [hruns, h.1])
    rw [hrecord]
    refine ⟨?_, ?_, ?_, ?_, ?_⟩
    · rw [hopen, hsum]
    · rw [hopen, hruns, List.length_append, List.length_singleton]
    · rw [hfull, h.windowAverage]
    · rw [hfull, h.longSum]
    · rw [hfull, h.windows]
  · obtain ⟨-, hfull, hopen⟩ := hblocks.resolve_left fun h => by rw [hruns] at hlast; omega
    rw [hrecord, hsum]
    refine ⟨?_, ?_, ?_, ?_, ?_⟩
    · rw [hopen]; rfl
    · rw [hopen]; rfl
    · rw [hfull, List.getLast?_concat]; rfl
    · rw [hfull, h.longSum, List.map_append, List.map_singleton]
      exact (total_snoc _ _).symm
    · rw [hfull, h.windows, List.length_append, List.length_singleton]

/-- **What is held** are the latencies since the last reset. -/
theorem collects_run (inputs : List Input) : (run inputs).Collects (sinceReset inputs) := by
  induction inputs using List.reverseRecOn with
  | nil => exact collects_empty
  | append_singleton inputs input ih =>
    rw [run_snoc]
    cases input with
    | measured elapsed =>
      rw [sinceReset_measured]
      exact ih.record elapsed
    | reset =>
      rw [sinceReset_reset]
      exact collects_empty

/-- What a latency tells of the values since the last reset: it depends on the full blocks only. -/
structure Tells (l : Latency) (values : List Float) : Prop where
  windows : l.windows = values.length / 100
  windowAverage :
    l.windowAverage = (fullBlocks 100 values).getLast?.map fun block => total block / 100.0
  windowAverage_eq_none : l.windowAverage = none ↔ values.length < 100
  longRunAverage : l.longRunAverage =
    if values.length < 100 then none
    else some (total ((fullBlocks 100 values).map fun block => total block / 100.0) /
      Decimal.whole (values.length / 100))
  /-- The number of the averages is exact. -/
  divisor : Decimal.rational? (Decimal.whole (values.length / 100)).toModel.unpack =
    some ((values.length / 100 : ℕ) : ℚ)

theorem Collects.tells {l : Latency} {values : List Float} (h : l.Collects values)
    (hfew : values.length / 100 < 2 ^ 32) : l.Tells values := by
  have hwindows : l.windows = values.length / 100 := by rw [h.windows, length_fullBlocks]
  refine ⟨hwindows, h.windowAverage, ?_, ?_, Decimal.rational?_whole (by omega)⟩
  · rw [h.windowAverage, Option.map_eq_none_iff, List.getLast?_eq_none_iff,
      ← List.length_eq_zero_iff, length_fullBlocks]
    omega
  · have hnumber : (UInt32.ofNat (values.length / 100)).toFloat =
        Decimal.whole (values.length / 100) := by
      rw [Decimal.toFloat_eq_whole', UInt32.toNat_ofNat_of_lt' hfew]
    rw [longRunAverage, hwindows, h.longSum, hnumber]
    exact if_congr (by omega) rfl rfl

/-! ## Numbers -/

/-- So many latencies were recorded, all but those of the open window in full ones. -/
structure Counts (l : Latency) (n : ℕ) : Prop where
  windowRuns_lt : l.windowRuns < 100
  total_eq : 100 * l.windows + l.windowRuns = n

theorem counts_empty : empty.Counts 0 := ⟨by decide, rfl⟩

theorem Counts.record {l : Latency} {n : ℕ} (h : l.Counts n) (elapsed : Duration) :
    (l.record elapsed).Counts (n + 1) := by
  have hlt := h.windowRuns_lt
  have heq := h.total_eq
  rcases l.record_cases elapsed with ⟨hroom, hrecord⟩ | ⟨hlast, hrecord⟩ <;> rw [hrecord]
  · exact ⟨show l.windowRuns + 1 < 100 by omega,
      show 100 * l.windows + (l.windowRuns + 1) = n + 1 by omega⟩
  · exact ⟨show 0 < 100 by decide, show 100 * (l.windows + 1) + 0 = n + 1 by omega⟩

theorem Counts.windows_eq {l : Latency} {n : ℕ} (h : l.Counts n) : l.windows = n / 100 := by
  have hlt := h.windowRuns_lt
  have heq := h.total_eq
  omega

end SidPlayback.Latency
