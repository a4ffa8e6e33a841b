/-
  How long the engine takes to compute a frame.

  Latencies are averaged over windows of a hundred frames, and the averages of
  the windows are averaged again in the long run.

  * `Duration` is a span of time, and `Duration.milliseconds` its length;
  * `Latency.record` takes in the latency of one frame;
  * `Latency.windowAverage` and `Latency.longRunAverage` are the two averages.
-/

namespace SidPlayback

/-- A span of time: whole seconds, and less than a second in nanoseconds. -/
structure Duration where
  seconds : UInt64
  nanoseconds : UInt32

namespace Duration

/-- No time at all. -/
def zero : Duration := ⟨0, 0⟩

/-- A span of seconds and nanoseconds; full seconds among the latter are
    carried over. -/
def ofParts (seconds : UInt64) (nanoseconds : UInt32) : Duration :=
  ⟨seconds + (nanoseconds / 1000000000).toUInt64, nanoseconds % 1000000000⟩

/-- The length in milliseconds, computed by way of seconds. -/
def milliseconds (d : Duration) : Float :=
  (d.seconds.toFloat + d.nanoseconds.toFloat / 1e9) * 1000.0

end Duration

/-- A two-level average of frame latencies, in milliseconds. -/
structure Latency where
  /-- The sum and the number of the latencies in the open window. -/
  windowSum : Float
  windowRuns : Nat
  /-- The average of the last complete window. -/
  windowAverage : Option Float
  /-- The sum and the number of the averages of all complete windows, without a bound: a
      counter of 32 bits agrees with it below `2 ^ 32` windows. -/
  longSum : Float
  windows : Nat

namespace Latency

/-- The number of frames of a window. -/
def windowLength : Nat := 100

/-- Nothing measured yet. -/
def empty : Latency := ⟨0.0, 0, none, 0.0, 0⟩

/-- Takes in the latency of one frame. -/
def record (l : Latency) (elapsed : Duration) : Latency :=
  let sum := l.windowSum + elapsed.milliseconds
  let runs := l.windowRuns + 1
  if runs = windowLength then
    let average := sum / (UInt32.ofNat runs).toFloat
    ⟨0.0, 0, some average, l.longSum + average, l.windows + 1⟩
  else
    { l with windowSum := sum, windowRuns := runs }

/-- The average of the complete windows. -/
def longRunAverage (l : Latency) : Option Float :=
  if l.windows = 0 then none else some (l.longSum / (UInt32.ofNat l.windows).toFloat)

end Latency
end SidPlayback
