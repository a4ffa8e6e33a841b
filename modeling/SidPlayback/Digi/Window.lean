/-
  Smoothing of the digi telemetry.

  Detection toggles from frame to frame, far too often to be shown.  Frames are
  therefore collected in windows of twenty, and each full window yields one
  status: the average rate of its frames with digi output, and their techniques.

  * `Window.observe` adds a frame, and returns the status of the window if the
    frame is its last;
  * `Window.empty` is the window that begins after that, and after a reset.
-/
import SidPlayback.Decimal.Binary
import SidPlayback.Digi.Status

namespace SidPlayback.Digi

/-- The number of frames of a window. -/
def windowLength : Nat := 20

/-- The part of a window seen so far. -/
structure Window where
  /-- The labels of the frames with digi output. -/
  labels : Labels
  /-- The sum of their rates. -/
  rateSum : Float
  /-- Their number. -/
  batches : Nat
  /-- The number of all frames. -/
  frames : Nat

namespace Window

/-- A window of which nothing was seen yet. -/
def empty : Window := ⟨[], 0.0, 0, 0⟩

/-- Whether a rate means digi output. -/
def isOutput (rate : Float) : Bool := rate.isFinite && 0.0 < rate

/-- The window with one frame more. -/
def add (w : Window) (rate : Float) (label : String) : Window :=
  if isOutput rate then
    ⟨Labels.insert label w.labels, w.rateSum + rate, w.batches + 1, w.frames + 1⟩
  else
    { w with frames := w.frames + 1 }

/-- The status of the frames in the window. -/
def status (w : Window) : Status :=
  if w.batches = 0 then {}
  else
    let average := w.rateSum / (UInt32.ofNat w.batches).toFloat
    { rate := UInt32.ofNat (Decimal.roundSaturating (UInt32.size - 1) average)
      label := Labels.summary w.labels }

/-- Adds a frame.  The frame that fills the window yields its status, and the
    next window begins. -/
def observe (w : Window) (rate : Float) (label : String) : Option Status × Window :=
  let w := w.add rate label
  if w.frames < windowLength then (none, w) else (some w.status, empty)

end Window
end SidPlayback.Digi
