/-
  Traces: the samples of single voices in the last computed frame.

  * `Traces` is the view that a player gives of them;
  * `Traces.sample?` is one sample, scaled to `-1 … 1`;
  * `Traces.copy` copies a trace into a buffer.
-/
import SidPlayback.Cursor

namespace SidPlayback

/-- The traces of a frame. -/
structure Traces where
  /-- Four for each chip: three voices and the digi output. -/
  streams : List (List Int16)
  /-- Where the listener was when the view was taken. -/
  cursor : Cursor
  /-- Whether the track records traces; if not, they are stale. -/
  traced : Bool

namespace Traces

/-- A sample scaled to `-1 … 1`. -/
def scaled (s : Int16) : Float32 :=
  let magnitude := (UInt64.ofNat s.toInt.natAbs).toFloat32
  (if s.toInt < 0 then -magnitude else magnitude) / 32768.0

/-- The number of traces. -/
def size (t : Traces) : Nat := t.streams.length

/-- One trace. -/
def stream? (t : Traces) (index : Nat) : Option (List Int16) := t.streams[index]?

/-- One sample of a trace, scaled. -/
def sample? (t : Traces) (index sample : Nat) : Option Float32 :=
  (t.stream? index).bind fun samples => samples[sample]?.map scaled

/-- Overwrites the beginning of a buffer with as much of `values` as fits; the
    number of values copied comes with the buffer. -/
def overwrite {α : Type} (values buffer : List α) : Nat × List α :=
  let n := min values.length buffer.length
  (n, values.take n ++ buffer.drop n)

/-- Copies a trace into a buffer; without such a trace the buffer stays. -/
def copy (t : Traces) (index : Nat) (buffer : List Int16) : Nat × List Int16 :=
  overwrite ((t.stream? index).getD []) buffer

end Traces
end SidPlayback
