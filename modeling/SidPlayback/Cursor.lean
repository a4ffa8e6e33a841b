/-
  Where the listener is: the host plays one half of a double buffer while the
  engine fills the other.
-/

namespace SidPlayback

/-- A position in the output that is playing. -/
structure Cursor where
  /-- The half of the double buffer that is playing. -/
  buffer : UInt8
  /-- The number of ticks into it. -/
  tick : UInt32
deriving DecidableEq

namespace Cursor

/-- The number of samples of a tick. -/
def tickSamples : Nat := 256

/-- The number of samples into the playing buffer; the largest word if there are
    more. -/
def sampleOffset (c : Cursor) : UInt32 :=
  UInt32.ofNat (min (c.tick.toNat * tickSamples) (UInt32.size - 1))

end Cursor
end SidPlayback
