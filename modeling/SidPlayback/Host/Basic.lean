/-
  Hosts: what owns the audio output and asks for frames.

  A host is a state of some type.  `HostCall` is what a player tells it;
  everything else is only read.
-/
import SidPlayback.Cursor
import SidPlayback.Rates

namespace SidPlayback

/-- A call that may change the host. -/
inductive HostCall where
  /-- Stop playing after so many milliseconds. -/
  | setTimeout (milliseconds : Nat)
  /-- Resample from the engine's rate to the target rate. -/
  | configureResampler (rates : Rates)
deriving DecidableEq

/-- The states of type `η` are those of a host. -/
class Host (η : Type) where
  /-- Takes a call. -/
  call (c : HostCall) (host : η) : η
  /-- The number of samples of an output buffer. -/
  bufferSize (host : η) : UInt32
  /-- Where the listener is. -/
  cursor (host : η) : Cursor
  /-- The rate of the output device, if it is known. -/
  nativeRate? (host : η) : Option UInt32

end SidPlayback
