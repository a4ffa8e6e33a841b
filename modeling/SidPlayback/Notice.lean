/-
  Notices: what the library reports while it works, beside its results.

  A `Notice` says what happened; its level and its text follow from that.
-/
import SidPlayback.Failure
import SidPlayback.Rates

namespace SidPlayback

/-- How important a notice is. -/
inductive Level where
  | debug
  | info
  | warn
deriving DecidableEq

/-- Something worth reporting. -/
inductive Notice where
  /-- A ROM text cannot be decoded. -/
  | romRejected
  /-- A ROM text does not hold an image of the right size. -/
  | romSize (decoded expected : Nat)
  /-- A player was made, with this many ROM images. -/
  | created (roms : Nat)
  /-- The engine finished its initialization. -/
  | engineReady
  /-- Panning waits for the engine. -/
  | panningDeferred
  /-- Panning was refused. -/
  | panningIgnored (failure : Failure)
  /-- The buffers staged for a call were freed. -/
  | stagingReleased (buffers : Nat)
  /-- A staging area was given up with buffers still allocated. -/
  | stagingAbandoned (buffers : Nat)
  /-- The engine refused a song. -/
  | songRefused (file : String) (status : UInt32)
  /-- A song of `size` bytes was loaded. -/
  | songLoaded (file : String) (size : Nat) (rates : Rates)
  /-- A track runs. -/
  | trackStarted (track : Int32) (traced : Bool) (bufferSize : UInt32)
  /-- The engine refused a track. -/
  | trackRefused (track : Int32) (status : UInt32)
  /-- The track ended. -/
  | songEnded (frames : Nat)
  /-- Traces were asked for, but the track does not record any. -/
  | tracesOff
  /-- The text of a memory listing. -/
  | memoryListing (text : String)
  /-- Frames were recorded into a file. -/
  | recorded (frames pairs : Nat) (file : String)
deriving DecidableEq

namespace Notice

/-- The level of a notice. -/
def level : Notice → Level
  | panningIgnored _ | stagingAbandoned _ | songRefused _ _ | trackRefused _ _ => .warn
  | songLoaded _ _ _ | recorded _ _ _ => .info
  | _ => .debug

/-- The text of a notice. -/
def text : Notice → String
  | romRejected => "ROM image rejected: invalid base64"
  | romSize decoded expected =>
    s!"ROM image size mismatch: decoded {decoded} bytes, expected {expected}"
  | created roms => s!"adapter created with {roms} ROM images"
  | engineReady => "engine ready"
  | panningDeferred => "engine not ready, deferring panning configuration"
  | panningIgnored failure => "ignoring panning configuration: " ++ failure.message
  | stagingReleased buffers => s!"released {buffers} staged engine buffers"
  | stagingAbandoned buffers =>
    s!"staging area dropped with {buffers} unreleased engine buffers"
  | songRefused file status => s!"engine rejected '{file}' (status {status.toNat})"
  | songLoaded file size rates =>
    s!"loaded '{file}' ({size} bytes, engine rate {rates.engine.toNat} Hz, target "
      ++ s!"{rates.target.toNat} Hz)"
  | trackStarted track traced bufferSize =>
    s!"started track {track.toInt} (trace {traced}, buffer {bufferSize.toNat} samples)"
  | trackRefused track status =>
    s!"engine refused to start track {track.toInt} (status {status.toNat})"
  | songEnded frames => s!"end of song after {frames} frames"
  | tracesOff => "trace streams requested but tracing is off for this track"
  | memoryListing text => text
  | recorded frames pairs file => s!"recorded {frames} frames ({pairs} samples) to {file}"

end Notice
end SidPlayback
