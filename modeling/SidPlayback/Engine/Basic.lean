/-
  Engines: what emulates the machine and renders a song frame by frame.

  An engine is a state of some type that answers calls (`EngineCall`), and can be
  read without being changed.
-/
import SidPlayback.Cursor
import SidPlayback.Engine.Call
import SidPlayback.Song.Info

namespace SidPlayback

/-- The states of type `ε` are those of an engine. -/
class Engine (ε : Type) where
  /-- Answers a call. -/
  call (c : EngineCall) (engine : ε) : c.Answer × ε
  /-- Whether the engine has finished its initialization. -/
  isReady (engine : ε) : Bool
  /-- The output rate. -/
  sampleRate (engine : ε) : UInt32
  /-- The stereo samples of the last frame, left and right in turn. -/
  sound (engine : ε) : List Int16
  /-- What is known about the song. -/
  song (engine : ε) : Song.Raw
  /-- The digi technique of the last frame, by code and by label, and its rate. -/
  digiType (engine : ε) : UInt8
  digiLabel (engine : ε) : List UInt8
  digiRate (engine : ε) : UInt16
  /-- The panning of a voice. -/
  panning (engine : ε) (chip voice : UInt8) : Float32
  stereo (engine : ε) : Int32
  reverb (engine : ε) : UInt16
  /-- The code of the speaker model. -/
  speaker (engine : ε) : UInt8
  filter (engine : ε) : FilterCurve
  /-- The cutoff table of a distortion level. -/
  cutoffs (engine : ε) (level : Int32) : List Float
  chip (engine : ε) : ChipModel
  video (engine : ε) : VideoStandard
  /-- The number of chips that the song uses, and their addresses. -/
  chips (engine : ε) : UInt8
  baseAddress (engine : ε) (chip : UInt8) : UInt16
  /-- A chip register, and the level of a voice, at a position in the output. -/
  register (engine : ε) (chip : UInt8) (register : UInt16) (position : Cursor) : UInt16
  voiceLevel (engine : ε) (chip voice : UInt8) (position : Cursor) : UInt16
  /-- A byte of the machine's RAM. -/
  ram (engine : ε) (address : UInt16) : UInt8
  /-- The number of traces, and the samples of a trace in the last frame. -/
  traceCount (engine : ε) : Nat
  trace? (engine : ε) (index : Nat) : Option (List Int16)

/-- The engine after a call whose answer does not matter. -/
def Engine.after {ε : Type} [Engine ε] (c : EngineCall) (engine : ε) : ε :=
  (Engine.call c engine).2

end SidPlayback
