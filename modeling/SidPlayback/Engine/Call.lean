/-
  The calls that change an engine, and their answers.

  An engine owns its own memory, into which the buffers for a call are copied
  first.  Whatever changes it goes through an `EngineCall`; `EngineCall.Answer`
  is the type of what the call returns.
-/
import SidPlayback.FilterCurve
import SidPlayback.Latency
import SidPlayback.Machine
import SidPlayback.Panning

namespace SidPlayback

/-- An address in the engine's memory. -/
structure Address where
  val : UInt32
deriving DecidableEq

/-- A buffer in the engine's memory. -/
structure Buffer where
  address : Address
  size : Nat
deriving DecidableEq

/-- What the engine is told when it loads a song. -/
structure LoadRequest where
  /-- The file is a Compute! Sidplayer song, which cannot be played in stereo. -/
  legacy : Bool
  song : Buffer
  /-- The rate asked for; `0` leaves the choice to the engine. -/
  rate : UInt32
  file : String
  /-- The ROM images, where there are any. -/
  basic : Option Address
  character : Option Address
  kernal : Option Address
deriving DecidableEq

/-- What the engine answers when it computes a frame. -/
structure FrameAnswer where
  /-- The number of samples; not positive at the end of the song. -/
  samples : Int32
  /-- How long the computation took. -/
  elapsed : Duration

/-- A call that may change the engine. -/
inductive EngineCall where
  /-- Allocates memory. -/
  | malloc (size : Nat)
  /-- Copies bytes into memory. -/
  | writeHeap (address : Address) (data : List UInt8)
  /-- Gives memory back. -/
  | free (address : Address)
  /-- Loads a song; the answer is `0` on success. -/
  | load (request : LoadRequest)
  /-- Starts a track; the answer is `0` on success. -/
  | play (track : Int32) (traced : Bool) (bufferSize : UInt32)
  /-- Computes the next frame. -/
  | compute
  /-- Replaces the panning of all voices. -/
  | initPanning (panning : Panning)
  /-- Changes the panning of one voice. -/
  | setPanning (chip voice : UInt8) (position : Float32)
  /-- Sets the stereo level. -/
  | setStereo (level : Int32)
  /-- Sets the reverb level. -/
  | setReverb (level : UInt16)
  /-- Selects the speaker model by its code. -/
  | setSpeaker (code : UInt8)
  /-- Replaces the filter curve; the answer is a status. -/
  | setFilter (curve : FilterCurve)
  /-- Selects the chip model. -/
  | setChip (model : ChipModel)
  /-- Selects the video standard. -/
  | setVideo (standard : VideoStandard)
  /-- Writes a chip register. -/
  | setRegister (chip : UInt8) (register : UInt16) (value : UInt8)
  /-- Mutes or unmutes a voice. -/
  | enableVoice (chip voice : UInt8) (on : Bool)
  /-- Writes to the machine's RAM. -/
  | setRam (address : UInt16) (value : UInt8)

/-- What a call returns. -/
@[reducible] def EngineCall.Answer : EngineCall → Type
  | malloc _ => Option Address
  | load _ | play _ _ _ => UInt32
  | compute => FrameAnswer
  | setFilter _ => Int32
  | _ => Unit

end SidPlayback
