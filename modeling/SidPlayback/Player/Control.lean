/-
  Controls: settings of the engine, and access to its machine.

  A `Control` is an adjustment that amounts to a list of engine calls, with its
  level brought into range first.  Controls are passed on whatever the state of
  the session.

  * `Control.calls` are the calls, and `Player.adjust` makes them;
  * `Player.setFilter` replaces the filter curve, `Player.cutoffs` copies a
    cutoff table;
  * `Player.memoryListing` lists the machine's RAM.
-/
import SidPlayback.Memory.Listing
import SidPlayback.Player.Basic
import SidPlayback.Speaker
import SidPlayback.Traces
import SidPlayback.VoiceMask

namespace SidPlayback

/-! ## Levels -/

/-- The stereo level that turns stereo off, panning included. -/
def stereoOff : Int32 := -1

/-- The highest stereo level. -/
def stereoHigh : Int32 := 32767

/-- The highest reverb level, in percent. -/
def reverbFull : UInt16 := 100

/-- A position brought into `0 … 1`; `NaN` stays as it is. -/
def clampPosition (v : Float32) : Float32 :=
  let v := if v < 0.0 then 0.0 else v
  if 1.0 < v then 1.0 else v

/-- A stereo level brought into range. -/
def clampStereo (level : Int32) : Int32 :=
  if level < stereoOff then stereoOff else if stereoHigh < level then stereoHigh else level

/-- A reverb level brought into range. -/
def clampReverb (level : UInt16) : UInt16 := if reverbFull < level then reverbFull else level

/-! ## Controls -/

/-- An adjustment of the engine. -/
inductive Control where
  /-- The panning of one voice. -/
  | panning (chip index : UInt8) (position : Float32)
  | stereo (level : Int32)
  | reverb (level : UInt16)
  | speaker (model : Speaker)
  | chip (model : ChipModel)
  | video (standard : VideoStandard)
  | register (chip : UInt8) (index : UInt16) (value : UInt8)
  | voice (chip index : UInt8) (on : Bool)
  /-- All voices of the first chip. -/
  | voices (mask : VoiceMask)
  | ram (address : UInt16) (value : UInt8)

/-- The calls that make an adjustment. -/
def Control.calls : Control → List EngineCall
  | panning slot index position => [.setPanning slot index (clampPosition position)]
  | stereo level => [.setStereo (clampStereo level)]
  | reverb level => [.setReverb (clampReverb level)]
  | speaker model => [.setSpeaker model.code]
  | chip model => [.setChip model]
  | video standard => [.setVideo standard]
  | register slot address value => [.setRegister slot address value]
  | voice slot index on => [.enableVoice slot index on]
  | voices mask =>
    (List.range chipVoices).map fun index =>
      .enableVoice 0 (UInt8.ofNat index) (VoiceMask.enables mask index)
  | ram address value => [.setRam address value]

namespace Player

variable {ε η : Type} [Engine ε]

/-- Makes an adjustment. -/
def adjust (p : Player ε η) (control : Control) : Player ε η :=
  { p with engine := control.calls.foldl (fun engine c => Engine.after c engine) p.engine }

/-- Replaces the filter curve, and returns the engine's status. -/
def setFilter (p : Player ε η) (curve : FilterCurve) : Reply ε η Int32 :=
  let (status, engine) := Engine.call (.setFilter curve) p.engine
  ⟨status, { p with engine := engine }, []⟩

/-! ## Reading -/

/-- The speaker model, if the engine's code is known. -/
def speaker? (p : Player ε η) : Option Speaker :=
  Speaker.ofCode? (Engine.speaker p.engine).toNat

/-- Copies the cutoff table of a distortion level over the beginning of a buffer,
    at most a table's size; returns the number of values copied, too. -/
def cutoffs (p : Player ε η) (level : Int32) (buffer : List Float) : Nat × List Float :=
  Traces.overwrite ((Engine.cutoffs p.engine level).take cutoffTableSize) buffer

/-- What is known about the song. -/
def songInfo (p : Player ε η) : Song.Info := .ofRaw (Engine.song p.engine)

/-- The bytes of RAM from `first` to `last`, both included. -/
def memory (p : Player ε η) (first last : UInt16) : List UInt8 :=
  (List.range' first.toNat (last.toNat + 1 - first.toNat)).map fun address =>
    Engine.ram p.engine (UInt16.ofNat address)

/-- The listing of RAM from `first` to `last`. -/
def memoryListing (p : Player ε η) (name : String) (first last : UInt16) : Reply ε η String :=
  let text := Memory.Listing.render name (p.memory first last)
  ⟨text, p, [.memoryListing text]⟩

end Player
end SidPlayback
