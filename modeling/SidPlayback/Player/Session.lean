/-
  Sessions: loading a song, starting a track, computing its frames.

  * `Player.load` hands a song and the ROM images to the engine;
  * `Player.start` and `Player.startJson` start a track;
  * `Player.step` has one frame computed.
-/
import SidPlayback.Engine.Staging
import SidPlayback.Player.Basic

namespace SidPlayback

/-- What a step yields. -/
inductive StepResult where
  /-- A frame with so many samples. -/
  | frame (samples : UInt32)
  /-- The track has ended, or none runs. -/
  | ended
deriving DecidableEq

namespace StepResult

/-- The code for the host: `0` to go on, `1` to stop. -/
def code : StepResult → Nat
  | frame _ => 0
  | ended => 1

/-- Whether there are no more frames. -/
def isEnd : StepResult → Bool
  | frame _ => false
  | ended => true

/-- The number of samples, if there is a frame. -/
def samples? : StepResult → Option UInt32
  | frame samples => some samples
  | ended => none

end StepResult

/-! ## Loading -/

/-- Whether a file holds a Compute! Sidplayer song. -/
def isLegacySong (file : String) : Bool := file.endsWith ".mus" || file.endsWith ".str"

/-- Stages a song and the ROM images, and has the engine load the song. -/
def stageSong {ε : Type} [Engine ε] (roms : Rom.Bank) (rate : UInt32) (file : String)
    (data : List UInt8) : StagingM ε UInt32 := do
  let song ← Staging.stage data
  let basic ← Staging.stageOptional (roms.basic.map (·.bytes))
  let character ← Staging.stageOptional (roms.character.map (·.bytes))
  let kernal ← Staging.stageOptional (roms.kernal.map (·.bytes))
  Staging.call (.load ⟨isLegacySong file, song, rate, file, basic, character, kernal⟩)

namespace Player

variable {ε η : Type} [Engine ε]

/-- The player without a song. -/
def unload (p : Player ε η) : Player ε η :=
  { p with session := .idle, rates := none, digi := .empty }

section
variable [Host η]

/-- Loads a song.  The engine is asked to render at the rate of the output
    device, so that nothing has to be resampled; the host is told the rate that
    it settled on.  If loading fails no song is left. -/
def load (p : Player ε η) (target : UInt32) (file : String) (data : List UInt8) :
    Reply ε η (Except Failure Unit) :=
  match p.lifecycle with
  | .uninitialized => ⟨.error .notReady, p, []⟩
  | .ready =>
    let rate := (Host.nativeRate? p.host).getD 0
    let (loading, engine, buffers) := Staging.within (stageSong p.roms rate file data) p.engine
    let p := { p.unload with engine := engine }
    match loading with
    | .error failure => ⟨.error failure, p, [.stagingReleased buffers]⟩
    | .ok status =>
      if status ≠ 0 then
        ⟨.error (.loadFailed status), p, [.stagingReleased buffers, .songRefused file status]⟩
      else
        let rates : Rates := ⟨Engine.sampleRate engine, target⟩
        ⟨.ok (),
          { p with
            host := Host.call (.configureResampler rates) p.host
            rates := some rates
            session := .loaded },
          [.stagingReleased buffers, .songLoaded file data.length rates]⟩

/-! ## Starting -/

/-- Starts a track of the loaded song, and returns the engine's status.  A track
    that the engine refuses leaves the song loaded. -/
def start (p : Player ε η) (options : TrackOptions) : Reply ε η (Except Failure UInt32) :=
  match p.lifecycle, options.check, p.session with
  | .uninitialized, _, _ => ⟨.error .notReady, p, []⟩
  | .ready, .error failure, _ => ⟨.error failure, p, []⟩
  | .ready, .ok (), .idle => ⟨.error .noSong, p, []⟩
  | .ready, .ok (), _ =>
    let host := match options.milliseconds? with
      | some milliseconds => Host.call (.setTimeout milliseconds) p.host
      | none => p.host
    let track := options.trackOrDefault
    let traced := options.tracedOr p.scope
    let bufferSize := Host.bufferSize host
    let (status, engine) := Engine.call (.play track traced bufferSize) p.engine
    let p := { p with
      engine := engine, host := host, track := track, traced := traced
      digi := .empty, frames := 0 }
    if status = 0 then
      ⟨.ok status, { p with session := .playing }, [.trackStarted track traced bufferSize]⟩
    else
      ⟨.ok status, { p with session := .loaded }, [.trackRefused track status]⟩

/-- Starts a track with options in JSON. -/
def startJson (p : Player ε η) (json : String) : Reply ε η (Except Failure UInt32) :=
  match TrackOptions.parse json with
  | .error failure => ⟨.error failure, p, []⟩
  | .ok options => p.start options

end

/-! ## Stepping -/

/-- Takes in the digi telemetry of the last frame. -/
def observeDigi (p : Player ε η) : Player ε η :=
  let rate := (Engine.digiRate p.engine).toFloat
  let label := Text.Extended.decode (Engine.digiLabel p.engine)
  let (status, digi) := p.digi.observe rate label
  { p with digi := digi, digiStatus := status.getD p.digiStatus }

/-- Has one frame computed.  A frame without samples ends the track; unless a
    track runs the engine is not called at all. -/
def step (p : Player ε η) : Reply ε η StepResult :=
  match p.session with
  | .playing =>
    let (answer, engine) := Engine.call .compute (p.hook p.engine)
    let p := { p with engine := engine }
    if answer.samples ≤ 0 then
      ⟨.ended, { p with digi := .empty, session := .ended }, [.songEnded p.frames]⟩
    else
      let p := { p with latency := p.latency.record answer.elapsed, frames := p.frames + 1 }
      ⟨.frame answer.samples.toUInt32, p.observeDigi, []⟩
  | _ => ⟨.ended, p, []⟩

end Player
end SidPlayback
