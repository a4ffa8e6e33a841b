/-
  Engines and hosts that keep a history of the calls made to them.

  A `Recorded` state behaves as the state inside it, and remembers every call
  together with its answer.
-/
import SidPlayback.Engine.Basic
import SidPlayback.Host.Basic

namespace SidPlayback

/-- A call to an engine, and its answer. -/
structure EngineEvent where
  call : EngineCall
  answer : call.Answer

/-- A state with the history of its calls, the oldest first. -/
structure Recorded (σ event : Type) where
  state : σ
  history : Array event

namespace Recorded

/-- A state before any call. -/
def fresh {σ event : Type} (state : σ) : Recorded σ event := ⟨state, #[]⟩

/-- The state with an empty history. -/
def forget {σ event : Type} (r : Recorded σ event) : Recorded σ event := ⟨r.state, #[]⟩

variable {ε η : Type}

instance [Engine ε] : Engine (Recorded ε EngineEvent) where
  call c r :=
    let (answer, state) := Engine.call c r.state
    (answer, ⟨state, r.history.push ⟨c, answer⟩⟩)
  isReady r := Engine.isReady r.state
  sampleRate r := Engine.sampleRate r.state
  sound r := Engine.sound r.state
  song r := Engine.song r.state
  digiType r := Engine.digiType r.state
  digiLabel r := Engine.digiLabel r.state
  digiRate r := Engine.digiRate r.state
  panning r := Engine.panning r.state
  stereo r := Engine.stereo r.state
  reverb r := Engine.reverb r.state
  speaker r := Engine.speaker r.state
  filter r := Engine.filter r.state
  cutoffs r := Engine.cutoffs r.state
  chip r := Engine.chip r.state
  video r := Engine.video r.state
  chips r := Engine.chips r.state
  baseAddress r := Engine.baseAddress r.state
  register r := Engine.register r.state
  voiceLevel r := Engine.voiceLevel r.state
  ram r := Engine.ram r.state
  traceCount r := Engine.traceCount r.state
  trace? r := Engine.trace? r.state

instance [Host η] : Host (Recorded η HostCall) where
  call c r := ⟨Host.call c r.state, r.history.push c⟩
  bufferSize r := Host.bufferSize r.state
  cursor r := Host.cursor r.state
  nativeRate? r := Host.nativeRate? r.state

end Recorded
end SidPlayback
