/-
  Players: an engine and a host, brought together.

  A player loads songs into its engine, starts their tracks, has frames computed
  one by one and keeps account of the session.  It deals with an engine that is
  still initializing by refusing songs, and by keeping the panning for later.

  * `Player` is the state, `Reply` what an operation returns: a result, the
    player after it, and notices;
  * `Player.create` and `Player.createWith` make a player;
  * `Player.notifyReady` and `Player.applyPanning` concern an engine that is not
    ready yet.
-/
import SidPlayback.Digi.Window
import SidPlayback.Engine.Basic
import SidPlayback.Host.Basic
import SidPlayback.Rom.Bank
import SidPlayback.Settings
import SidPlayback.TrackOptions

namespace SidPlayback

/-- Whether the engine can be used. -/
inductive Lifecycle where
  | uninitialized
  | ready
deriving DecidableEq

/-- How far a session has come. -/
inductive Session where
  /-- No song is loaded. -/
  | idle
  /-- A song is loaded, but no track runs. -/
  | loaded
  /-- A track runs. -/
  | playing
  /-- The track has ended. -/
  | ended
deriving DecidableEq

/-- A player with an engine `ε` and a host `η`. -/
structure Player (ε η : Type) where
  engine : ε
  host : η
  roms : Rom.Bank
  lifecycle : Lifecycle
  /-- The panning that waits for the engine. -/
  pendingPanning : Option Panning
  /-- The panning last handed to the engine. -/
  panning : Option Panning
  /-- Whether tracks record traces, unless their options say otherwise. -/
  scope : Bool
  session : Session
  /-- The rates of the loaded song. -/
  rates : Option Rates
  /-- The track that was started last, and whether it records traces. -/
  track : Int32
  traced : Bool
  /-- The digi telemetry since the last full window, and the status of that. -/
  digi : Digi.Window
  digiStatus : Digi.Status
  latency : Latency
  /-- The number of frames since the last start, without a bound: a counter of 64 bits
      agrees with it below `2 ^ 64` frames. -/
  frames : Nat
  /-- What is done to the engine before every frame. -/
  hook : ε → ε

/-- What an operation returns. -/
structure Reply (ε η α : Type) where
  result : α
  player : Player ε η
  /-- What happened, in order. -/
  notices : List Notice

namespace Player

variable {ε η : Type}

/-- Whether the engine can be used. -/
def isReady (p : Player ε η) : Bool := p.lifecycle == .ready

/-- The player with another default for the recording of traces. -/
def enableScope (p : Player ε η) (on : Bool) : Player ε η := { p with scope := on }

/-- The player with another hook. -/
def setHook (p : Player ε η) (hook : ε → ε) : Player ε η := { p with hook := hook }

variable [Engine ε]

/-! ## Panning -/

/-- Hands a panning to the engine. -/
def forwardPanning (p : Player ε η) (panning : Panning) : Player ε η :=
  { p with
    engine := Engine.after (.initPanning panning) p.engine
    panning := some panning }

/-- Takes note that the engine is ready, and hands it the panning that waited.
    Only the first time has an effect; the result says whether this was it. -/
def notifyReady (p : Player ε η) : Reply ε η Bool :=
  match p.lifecycle with
  | .ready => ⟨false, p, []⟩
  | .uninitialized =>
    let p := { p with lifecycle := .ready }
    match p.pendingPanning with
    | none => ⟨true, p, [.engineReady]⟩
    | some panning =>
      ⟨true, { p with pendingPanning := none }.forwardPanning panning, [.engineReady]⟩

/-- Applies a panning, at once or as soon as the engine is ready.  Values that are
    no panning change nothing. -/
def applyPanning (p : Player ε η) (values : List Float32) : Reply ε η (Except Failure Unit) :=
  match Panning.check values with
  | .error fault => ⟨.error fault.failure, p, [.panningIgnored fault.failure]⟩
  | .ok panning =>
    match p.lifecycle with
    | .ready => ⟨.ok (), p.forwardPanning panning, []⟩
    | .uninitialized => ⟨.ok (), { p with pendingPanning := some panning }, [.panningDeferred]⟩

/-! ## Making a player -/

/-- A player that has done nothing yet. -/
def initial (engine : ε) (host : η) (roms : Rom.Bank) : Player ε η where
  engine := engine
  host := host
  roms := roms
  lifecycle := .uninitialized
  pendingPanning := none
  panning := none
  scope := false
  session := .idle
  rates := none
  track := defaultTrack
  traced := false
  digi := .empty
  digiStatus := {}
  latency := .empty
  frames := 0
  hook := id

/-- Makes a player; it is ready if its engine is. -/
def create (engine : ε) (host : η) (roms : Rom.Bank) : Reply ε η Unit :=
  let p := initial engine host roms
  if Engine.isReady engine then
    let reply := p.notifyReady
    ⟨(), reply.player, .created roms.count :: reply.notices⟩
  else ⟨(), p, [.created roms.count]⟩

/-- Makes a player and applies settings to it; a panning that is none is ignored. -/
def createWith (engine : ε) (host : η) (roms : Rom.Bank) (settings : Settings) :
    Reply ε η Unit :=
  let made := create engine host roms
  let p := made.player.enableScope settings.scope
  match settings.panning with
  | none => ⟨(), p, made.notices⟩
  | some values =>
    let reply := p.applyPanning values
    ⟨(), reply.player, made.notices ++ reply.notices⟩

end Player
end SidPlayback
