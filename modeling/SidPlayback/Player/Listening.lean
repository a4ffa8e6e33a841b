/-
  What the listener hears right now.

  The engine computes a buffer while the host plays another, so its present state
  is ahead of what is heard.  It keeps snapshots for both buffers; the host's
  cursor tells which of them to ask for.

  * `Player.register` and `Player.voiceLevel` read at the host's cursor;
  * `Player.traces` is the view of the traces of the last frame.
-/
import SidPlayback.Player.Basic
import SidPlayback.Traces

namespace SidPlayback.Player

variable {ε η : Type} [Engine ε] [Host η]

/-- A chip register as it is heard. -/
def register (p : Player ε η) (chip : UInt8) (register : UInt16) : UInt16 :=
  Engine.register p.engine chip register (Host.cursor p.host)

/-- The level of a voice as it is heard. -/
def voiceLevel (p : Player ε η) (chip voice : UInt8) : UInt16 :=
  Engine.voiceLevel p.engine chip voice (Host.cursor p.host)

/-- The traces of the last frame; one that the engine lacks is empty. -/
def traces (p : Player ε η) : Reply ε η Traces where
  result :=
    { streams := (List.range (Engine.traceCount p.engine)).map fun index =>
        (Engine.trace? p.engine index).getD []
      cursor := Host.cursor p.host
      traced := p.traced }
  player := p
  notices := if p.traced then [] else [.tracesOff]

end SidPlayback.Player
