/-
  The operations on a player, as data.

  What can be done to a player is an `Operation`, so that histories are lists.

  * `Player.perform` performs an operation, with a result of its type
    (`Operation.Result`);
  * `Player.run` performs a list of operations.
-/
import SidPlayback.Player.Control
import SidPlayback.Player.Recording

namespace SidPlayback

/-- Something that can be done to a player. -/
inductive Operation where
  | notifyReady
  | applyPanning (values : List Float32)
  | enableScope (on : Bool)
  | load (target : UInt32) (file : String) (data : List UInt8)
  | start (options : TrackOptions)
  | startJson (json : String)
  | step
  | record (destination : Wave.Destination) (limit : Nat)
  | adjust (control : Control)
  | setFilter (curve : FilterCurve)

/-- The type of the result of an operation. -/
@[reducible] def Operation.Result : Operation → Type
  | notifyReady => Bool
  | applyPanning _ | load _ _ _ => Except Failure Unit
  | start _ | startJson _ => Except Failure UInt32
  | step => StepResult
  | record _ _ => Except Failure Recording
  | setFilter _ => Int32
  | enableScope _ | adjust _ => Unit

namespace Player

variable {ε η : Type} [Engine ε] [Host η]

/-- Performs an operation. -/
def perform (p : Player ε η) : (o : Operation) → Reply ε η o.Result
  | .notifyReady => p.notifyReady
  | .applyPanning values => p.applyPanning values
  | .enableScope on => ⟨(), p.enableScope on, []⟩
  | .load target file data => p.load target file data
  | .start options => p.start options
  | .startJson json => p.startJson json
  | .step => p.step
  | .record destination limit => p.record destination limit
  | .adjust control => ⟨(), p.adjust control, []⟩
  | .setFilter curve => p.setFilter curve

/-- The player after a list of operations. -/
def run (p : Player ε η) (operations : List Operation) : Player ε η :=
  operations.foldl (fun p o => (p.perform o).player) p

end Player
end SidPlayback
