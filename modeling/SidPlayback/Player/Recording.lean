/-
  Recording a track in a WAV file.

  * `Player.record` steps through the running track and captures its frames.
-/
import SidPlayback.Player.Session
import SidPlayback.Wave.Capture

namespace SidPlayback

/-- What was recorded. -/
structure Recording where
  /-- The number of frames. -/
  frames : Nat
  /-- The contents of the file. -/
  file : List UInt8

namespace Player

variable {ε η : Type} [Engine ε]

/-- Captures frames until the track ends or `limit` frames are there; `frames`
    counts those that are. -/
def recordFrames :
    Nat → Nat → Wave.Capture → Player ε η → Reply ε η (Except Failure (Nat × Wave.Capture))
  | 0, frames, capture, p => ⟨.ok (frames, capture), p, []⟩
  | limit + 1, frames, capture, p =>
    let stepped := p.step
    match stepped.result with
    | .ended => ⟨.ok (frames, capture), stepped.player, stepped.notices⟩
    | .frame _ =>
      match capture.append (Engine.sound stepped.player.engine) with
      | .error fault => ⟨.error fault.failure, stepped.player, stepped.notices⟩
      | .ok capture =>
        let rest := recordFrames limit (frames + 1) capture stepped.player
        { rest with notices := stepped.notices ++ rest.notices }

/-- Steps through the running track into a file, until the track ends or `limit`
    frames are recorded.  The file has the engine's own rate. -/
def record (p : Player ε η) (destination : Wave.Destination) (limit : Nat) :
    Reply ε η (Except Failure Recording) :=
  match p.rates with
  | none => ⟨.error .noSong, p, []⟩
  | some rates =>
    match Wave.Capture.create destination.medium rates.engine with
    | .error fault => ⟨.error fault.failure, p, []⟩
    | .ok capture =>
      let captured := recordFrames limit 0 capture p
      match captured.result with
      | .error failure => { captured with result := .error failure }
      | .ok (frames, capture) =>
        match capture.finish with
        | .error fault => { captured with result := .error fault.failure }
        | .ok (pairs, file) =>
          { captured with
            result := .ok ⟨frames, file⟩
            notices := captured.notices ++ [.recorded frames pairs destination.path] }

end Player
end SidPlayback
