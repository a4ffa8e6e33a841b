/-
  Options for starting a track.

  * `TrackOptions.check` accepts options with a sensible timeout;
  * `TrackOptions.parse` reads options from JSON and checks them;
  * `TrackOptions.milliseconds?` is the timeout as the host takes it.
-/
import SidPlayback.Decimal.Layout
import SidPlayback.Json.Record

namespace SidPlayback

/-- The track number that leaves the choice to the engine. -/
def defaultTrack : Int32 := -1

/-- What a track is started with; everything may be left open. -/
structure TrackOptions where
  /-- The track to play. -/
  track : Option Int32 := none
  /-- Whether to record traces. -/
  traced : Option Bool := none
  /-- The time after which to stop, in seconds. -/
  timeout : Option Float := none

namespace TrackOptions

/-- The track to start. -/
def trackOrDefault (o : TrackOptions) : Int32 := o.track.getD defaultTrack

/-- Whether to record traces, if that is left open: as `scope` says. -/
def tracedOr (o : TrackOptions) (scope : Bool) : Bool := o.traced.getD scope

/-- The timeout in whole milliseconds. -/
def milliseconds? (o : TrackOptions) : Option Nat :=
  o.timeout.map fun seconds => Decimal.roundSaturating (UInt64.size - 1) (seconds * 1000.0)

/-- Whether a number of seconds is a timeout. -/
def isTimeout (seconds : Float) : Bool := seconds.isFinite && !(seconds < 0.0)

/-- The failure of a timeout that is none. -/
def badTimeout (seconds : Float) : Failure :=
  .configuration
    ("timeout must be a non-negative number of seconds, got " ++ Decimal.plainText seconds)

/-- Accepts options unless their timeout is no timeout. -/
def check (o : TrackOptions) : Except Failure Unit :=
  match o.timeout with
  | some seconds => if isTimeout seconds then .ok () else .error (badTimeout seconds)
  | none => .ok ()

open Json in
/-- Options in JSON. -/
def record : Record TrackOptions where
  name := "struct PlaybackOptions"
  blank := {}
  lenient := true
  fields := [
    .of "track" (.optional .int32) track fun v o => { o with track := v },
    .of "traceSID" (.optional .boolean) traced fun v o => { o with traced := v },
    .of "timeout" (.optional .real) timeout fun v o => { o with timeout := v }]

/-- Reads options from JSON and checks them. -/
def parse (json : String) : Except Failure TrackOptions := do
  let options ← record.decode json
  options.check
  pure options

end TrackOptions
end SidPlayback
