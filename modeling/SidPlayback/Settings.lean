/-
  Settings with which a player is made.

  * `Settings.record` describes them in JSON.
-/
import SidPlayback.Json.Record

namespace SidPlayback

/-- The settings of a player. -/
structure Settings where
  /-- Record traces unless the options of a track say otherwise. -/
  scope : Bool := false
  /-- The panning of all voices, not validated yet. -/
  panning : Option (List Float32) := none

namespace Settings

open Json in
/-- Settings in JSON. -/
def record : Record Settings where
  name := "struct AdapterConfig"
  blank := {}
  lenient := true
  fields := [
    .of "scopeEnabled" .boolean scope fun v s => { s with scope := v },
    .of "panning" (.optional (.list .single)) panning fun v s => { s with panning := v }]

/-- Reads settings from JSON. -/
def parse (json : String) : Except Failure Settings := record.decode json

end Settings
end SidPlayback
