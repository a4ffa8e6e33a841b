/-
  The filter curve of the 6581.

  The cutoff curve varies from chip to chip, so the engine models it with nine
  parameters, which are passed through unchanged.

  * `FilterCurve.toList` and `FilterCurve.ofVector` give the order in which the
    engine takes them;
  * `FilterCurve.record` describes a curve in JSON.
-/
import SidPlayback.Json.Record

namespace SidPlayback

/-- The number of entries of a cutoff table. -/
def cutoffTableSize : Nat := 1024

/-- The parameters of a cutoff curve. -/
structure FilterCurve where
  /-- The cutoff at register value 0. -/
  base : Float
  /-- The largest cutoff. -/
  max : Float
  steepness : Float
  /-- The horizontal offset. -/
  xOffset : Float
  /-- The amount, the offset and the scale of the distortion, and the level above
      which it applies. -/
  distort : Float
  distortOffset : Float
  distortScale : Float
  distortThreshold : Float
  /-- The kink of the curve. -/
  kink : Float

namespace FilterCurve

/-- All parameters zero. -/
def zero : FilterCurve := ⟨0, 0, 0, 0, 0, 0, 0, 0, 0⟩

/-- The parameters in their order. -/
def toList (c : FilterCurve) : List Float :=
  [c.base, c.max, c.steepness, c.xOffset, c.distort, c.distortOffset, c.distortScale,
    c.distortThreshold, c.kink]

/-- The curve with the given parameters. -/
def ofVector (v : Vector Float 9) : FilterCurve :=
  ⟨v[0], v[1], v[2], v[3], v[4], v[5], v[6], v[7], v[8]⟩

open Json in
/-- A curve in JSON. -/
def record : Record FilterCurve where
  name := "struct FilterConfig6581"
  blank := zero
  lenient := false
  fields := [
    .of "base" .real base fun v c => { c with base := v },
    .of "max" .real FilterCurve.max fun v c => { c with max := v },
    .of "steepness" .real steepness fun v c => { c with steepness := v },
    .of "x_offset" .real xOffset fun v c => { c with xOffset := v },
    .of "distort" .real distort fun v c => { c with distort := v },
    .of "distort_offset" .real distortOffset fun v c => { c with distortOffset := v },
    .of "distort_scale" .real distortScale fun v c => { c with distortScale := v },
    .of "distort_threshold" .real distortThreshold fun v c => { c with distortThreshold := v },
    .of "kink" .real kink fun v c => { c with kink := v }]

end FilterCurve
end SidPlayback
