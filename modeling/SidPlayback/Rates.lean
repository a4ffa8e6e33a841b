/-
  The sample rates of a loaded song: the one at which the engine renders, and
  the one that the host wants.
-/

namespace SidPlayback

/-- Output rates, in samples per second. -/
structure Rates where
  /-- The rate at which the engine renders. -/
  engine : UInt32
  /-- The rate that the host wants. -/
  target : UInt32
deriving DecidableEq

namespace Rates

/-- Engine samples per target sample; `1` if there is no target rate. -/
def ratio (r : Rates) : Float :=
  if r.target = 0 then 1.0 else r.engine.toFloat / r.target.toFloat

/-- Whether the host has to resample. -/
def needsResampling (r : Rates) : Bool := r.engine != r.target

end Rates
end SidPlayback
