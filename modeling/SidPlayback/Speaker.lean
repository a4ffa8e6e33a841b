/-
  The speaker model of the stereo enhancer, and its codes.
-/

namespace SidPlayback

/-- What the listener hears with. -/
inductive Speaker where
  | headphones
  | externalHeadphones
deriving DecidableEq

namespace Speaker

/-- The code of a model. -/
def code : Speaker → UInt8
  | headphones => 0
  | externalHeadphones => 1

/-- The model of a code, if there is one. -/
def ofCode? (code : Int) : Option Speaker :=
  if code = 0 then some headphones
  else if code = 1 then some externalHeadphones
  else none

/-- The name of a model. -/
def name : Speaker → String
  | headphones => "Headphones"
  | externalHeadphones => "ExternalHeadphones"

end Speaker
end SidPlayback
