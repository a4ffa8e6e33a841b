/-
  The emulated machine: its sound chip and its video standard.
-/

namespace SidPlayback

/-- The model of the sound chip. -/
inductive ChipModel where
  | mos6581
  | mos8580
deriving DecidableEq

/-- The video standard, which sets the clock of the machine. -/
inductive VideoStandard where
  | pal
  | ntsc
deriving DecidableEq

end SidPlayback
