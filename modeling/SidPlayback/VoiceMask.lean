/-
  Sets of the voices of a chip, one bit for each.
-/
import SidPlayback.Panning

namespace SidPlayback

/-- A set of voices: bit `i` stands for voice `i`. -/
abbrev VoiceMask := BitVec chipVoices

namespace VoiceMask

/-- The set that the low bits of a byte describe; the other bits are ignored. -/
def ofByte (raw : UInt8) : VoiceMask := BitVec.ofNat chipVoices raw.toNat

/-- The set that a byte describes, if it has no other bits. -/
def ofByte? (raw : UInt8) : Option VoiceMask :=
  if raw.toNat < 1 <<< chipVoices then some (ofByte raw) else none

/-- Whether a voice is in the set. -/
def enables (mask : VoiceMask) (voice : Nat) : Bool := mask.getLsbD voice

/-- All voices. -/
def all : VoiceMask := BitVec.allOnes chipVoices

/-- The voices of one set that are not in another. -/
def without (mask other : VoiceMask) : VoiceMask := mask &&& ~~~other

end VoiceMask
end SidPlayback
