/-
  The digi status: whether a song plays samples by writing the output registers
  directly, at what rate and by which techniques.

  * `Status` is what is shown for a window of frames, and `Status.record`
    describes it in JSON;
  * `Labels` is the set of the techniques seen in a window, ascending;
  * `Labels.summary` is the text for it.
-/
import SidPlayback.Json.Record

namespace SidPlayback.Digi

/-- A stabilized digi status; the default one says that nothing was played. -/
structure Status where
  /-- The average sample rate, `0` without digi output. -/
  rate : UInt32 := 0
  /-- The techniques, joined with `&`. -/
  label : String := ""
deriving DecidableEq

namespace Status

/-- Whether there was digi output. -/
def isActive (status : Status) : Bool := 0 < status.rate

open Json in
/-- A status in JSON. -/
def record : Record Status where
  name := "struct DigiStatus"
  blank := {}
  lenient := false
  fields := [
    .of "rate" .uint32 rate fun v status => { status with rate := v },
    .of "label" .text label fun v status => { status with label := v }]

end Status

/-! ## Labels -/

/-- A set of labels, as a list in ascending order without repetitions. -/
abbrev Labels := List String

namespace Labels

/-- The label of a frame in which no technique was identified. -/
def unidentified : String := "NONE"

/-- The label of a write to the volume register, which every other technique
    implies. -/
def generic : String := "D418"

/-- Adds a label to the set. -/
def insert (label : String) : Labels → Labels
  | [] => [label]
  | first :: rest =>
    if label < first then label :: first :: rest
    else if label = first then first :: rest
    else first :: insert label rest

/-- The labels that name a technique. -/
def techniques (labels : Labels) : Labels :=
  labels.filter fun label => label != "" && label != unidentified

/-- The techniques to show: the generic one only if there is no other. -/
def shown (labels : Labels) : Labels :=
  match techniques labels with
  | [only] => [only]
  | several => several.filter (· != generic)

/-- The text for the labels of a window. -/
def summary (labels : Labels) : String := "&".intercalate (shown labels)

end Labels
end SidPlayback.Digi
