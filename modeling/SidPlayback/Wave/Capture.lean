/-
  Capturing samples in a WAV file.

  A capture takes samples frame by frame and makes a file of them in the end.
  Output is buffered, so a device without room shows itself only when the buffer
  is full, or at the end.

  * `Destination` is where a file goes, and what is there;
  * `Capture.create`, `Capture.append` and `Capture.finish` are the steps, each
    of which may fail (`Fault`).
-/
import SidPlayback.Failure
import SidPlayback.Wave.Format

namespace SidPlayback.Wave

/-! ## Destinations -/

/-- What is found at a path. -/
inductive Medium where
  /-- A file that can be written. -/
  | file
  /-- Nothing, not even a directory to put a file in. -/
  | missing
  /-- A directory. -/
  | directory
  /-- A device without room. -/
  | full
deriving DecidableEq

/-- Where a file goes. -/
structure Destination where
  path : String
  medium : Medium

/-! ## Faults -/

/-- An error of the file system. -/
inductive SystemError where
  | noSuchFile
  | isDirectory
  | noSpace
deriving DecidableEq

/-- The text of an error of the file system. -/
def SystemError.message : SystemError → String
  | noSuchFile => "No such file or directory (os error 2)"
  | isDirectory => "Is a directory (os error 21)"
  | noSpace => "No space left on device (os error 28)"

/-- Why a file cannot be made. -/
inductive Fault where
  /-- The file cannot be created. -/
  | creation (error : SystemError)
  /-- A sample cannot be written. -/
  | writing (error : SystemError)
  /-- The file cannot be completed. -/
  | completion (error : SystemError)
  /-- The last pair of samples is not complete. -/
  | oddSamples
deriving DecidableEq

namespace Fault

/-- The text of a fault. -/
def message : Fault → String
  | creation error => "Failed to create WAV file: " ++ error.message
  | writing error => "Failed to write sample: " ++ error.message
  | completion error => "Failed to finalize WAV file: " ++ error.message
  | oddSamples =>
    "Failed to finalize WAV file: The number of samples written is not a multiple of the "
      ++ "number of channels."

/-- A fault as a failure of the operation that writes the file. -/
def failure (fault : Fault) : Failure := .audioFile fault.message

end Fault

/-! ## Captures -/

/-- A file in the making. -/
structure Capture where
  medium : Medium
  rate : UInt32
  samples : Array Int16

namespace Capture

/-- The number of bytes that wait in memory before they go to the device. -/
def bufferSize : Nat := 8192

/-- Begins a file. -/
def create (medium : Medium) (rate : UInt32) : Except Fault Capture :=
  match medium with
  | .missing => .error (.creation .noSuchFile)
  | .directory => .error (.creation .isDirectory)
  | .file | .full => .ok ⟨medium, rate, #[]⟩

/-- The number of samples written, those of both channels counted. -/
def written (c : Capture) : Nat := c.samples.size

/-- Writes the samples of a frame. -/
def append (c : Capture) (frame : List Int16) : Except Fault Capture :=
  if c.medium = .full ∧ bufferSize < headerSize + sampleSize * (c.written + frame.length) then
    .error (.writing .noSpace)
  else .ok { c with samples := c.samples ++ frame }

/-- Completes the file: the number of sample pairs, and the contents. -/
def finish (c : Capture) : Except Fault (Nat × List UInt8) :=
  if c.medium = .full then .error (.completion .noSpace)
  else if c.written % channels ≠ 0 then .error .oddSamples
  else .ok (c.written / channels, encode c.rate c.samples.toList)

end Capture
end SidPlayback.Wave
