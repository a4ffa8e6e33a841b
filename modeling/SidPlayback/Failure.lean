/-
  Failures of operations.

  Every failure belongs to one category; `Failure.message` is its text.  What
  went wrong inside a category is told by the text that it carries, which the
  module that finds the fault composes.
-/

namespace SidPlayback

/-- Why an operation failed. -/
inductive Failure where
  /-- The engine refused the song, with a status other than zero. -/
  | loadFailed (status : UInt32)
  /-- A buffer found no place in the engine's memory. -/
  | staging (text : String)
  /-- Settings were refused as a whole. -/
  | rejected (text : String)
  /-- The operation needs a loaded song. -/
  | noSong
  /-- The engine has not finished its initialization. -/
  | notReady
  /-- Options do not parse, or hold a value that makes no sense. -/
  | configuration (text : String)
  /-- An audio file cannot be written. -/
  | audioFile (text : String)
  /-- The file system reports an error. -/
  | fileSystem (text : String)
  /-- Any other failure. -/
  | other (text : String)
deriving DecidableEq

namespace Failure

/-- The text of a failure. -/
def message : Failure → String
  | loadFailed status => s!"Engine failed to load song (status {status.toNat})"
  | staging text => "Staging error: " ++ text
  | rejected text => "Configuration rejected: " ++ text
  | noSong => "No song loaded"
  | notReady => "Engine not ready"
  | configuration text => "Invalid configuration: " ++ text
  | audioFile text => "Audio file write error: " ++ text
  | fileSystem text => "IO error: " ++ text
  | other text => text

/-- The engine had no room for `size` bytes. -/
def noRoom (size : Nat) : Failure :=
  .staging s!"engine allocation of {size} bytes failed"

end Failure
end SidPlayback
