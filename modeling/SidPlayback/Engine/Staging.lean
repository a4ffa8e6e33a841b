/-
  Staging: buffers copied into the engine's memory for a single call.

  A staging area keeps the addresses that were allocated, so that they can be
  given back, newest first, once the call has returned.

  * `Staging.stage` copies a buffer, `Staging.stageOptional` one that may be
    absent, and `Staging.release` gives everything back;
  * `Staging.within` runs a computation with an area of its own and releases it,
    whether the computation succeeds or not.
-/
import SidPlayback.Engine.Basic
import SidPlayback.Notice

namespace SidPlayback

/-- The addresses of the staged buffers, the newest first. -/
structure Staging where
  blocks : List Address

/-- A computation that uses an engine and a staging area, and may fail. -/
abbrev StagingM (ε : Type) : Type → Type := ExceptT Failure (StateM (Staging × ε))

namespace Staging

/-- An area in which nothing is staged. -/
def empty : Staging := ⟨[]⟩

/-- The number of staged buffers. -/
def size (area : Staging) : Nat := area.blocks.length

/-- Whether nothing is staged. -/
def isEmpty (area : Staging) : Bool := area.blocks.isEmpty

/-- What there is to report when an area is given up: buffers still allocated. -/
def abandonNotices (area : Staging) : List Notice :=
  if area.isEmpty then [] else [.stagingAbandoned area.size]

variable {ε α : Type} [Engine ε]

/-- Gives back addresses in their order. -/
def freeAll : List Address → ε → ε
  | [], engine => engine
  | address :: rest, engine => freeAll rest (Engine.after (.free address) engine)

/-- Calls the engine. -/
def call (c : EngineCall) : StagingM ε c.Answer :=
  fun (area, engine) =>
    let (answer, engine) := Engine.call c engine
    (.ok answer, area, engine)

/-- Copies bytes into newly allocated memory.  Without room nothing is staged. -/
def stage (data : List UInt8) : StagingM ε Buffer := do
  match ← call (.malloc data.length) with
  | none => throw (.noRoom data.length)
  | some address =>
    modify fun (area, engine) => (⟨address :: area.blocks⟩, engine)
    call (.writeHeap address data)
    pure ⟨address, data.length⟩

/-- Copies bytes if there are any, and returns their address. -/
def stageOptional : Option (List UInt8) → StagingM ε (Option Address)
  | some data => do
    let buffer ← stage data
    pure (some buffer.address)
  | none => pure none

/-- Gives back all staged buffers, newest first, and returns their number. -/
def release : StagingM ε Nat :=
  fun (area, engine) => (.ok area.size, empty, freeAll area.blocks engine)

/-- Runs a computation with an area of its own, and releases what is staged in it
    at the end; returns the engine and the number of released buffers, too. -/
def within (body : StagingM ε α) (engine : ε) : Except Failure α × ε × Nat :=
  let (result, area, engine) := body.run (empty, engine)
  (result, freeAll area.blocks engine, area.size)

end Staging
end SidPlayback
