/-
  The blocks of frames of a history.

  The frames of each track are split into blocks of twenty, counted from its start.
  What is left over at the end of a track belongs to no block.

  * `Digi.tracks` are the frames of each track, and `Digi.blocks` the blocks of a
    track;
  * `Digi.completed` are the blocks of a whole history, in order, and
    `Digi.Publishes` says that a status is that of the last one;
  * `Digi.completed_started` and `Digi.completed_frame`: what a start and a frame add
    to them.
-/
import SidPlayback.Proofs.Blocks
import SidPlayback.Proofs.Digi.Summary

namespace SidPlayback.Digi

/-- What happens to an engine, as far as digi output goes. -/
inductive Event where
  /-- A track is to start. -/
  | started
  /-- A frame was computed. -/
  | frame (frame : Frame)

/-- The frames before the next start. -/
def opening : List Event → List Frame
  | .frame frame :: rest => frame :: opening rest
  | _ => []

/-- The frames of each track. -/
def tracks : List Event → List (List Frame)
  | [] => []
  | .started :: rest => opening rest :: tracks rest
  | .frame _ :: rest => tracks rest

/-- The blocks of twenty frames from the beginning of a track. -/
def blocks (frames : List Frame) : List (List Frame) :=
  (List.range (frames.length / 20)).map fun i => (frames.drop (20 * i)).take 20

/-- The frames of a track that are in no block. -/
def remainder (frames : List Frame) : List Frame := frames.drop (20 * (frames.length / 20))

/-- All blocks of a history. -/
def completed (events : List Event) : List (List Frame) := (tracks events).flatMap blocks

/-- The status is that of the block completed last, or has neither a rate nor a label if
    there is none. -/
structure Publishes (events : List Event) (status : Status) : Prop where
  none : completed events = [] → status = ⟨0, ""⟩
  last : ∀ block, (completed events).getLast? = some block → Summarizes block status

/-! ## Tracks -/

theorem opening_started (events : List Event) : opening (events ++ [.started]) = opening events := by
  induction events with
  | nil => rfl
  | cons event rest ih =>
    cases event with
    | started => rfl
    | frame frame => exact congrArg (frame :: ·) ih

theorem tracks_started (events : List Event) :
    tracks (events ++ [.started]) = tracks events ++ [[]] := by
  induction events with
  | nil => rfl
  | cons event rest ih =>
    cases event with
    | started =>
      simp only [List.cons_append, tracks, ih, opening_started]
    | frame frame => exact ih

/-- A frame belongs to the frames before the next start if there was no start yet. -/
theorem opening_frame (events : List Event) (frame : Frame) :
    (tracks events = [] ∧ tracks (events ++ [.frame frame]) = [] ∧
        opening (events ++ [.frame frame]) = opening events ++ [frame]) ∨
      (tracks events ≠ [] ∧ opening (events ++ [.frame frame]) = opening events) := by
  induction events with
  | nil => exact .inl ⟨rfl, rfl, rfl⟩
  | cons event rest ih =>
    cases event with
    | started => exact .inr ⟨List.cons_ne_nil _ _, rfl⟩
    | frame first =>
      rcases ih with ⟨hnone, hnext, hopening⟩ | ⟨hsome, hopening⟩
      · exact .inl ⟨hnone, hnext, congrArg (first :: ·) hopening⟩
      · exact .inr ⟨hsome, congrArg (first :: ·) hopening⟩

/-- **A frame** belongs to the last track. -/
theorem tracks_frame {events : List Event} {closed : List (List Frame)} {current : List Frame}
    (h : tracks events = closed ++ [current]) (frame : Frame) :
    tracks (events ++ [.frame frame]) = closed ++ [current ++ [frame]] := by
  induction events generalizing closed with
  | nil => cases closed <;> cases h
  | cons event rest ih =>
    cases event with
    | frame first => exact ih h
    | started =>
      -- this is the last track exactly if nothing is closed before the current one
      show opening (rest ++ [.frame frame]) :: tracks (rest ++ [.frame frame]) = _
      cases closed with
      | nil =>
        obtain ⟨rfl, hrest⟩ := List.cons.inj h
        rcases opening_frame rest frame with ⟨-, hnext, hopening⟩ | ⟨hsome, -⟩
        · rw [hnext, hopening]; rfl
        · exact absurd hrest hsome
      | cons first others =>
        obtain ⟨rfl, hrest⟩ := List.cons.inj h
        rcases opening_frame rest frame with ⟨hnone, -, -⟩ | ⟨-, hopening⟩
        · rw [hnone] at hrest
          cases others <;> cases hrest
        · rw [ih hrest, hopening]; rfl

/-! ## Blocks -/

/-- A frame more leaves the blocks as they are, or completes one. -/
theorem blocks_snoc (frames : List Frame) (frame : Frame) :
    ((remainder frames).length + 1 < 20 ∧ blocks (frames ++ [frame]) = blocks frames ∧
        remainder (frames ++ [frame]) = remainder frames ++ [frame]) ∨
      ((remainder frames).length + 1 = 20 ∧
        blocks (frames ++ [frame]) = blocks frames ++ [remainder frames ++ [frame]] ∧
        remainder (frames ++ [frame]) = []) :=
  SidPlayback.blocks_snoc (by decide) frames frame

/-! ## Histories -/

/-- **A start** completes nothing. -/
theorem completed_started (events : List Event) :
    completed (events ++ [.started]) = completed events := by
  rw [completed, tracks_started, List.flatMap_append]
  exact List.append_nil _

/-- **A frame** completes a block if it is the twentieth since the last one. -/
theorem completed_frame {events : List Event} {closed : List (List Frame)} {current : List Frame}
    (h : tracks events = closed ++ [current]) (frame : Frame) :
    completed (events ++ [.frame frame]) =
      if (remainder current).length + 1 < 20 then completed events
      else completed events ++ [remainder current ++ [frame]] := by
  rw [completed, completed, tracks_frame h, h, List.flatMap_append, List.flatMap_append,
    List.flatMap_singleton, List.flatMap_singleton]
  rcases blocks_snoc current frame with ⟨hless, hblocks, -⟩ | ⟨hfull, hblocks, -⟩
  · rw [if_pos hless, hblocks]
  · rw [if_neg (by omega), hblocks, List.append_assoc]

theorem Publishes.of_same {events events' : List Event} {status : Status}
    (h : Publishes events status) (hsame : completed events' = completed events) :
    Publishes events' status :=
  ⟨fun hnone => h.none (hsame ▸ hnone), fun block hlast => h.last block (hsame ▸ hlast)⟩

theorem publishes_of_completed {events : List Event} {done : List (List Frame)}
    {block : List Frame} {status : Status} (hcompleted : completed events = done ++ [block])
    (h : Summarizes block status) : Publishes events status := by
  refine ⟨fun hnone => ?_, fun last hlast => ?_⟩
  · rw [hcompleted] at hnone
    cases done <;> cases hnone
  · rw [hcompleted, List.getLast?_concat] at hlast
    exact Option.some.inj hlast ▸ h

end SidPlayback.Digi
