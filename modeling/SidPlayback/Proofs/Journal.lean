/-
  Journals, and what the protocol permits.

  A journal lists the calls that a player makes to its engine, and the results of
  loading songs, in order.  What is permitted depends on what came before: tracks
  are played of a loaded song only, and frames computed of a running track only.

  * `Journal.HasSong` and `Journal.Runs` say that there is a song, and that a
    track runs;
  * `Journal.Permitted` is the protocol, and `Journal.Orderly` says that all that
    happened was permitted when it happened.
-/
import SidPlayback.Proofs.Recorded

namespace SidPlayback

/-- Something that is written down: a call to the engine, or how loading ended. -/
inductive Happening where
  | call (event : EngineEvent)
  | loaded (result : Except Failure Unit)

namespace Happening

/-- Whether a song was to be loaded. -/
def isLoading : Happening → Bool
  | loaded _ => true
  | call _ => false

/-- Whether the track that runs is over: another one is played, or a song was to
    be loaded by a player that was ready for it. -/
def endsTrack : Happening → Bool
  | loaded (.error .notReady) => false
  | loaded _ => true
  | call ⟨.play _ _ _, _⟩ => true
  | call _ => false

theorem endsTrack_call_eq_false {event : EngineEvent} (h : event.call.kind ≠ .playing) :
    (call event).endsTrack = false := by
  obtain ⟨c, answer⟩ := event
  cases c with
  | play => exact absurd rfl h
  | _ => rfl

end Happening

/-- What has happened, the oldest first. -/
abbrev Journal := List Happening

namespace Journal
open Happening

/-! ## The protocol -/

/-- The latest happening of a kind is `x`, and `since` is what came after it. -/
def Latest (kind : Happening → Bool) (past : Journal) (x : Happening) (since : Journal) : Prop :=
  kind x = true ∧ (∀ y ∈ since, kind y = false) ∧ ∃ before, past = before ++ x :: since

/-- There is a song: the latest loading succeeded. -/
def HasSong (past : Journal) : Prop := ∃ since, Latest isLoading past (.loaded (.ok ())) since

/-- A track runs: it was started with success, nothing has ended it, and all its
    frames had samples. -/
def Runs (past : Journal) : Prop :=
  ∃ track traced bufferSize since,
    Latest endsTrack past (.call ⟨.play track traced bufferSize, (0 : UInt32)⟩) since ∧
    ∀ answer : FrameAnswer, .call ⟨.compute, answer⟩ ∈ since → 0 < answer.samples

/-- What may happen next. -/
def Permitted (past : Journal) : Happening → Prop
  | .call ⟨.play _ _ _, _⟩ => HasSong past
  | .call ⟨.compute, _⟩ => Runs past
  | _ => True

/-- All that happened was permitted. -/
def Orderly (journal : Journal) : Prop :=
  ∀ before x after, journal = before ++ x :: after → Permitted before x

/-! ## Going on -/

section
variable {past more : Journal} {x : Happening}

theorem Latest.append {kind : Happening → Bool} {since : Journal} (h : Latest kind past x since)
    (hmore : ∀ y ∈ more, kind y = false) : Latest kind (past ++ more) x (since ++ more) := by
  obtain ⟨hx, hsince, before, hpast⟩ := h
  refine ⟨hx, fun y hy => ?_, before, ?_⟩
  · rcases List.mem_append.1 hy with hy | hy
    · exact hsince y hy
    · exact hmore y hy
  · rw [hpast, List.append_assoc, List.cons_append]

theorem Latest.last {kind : Happening → Bool} (h : kind x = true) :
    Latest kind (past ++ [x]) x [] :=
  ⟨h, nofun, past, rfl⟩

theorem HasSong.calls (h : HasSong past) (events : List EngineEvent) :
    HasSong (past ++ events.map .call) := by
  obtain ⟨since, hlatest⟩ := h
  refine ⟨_, hlatest.append fun y hy => ?_⟩
  obtain ⟨event, -, rfl⟩ := List.mem_map.1 hy
  rfl

theorem hasSong_loaded (past : Journal) : HasSong (past ++ [.loaded (.ok ())]) :=
  ⟨[], Latest.last rfl⟩

theorem Runs.calls (h : Runs past) {events : List EngineEvent}
    (hevents : ∀ event ∈ events, event.call.kind ≠ .playing) :
    Runs (past ++ events.map .call) := by
  obtain ⟨track, traced, bufferSize, since, hlatest, hsamples⟩ := h
  refine ⟨track, traced, bufferSize, _, hlatest.append fun y hy => ?_, fun answer hy => ?_⟩
  · obtain ⟨event, he, rfl⟩ := List.mem_map.1 hy
    exact endsTrack_call_eq_false (hevents event he)
  · rcases List.mem_append.1 hy with hy | hy
    · exact hsamples answer hy
    · obtain ⟨event, he, heq⟩ := List.mem_map.1 hy
      cases heq
      exact absurd rfl (hevents _ he)

theorem Runs.compute (h : Runs past) {answer : FrameAnswer} (hpos : 0 < answer.samples) :
    Runs (past ++ [.call ⟨.compute, answer⟩]) := by
  obtain ⟨track, traced, bufferSize, since, hlatest, hsamples⟩ := h
  refine ⟨track, traced, bufferSize, _, hlatest.append fun y hy => ?_, fun other hy => ?_⟩
  · rw [List.mem_singleton.1 hy]; rfl
  · rcases List.mem_append.1 hy with hy | hy
    · exact hsamples other hy
    · cases List.mem_singleton.1 hy; exact hpos

theorem runs_play (past : Journal) (track : Int32) (traced : Bool) (bufferSize : UInt32) :
    Runs (past ++ [.call ⟨.play track traced bufferSize, (0 : UInt32)⟩]) :=
  ⟨track, traced, bufferSize, [], Latest.last rfl, nofun⟩

theorem permitted_call {event : EngineEvent} (h : event.call.kind ≠ .playing) :
    Permitted past (.call event) := by
  obtain ⟨c, answer⟩ := event
  cases c with
  | play | compute => exact absurd rfl h
  | _ => trivial

theorem orderly_nil : Orderly [] := throughout_nil

/-- A journal stays orderly when it goes on with what is permitted. -/
theorem Orderly.snoc (h : Orderly past) (hx : Permitted past x) : Orderly (past ++ [x]) :=
  throughout_snoc.2 ⟨h, hx⟩

theorem Orderly.calls (h : Orderly past) {events : List EngineEvent}
    (hevents : ∀ event ∈ events, event.call.kind ≠ .playing) :
    Orderly (past ++ events.map .call) := by
  induction events generalizing past with
  | nil => rwa [List.map_nil, List.append_nil]
  | cons event rest ih =>
    have hfirst := h.snoc (permitted_call (hevents event List.mem_cons_self))
    have hrest := ih hfirst fun e he => hevents e (List.mem_cons_of_mem _ he)
    rwa [List.append_assoc] at hrest

end

end Journal
end SidPlayback
