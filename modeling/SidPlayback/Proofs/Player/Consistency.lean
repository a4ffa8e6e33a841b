/-
  Players are consistent.

  The session, the rates, the panning, the digi window and the number of frames
  are changed at different times, by different operations.  They always fit
  together.

  * `Player.Consistent` says how;
  * `Player.Reachable.consistent`: every player that can come about is consistent.
-/
import SidPlayback.Engine.Scripted
import SidPlayback.Host.Scripted
import SidPlayback.Proofs.Digi.Window
import SidPlayback.Proofs.Player.Operations

namespace SidPlayback.Player

variable {ε η : Type}

/-- The parts of a player fit together. -/
structure Consistent (p : Player ε η) : Prop where
  /-- There are rates if there is a song. -/
  rates_isSome : p.rates.isSome = true ↔ p.session ≠ .idle
  /-- An engine that is not ready was given nothing. -/
  uninitialized : p.lifecycle = .uninitialized → p.session = .idle ∧ p.panning = none
  /-- For an engine that is ready nothing waits. -/
  ready : p.lifecycle = .ready → p.pendingPanning = none
  /-- Of a running track all windows but the last were full. -/
  playing : p.session = .playing → p.digi.frames = p.frames % 20
  /-- Unless a track runs the window is empty. -/
  silent : p.session ≠ .playing →
    p.digi.frames = 0 ∧ p.digi.batches = 0 ∧ p.digi.labels = [] ∧ p.digi.rateSum = 0.0
  /-- The window is sound. -/
  window : p.digi.Sound

namespace Consistent

theorem initial (engine : ε) (host : η) (roms : Rom.Bank) :
    (initial engine host roms).Consistent where
  rates_isSome := by simp [Player.initial]
  uninitialized _ := ⟨rfl, rfl⟩
  ready _ := rfl
  playing h := by cases h
  silent _ := ⟨rfl, rfl, rfl, rfl⟩
  window := Digi.Window.sound_empty

variable {p : Player ε η} (h : p.Consistent)
include h

theorem ready_of_session (hs : p.session ≠ .idle) : p.lifecycle = .ready := by
  cases hl : p.lifecycle with
  | ready => rfl
  | uninitialized => exact absurd (h.uninitialized hl).1 hs

/-- Engine, host, hook and settings are free. -/
theorem free (engine : ε) (host : η) (hook : ε → ε) (scope : Bool) :
    { p with engine := engine, host := host, hook := hook, scope := scope }.Consistent :=
  ⟨h.rates_isSome, h.uninitialized, h.ready, h.playing, h.silent, h.window⟩

theorem unload : p.unload.Consistent where
  rates_isSome := by simp [Player.unload]
  uninitialized hl := ⟨rfl, (h.uninitialized hl).2⟩
  ready := h.ready
  playing hs := by cases hs
  silent _ := ⟨rfl, rfl, rfl, rfl⟩
  window := Digi.Window.sound_empty

/-- A session with an empty window, for a song that there is. -/
theorem reset {session : Session} (hready : p.lifecycle = .ready) (hsome : p.rates.isSome = true)
    (hs : session ≠ .idle) (hframes : session = .playing → p.frames = 0) :
    { p with digi := .empty, session := session }.Consistent where
  rates_isSome := iff_of_true hsome hs
  uninitialized hl := by cases hready.symm.trans hl
  ready := h.ready
  playing hp := by rw [hframes hp]; rfl
  silent _ := ⟨rfl, rfl, rfl, rfl⟩
  window := Digi.Window.sound_empty

section
variable [Engine ε]

theorem forwardPanning (hready : p.lifecycle = .ready) (panning : Panning) :
    (p.forwardPanning panning).Consistent where
  rates_isSome := h.rates_isSome
  uninitialized hl := by cases hready.symm.trans hl
  ready := h.ready
  playing := h.playing
  silent := h.silent
  window := h.window

theorem notifyReady : p.notifyReady.player.Consistent := by
  unfold Player.notifyReady
  split
  case h_1 => exact h
  case h_2 hl =>
    obtain ⟨hidle, -⟩ := h.uninitialized hl
    have hfound : { p with lifecycle := .ready, pendingPanning := none }.Consistent :=
      { rates_isSome := h.rates_isSome
        uninitialized := fun hl => by cases hl
        ready := fun _ => rfl
        playing := h.playing
        silent := h.silent
        window := h.window }
    dsimp only
    split
    case h_1 hnone =>
      have hsame : { p with lifecycle := .ready } =
        { p with lifecycle := .ready, pendingPanning := none } := by rw [hnone]
      rw [hsame]; exact hfound
    case h_2 panning _ => exact hfound.forwardPanning rfl panning

theorem applyPanning (values : List Float32) : (p.applyPanning values).player.Consistent := by
  unfold Player.applyPanning
  split
  case h_1 => exact h
  case h_2 panning _ =>
    split
    case h_1 hl => exact h.forwardPanning hl panning
    case h_2 hl =>
      exact ⟨h.rates_isSome, h.uninitialized, fun hr => by (cases hl.symm.trans hr), h.playing,
        h.silent, h.window⟩

/-- One more frame is one more frame in the window, too. -/
theorem step : p.step.player.Consistent := by
  rcases p.step_cases with ⟨-, hp⟩ | ⟨hs, answer, engine, -, ⟨-, hp⟩ | ⟨-, rate, label, hp⟩⟩
  · rw [hp]; exact h
  · have hidle : p.session ≠ .idle := by rw [hs]; decide
    rw [hp]
    exact (h.free engine p.host p.hook p.scope).reset (h.ready_of_session hidle)
      (h.rates_isSome.2 hidle) (by decide) (fun hp => by cases hp)
  · obtain ⟨digiStatus, latency, hp⟩ := hp
    rw [hp]
    refine ⟨h.rates_isSome, h.uninitialized, h.ready, fun _ => ?_, fun hn => absurd hs hn,
      h.window.observe rate label⟩
    show (p.digi.observe rate label).2.frames = (p.frames + 1) % 20
    rw [Digi.Window.frames_observe h.window.frames_lt, h.playing hs]
    exact Nat.mod_add_mod p.frames 20 1

variable [Host η]

theorem load (target : UInt32) (file : String) (data : List UInt8) :
    (p.load target file data).player.Consistent := by
  rcases p.load_cases target file data with
    ⟨-, hp⟩ | ⟨hl, engine, ⟨_, -, hp⟩ | ⟨host, rates, -, hp⟩⟩
  · rw [hp]; exact h
  · rw [hp]; exact h.unload.free engine p.host p.hook p.scope
  · rw [hp]
    exact ⟨iff_of_true rfl (fun hs => by cases hs), fun hu => by (cases hl.symm.trans hu), h.ready,
      fun hp => by (cases hp),
      fun _ => ⟨rfl, rfl, rfl, rfl⟩, Digi.Window.sound_empty⟩

theorem start (options : TrackOptions) : (p.start options).player.Consistent := by
  rcases p.start_cases options with
    hp | ⟨hl, hs, host, track, traced, bufferSize, status, engine, -, hp⟩
  · rw [hp]; exact h
  · have hne : (if status = 0 then Session.playing else .loaded) ≠ .idle := by split <;> decide
    rw [hp]
    exact ⟨iff_of_true (h.rates_isSome.2 hs) hne, fun hu => by (cases hl.symm.trans hu), h.ready,
      fun _ => rfl, fun _ => ⟨rfl, rfl, rfl, rfl⟩, Digi.Window.sound_empty⟩

end

end Consistent

variable [Engine ε] [Host η]

theorem kept_consistent : Kept (Consistent : Player ε η → Prop) where
  notifyReady _ h := h.notifyReady
  applyPanning _ values h := h.applyPanning values
  enableScope p on h := h.free p.engine p.host p.hook on
  load _ target file data h := h.load target file data
  start _ options h := h.start options
  step _ h := h.step
  setting p c _ h := h.free (Engine.after c p.engine) p.host p.hook p.scope

/-- **Players are consistent**, whatever was done to them, and to their engine and
    their host. -/
theorem Reachable.consistent {p : Player ε η} (h : Reachable p) : p.Consistent :=
  kept_consistent.reachable Consistent.initial
    (fun p hook h => h.free p.engine p.host hook p.scope)
    (fun p engine host h => h.free engine host p.hook p.scope) h

/-- A player with a scripted engine that has frames to play. -/
def scriptedFrames (count : Nat) : Player Scripted ScriptedHost :=
  let frame : ScriptFrame := ⟨882, 0, 0, Scripted.field "NONE", none⟩
  (create { Scripted.initial with script := List.replicate count frame } ScriptedHost.initial
    ⟨none, none, none⟩).player

theorem consistent_scriptedFrames :
    let p := (scriptedFrames 30).run (.load 44100 "tune.sid" [7] :: .start {} ::
      List.replicate 21 .step)
    Reachable p ∧ p.session = .playing ∧ p.frames = 21 ∧ p.digi.frames = 1 := by
  intro p
  have hp : Reachable p := (Reachable.made .create).run _
  have hs : p.session = .playing := rfl
  have hframes : p.frames = 21 := rfl
  have hwindow := hp.consistent.playing hs
  rw [hframes] at hwindow
  exact ⟨hp, hs, hframes, hwindow⟩

end SidPlayback.Player
