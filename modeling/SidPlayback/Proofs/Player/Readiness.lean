/-
  What reaches an engine that is not ready.

  Until the engine is ready songs are refused, and pannings wait.  Controls do not
  wait: they are passed on at once.

  * `Operation.controlCalls` are the calls that an operation makes as a control;
  * `Player.run_before_ready`: until the engine is ready nothing else changes it;
  * `Player.calls_before_ready`: so a new engine receives the calls of the controls,
    and `Player.control_before_ready` that it does receive them.
-/
import SidPlayback.Engine.Scripted
import SidPlayback.Host.Scripted
import SidPlayback.Proofs.Player.Consistency

namespace SidPlayback

/-! ## Controls -/

/-- The calls that an operation makes as a control. -/
def Operation.controlCalls : Operation → List EngineCall
  | .adjust control => control.calls
  | .setFilter curve => [.setFilter curve]
  | _ => []

theorem Control.calls_ne_nil (control : Control) : control.calls ≠ [] := by
  cases control with
  | voices mask => simp [calls, chipVoices]
  | _ => exact List.cons_ne_nil _ _

theorem Operation.controlCalls_eq_nil (o : Operation) :
    o.controlCalls = [] ↔ o.isControl = false := by
  cases o with
  | adjust control => simp [controlCalls, isControl, control.calls_ne_nil]
  | setFilter curve => simp [controlCalls, isControl]
  | _ => exact iff_of_true rfl rfl

theorem Recorded.calls_foldl {ε : Type} [Engine ε] (calls : List EngineCall)
    (r : Recorded ε EngineEvent) :
    (calls.foldl (fun engine c => Engine.after c engine) r).log.map (·.call) =
      r.log.map (·.call) ++ calls := by
  induction calls generalizing r with
  | nil => exact (List.append_nil _).symm
  | cons c rest ih => rw [List.foldl_cons, ih, log_after]; simp

namespace Player

variable {ε η : Type}

theorem session_before_ready {p : Player ε η} (hl : p.lifecycle = .uninitialized)
    (h : p.Consistent) : p.session = .idle ∧ p.rates = none := by
  obtain ⟨hidle, -⟩ := h.uninitialized hl
  refine ⟨hidle, Option.not_isSome_iff_eq_none.1 fun hrates => ?_⟩
  exact h.rates_isSome.1 hrates hidle

variable [Engine ε]

/-! ## Single operations -/

section
variable {p : Player ε η} (hl : p.lifecycle = .uninitialized)
include hl

theorem applyPanning_before_ready (values : List Float32) :
    ∃ pending, (p.applyPanning values).player = { p with pendingPanning := pending } := by
  rcases p.applyPanning_cases values with
    ⟨-, hp⟩ | ⟨-, panning, -, ⟨hready, -⟩ | ⟨-, hp⟩⟩
  · exact ⟨p.pendingPanning, hp⟩
  · cases hl.symm.trans hready
  · exact ⟨some panning, hp⟩

theorem start_before_ready [Host η] (options : TrackOptions) : (p.start options).player = p := by
  rcases p.start_cases options with hp | ⟨hready, -⟩
  · exact hp
  · cases hl.symm.trans hready

variable (h : p.Consistent)
include h

theorem step_before_ready : p.step.player = p := by
  rcases p.step_cases with ⟨-, hp⟩ | ⟨hs, -⟩
  · exact hp
  · cases (session_before_ready hl h).1.symm.trans hs

theorem record_before_ready (destination : Wave.Destination) (limit : Nat) :
    (p.record destination limit).player = p := by
  simp only [record, (session_before_ready hl h).2]

/-- **Before the engine is ready** an operation changes it by its calls as a control
    only. -/
theorem perform_before_ready [Host η] {o : Operation} (ho : o.isNotify = false) :
    (p.perform o).player.lifecycle = .uninitialized ∧
      (p.perform o).player.engine =
        o.controlCalls.foldl (fun engine c => Engine.after c engine) p.engine := by
  cases o with
  | notifyReady => cases ho
  -- what is refused, or waits, leaves the engine as it is
  | applyPanning values =>
    obtain ⟨pending, hp⟩ := applyPanning_before_ready hl values
    simp only [perform, hp]
    exact ⟨hl, rfl⟩
  | load target file data =>
    rcases p.load_cases target file data with ⟨-, hp⟩ | ⟨hready, -⟩
    · simp only [perform, hp]
      exact ⟨hl, rfl⟩
    · cases hl.symm.trans hready
  | start options =>
    simp only [perform, start_before_ready hl]
    exact ⟨hl, rfl⟩
  | startJson json =>
    rcases p.startJson_cases json with hp | ⟨options, hp⟩
    · simp only [perform, hp]
      exact ⟨hl, rfl⟩
    · simp only [perform, hp, start_before_ready hl]
      exact ⟨hl, rfl⟩
  | step =>
    simp only [perform, step_before_ready hl h]
    exact ⟨hl, rfl⟩
  | record destination limit =>
    simp only [perform, record_before_ready hl h]
    exact ⟨hl, rfl⟩
  | enableScope on => exact ⟨hl, rfl⟩
  | adjust control => exact ⟨hl, rfl⟩
  | setFilter curve => exact ⟨hl, rfl⟩

end

/-! ## Runs -/

theorem Made.before_ready {engine : ε} {host : η} {roms : Rom.Bank} {p : Player ε η}
    (made : Made engine host roms p) (hready : Engine.isReady engine = false) :
    p.lifecycle = .uninitialized ∧ p.engine = engine := by
  have hcreate : (Player.create engine host roms).player = initial engine host roms := by
    simp [Player.create, hready]
  cases made with
  | create => rw [hcreate]; exact ⟨rfl, rfl⟩
  | createWith settings =>
    unfold Player.createWith
    dsimp only
    rw [hcreate]
    split
    · exact ⟨rfl, rfl⟩
    · rename_i values _
      obtain ⟨pending, hp⟩ := applyPanning_before_ready
        (p := (initial engine host roms).enableScope settings.scope) rfl values
      rw [hp]; exact ⟨rfl, rfl⟩

variable [Host η]

/-- **Before the engine is ready** only controls change it. -/
theorem run_before_ready {p : Player ε η} (hl : p.lifecycle = .uninitialized) (h : p.Consistent)
    {operations : List Operation} (hnever : ∀ o ∈ operations, o.isNotify = false) :
    (p.run operations).lifecycle = .uninitialized ∧
      (p.run operations).engine = (operations.flatMap Operation.controlCalls).foldl
        (fun engine c => Engine.after c engine) p.engine := by
  induction operations generalizing p with
  | nil => exact ⟨hl, rfl⟩
  | cons o rest ih =>
    obtain ⟨hlater, hengine⟩ := perform_before_ready hl h (hnever o List.mem_cons_self)
    obtain ⟨hlast, hrest⟩ := ih hlater (kept_consistent.perform h o)
      fun o' ho' => hnever o' (List.mem_cons_of_mem o ho')
    refine ⟨hlast, hrest.trans ?_⟩
    rw [hengine, List.flatMap_cons, List.foldl_append]

/-- **Until it is ready an engine receives the calls of the controls**, in their
    order, and no others, so it receives none exactly if there are no controls. -/
theorem calls_before_ready {engine : ε} {host : η} {roms : Rom.Bank}
    {p : Player (Recorded ε EngineEvent) η} (made : Made (Recorded.fresh engine) host roms p)
    (hready : Engine.isReady engine = false)
    (hook : Recorded ε EngineEvent → Recorded ε EngineEvent) {operations : List Operation}
    (hnever : ∀ o ∈ operations, o.isNotify = false) :
    let q := (p.setHook hook).run operations
    q.lifecycle = .uninitialized ∧
      q.engine.log.map (·.call) = operations.flatMap Operation.controlCalls ∧
      (q.engine.log = [] ↔ ∀ o ∈ operations, o.isControl = false) := by
  intro q
  obtain ⟨hl, hengine⟩ := made.before_ready hready
  have hconsistent : (p.setHook hook).Consistent :=
    (Reachable.made made).consistent.free p.engine p.host hook p.scope
  obtain ⟨hlast, hrun⟩ := run_before_ready (p := p.setHook hook) hl hconsistent hnever
  have hcalls : q.engine.log.map (·.call) = operations.flatMap Operation.controlCalls := by
    rw [hrun, Recorded.calls_foldl]
    show p.engine.log.map (·.call) ++ _ = _
    rw [hengine]; rfl
  refine ⟨hlast, hcalls, ?_⟩
  rw [← List.map_eq_nil_iff (f := (·.call)), hcalls, List.flatMap_eq_nil_iff]
  simp only [Operation.controlCalls_eq_nil]

/-- A new player with a scripted engine that is not ready. -/
def scriptedEarly : Player (Recorded Scripted EngineEvent) ScriptedHost :=
  (create (Recorded.fresh { Scripted.initial with ready := false }) ScriptedHost.initial
    ⟨none, none, none⟩).player

theorem calls_before_ready_refused :
    let hook := Engine.after (.setRam 2 1)
    let operations : List Operation := [.load 44100 "tune.sid" [7], .start {}, .step,
      .applyPanning Panning.centered.values, .adjust (.reverb 120), .enableScope true]
    let q := (scriptedEarly.setHook hook).run operations
    Made (Recorded.fresh { Scripted.initial with ready := false }) ScriptedHost.initial
        ⟨none, none, none⟩ scriptedEarly ∧
      Engine.isReady { Scripted.initial with ready := false } = false ∧
      (∀ o ∈ operations, o.isNotify = false) ∧
      q.engine.log.map (·.call) = [.setReverb 100] := by
  intro hook operations q
  have hmade : Made (Recorded.fresh { Scripted.initial with ready := false })
      ScriptedHost.initial ⟨none, none, none⟩ scriptedEarly := .create
  have hnever : ∀ o ∈ operations, o.isNotify = false := by simp [operations, Operation.isNotify]
  obtain ⟨-, hcalls, -⟩ := calls_before_ready hmade rfl hook hnever
  exact ⟨hmade, rfl, hnever, hcalls⟩

/-- A control reaches an engine that is not ready. -/
theorem control_before_ready :
    let q := scriptedEarly.run [.adjust (.stereo 16384)]
    Engine.isReady scriptedEarly.engine = false ∧ q.lifecycle = .uninitialized ∧
      q.engine.log = [⟨.setStereo 16384, ()⟩] := ⟨rfl, rfl, rfl⟩

end Player
end SidPlayback
