/-
  Engines and hosts with different pasts.

  What a recorded engine answers depends on the state inside, and not on its history.  Two
  engines in the same state therefore cannot be told apart by calls, and a computation that
  stages buffers does the same with both.

  * `Recorded.Twins` says that two are in the same state, and that the same was said to them
    since some time;
  * `Recorded.Twins.call` and `Recorded.Twins.hostCall`: a call makes no difference;
  * `Staging.Respects` says so of a computation, and `Staging.respects_bind` and so on
    compose it;
  * `twins_stageSong`: staging and loading a song make no difference.
-/
import SidPlayback.Player.Session
import SidPlayback.Proofs.Staging

namespace SidPlayback

namespace Recorded

/-- Both are in the same state, and since `r₀` and `r₀'` they were told the same. -/
structure Twins {σ event : Type} (r₀ r₀' r r' : Recorded σ event) : Prop where
  state_eq : r.state = r'.state
  log_eq : ∃ events, r.log = r₀.log ++ events ∧ r'.log = r₀'.log ++ events

theorem Twins.refl {σ event : Type} {r r' : Recorded σ event} (h : r.state = r'.state) :
    Twins r r' r r' :=
  ⟨h, [], (List.append_nil _).symm, (List.append_nil _).symm⟩

section
variable {ε : Type} [Engine ε] {r₀ r₀' r r' : Recorded ε EngineEvent}

theorem Twins.call (h : Twins r₀ r₀' r r') (c : EngineCall) :
    (Engine.call c r).1 = (Engine.call c r').1 ∧
      Twins r₀ r₀' (Engine.call c r).2 (Engine.call c r').2 := by
  have hanswer : (Engine.call c r).1 = (Engine.call c r').1 :=
    congrArg (fun state : ε => (Engine.call c state).1) h.state_eq
  obtain ⟨events, hlog, hlog'⟩ := h.log_eq
  refine ⟨hanswer, congrArg (fun state : ε => (Engine.call c state).2) h.state_eq,
    events ++ [⟨c, (Engine.call c r).1⟩], ?_, ?_⟩
  · rw [log_call, hlog, List.append_assoc]
  · rw [log_call, hlog', List.append_assoc, hanswer]

theorem Twins.exists_call (h : Twins r₀ r₀' r r') {c : EngineCall} {answer : c.Answer}
    {engine : Recorded ε EngineEvent} (hcall : Engine.call c r = (answer, engine)) :
    ∃ engine', Engine.call c r' = (answer, engine') ∧ Twins r₀ r₀' engine engine' := by
  obtain ⟨hanswer, htwins⟩ := h.call c
  rw [hcall] at hanswer htwins
  refine ⟨(Engine.call c r').2, ?_, htwins⟩
  exact Prod.ext hanswer.symm rfl

theorem Twins.after (h : Twins r₀ r₀' r r') (c : EngineCall) :
    Twins r₀ r₀' (Engine.after c r) (Engine.after c r') :=
  (h.call c).2

theorem Twins.foldl (h : Twins r₀ r₀' r r') (calls : List EngineCall) :
    Twins r₀ r₀' (calls.foldl (fun engine c => Engine.after c engine) r)
      (calls.foldl (fun engine c => Engine.after c engine) r') := by
  induction calls generalizing r r' with
  | nil => exact h
  | cons c rest ih => exact ih (h.after c)

end

theorem Twins.hostCall {η : Type} [Host η] {r₀ r₀' r r' : Recorded η HostCall}
    (h : Twins r₀ r₀' r r') (c : HostCall) : Twins r₀ r₀' (Host.call c r) (Host.call c r') := by
  obtain ⟨calls, hlog, hlog'⟩ := h.log_eq
  refine ⟨congrArg (Host.call c) h.state_eq, calls ++ [c], ?_, ?_⟩
  · rw [log_hostCall, hlog, List.append_assoc]
  · rw [log_hostCall, hlog', List.append_assoc]

end Recorded

/-! ## Staging -/

namespace Staging
open Recorded

variable {ε α β : Type} {r₀ r₀' : Recorded ε EngineEvent}

/-- The computation makes no difference between twins. -/
def Respects (r₀ r₀' : Recorded ε EngineEvent) (body : StagingM (Recorded ε EngineEvent) α) :
    Prop :=
  ∀ area r r', Twins r₀ r₀' r r' →
    (body.run (area, r)).1 = (body.run (area, r')).1 ∧
      (body.run (area, r)).2.1 = (body.run (area, r')).2.1 ∧
      Twins r₀ r₀' (body.run (area, r)).2.2 (body.run (area, r')).2.2

theorem respects_pure (a : α) : Respects r₀ r₀' (pure a) := fun _ _ _ h => ⟨rfl, rfl, h⟩

theorem respects_throw (failure : Failure) : Respects r₀ r₀' (throw failure : StagingM _ α) :=
  fun _ _ _ h => ⟨rfl, rfl, h⟩

theorem respects_modify (f : Staging → Staging) :
    Respects r₀ r₀' (modify fun (area, engine) => (f area, engine)) :=
  fun _ _ _ h => ⟨rfl, rfl, h⟩

theorem respects_bind {body : StagingM (Recorded ε EngineEvent) β}
    {next : β → StagingM (Recorded ε EngineEvent) α} (h : Respects r₀ r₀' body)
    (hnext : ∀ b, Respects r₀ r₀' (next b)) : Respects r₀ r₀' (body >>= next) := by
  intro area r r' htwins
  obtain ⟨hresult, harea, htwins⟩ := h area r r' htwins
  rw [run_bind, run_bind]
  rcases hb : body.run (area, r) with ⟨_ | b, area₁, r₁⟩ <;>
    rcases hb' : body.run (area, r') with ⟨_ | b', area₁', r₁'⟩ <;>
    rw [hb, hb'] at hresult harea htwins
  · exact ⟨by cases hresult; rfl, harea, htwins⟩
  · cases hresult
  · cases hresult
  · cases hresult
    cases harea
    exact hnext b area₁ r₁ r₁' htwins

variable [Engine ε]

theorem respects_call (c : EngineCall) : Respects r₀ r₀' (call c) := by
  intro area r r' h
  obtain ⟨hanswer, htwins⟩ := h.call c
  exact ⟨congrArg Except.ok hanswer, rfl, htwins⟩

theorem respects_stage (data : List UInt8) : Respects r₀ r₀' (stage data) := by
  refine respects_bind (respects_call _) fun answer => ?_
  cases answer with
  | none => exact respects_throw _
  | some address =>
    refine respects_bind (respects_modify fun area => ⟨address :: area.blocks⟩) fun _ => ?_
    exact respects_bind (respects_call _) fun _ => respects_pure _

theorem respects_stageOptional (image : Option (List UInt8)) :
    Respects r₀ r₀' (stageOptional image) := by
  cases image with
  | none => exact respects_pure _
  | some data => exact respects_bind (respects_stage data) fun _ => respects_pure _

theorem twins_freeAll (addresses : List Address) {r r' : Recorded ε EngineEvent}
    (h : Twins r₀ r₀' r r') : Twins r₀ r₀' (freeAll addresses r) (freeAll addresses r') := by
  induction addresses generalizing r r' with
  | nil => exact h
  | cons address rest ih => exact ih (h.after (.free address))

theorem Respects.within {body : StagingM (Recorded ε EngineEvent) α} (h : Respects r₀ r₀' body)
    {r r' : Recorded ε EngineEvent} (htwins : Twins r₀ r₀' r r') :
    (within body r).1 = (within body r').1 ∧
      Twins r₀ r₀' (within body r).2.1 (within body r').2.1 := by
  obtain ⟨hresult, harea, htwins⟩ := h empty r r' htwins
  refine ⟨hresult, ?_⟩
  show Twins r₀ r₀' (freeAll (body.run (empty, r)).2.1.blocks (body.run (empty, r)).2.2)
    (freeAll (body.run (empty, r')).2.1.blocks (body.run (empty, r')).2.2)
  rw [harea]
  exact twins_freeAll _ htwins

end Staging

open Staging in
/-- Staging and loading a song make no difference. -/
theorem twins_stageSong {ε : Type} [Engine ε] {r₀ r₀' r r' : Recorded ε EngineEvent}
    (h : Recorded.Twins r₀ r₀' r r') (roms : Rom.Bank) (rate : UInt32) (file : String)
    (data : List UInt8) :
    (within (stageSong roms rate file data) r).1 =
        (within (stageSong roms rate file data) r').1 ∧
      Recorded.Twins r₀ r₀' (within (stageSong roms rate file data) r).2.1
        (within (stageSong roms rate file data) r').2.1 := by
  have hsong : Respects r₀ r₀' (stageSong roms rate file data) := by
    refine respects_bind (respects_stage data) fun song => ?_
    refine respects_bind (respects_stageOptional _) fun basic => ?_
    refine respects_bind (respects_stageOptional _) fun character => ?_
    refine respects_bind (respects_stageOptional _) fun kernal => ?_
    exact respects_call _
  exact hsong.within h

end SidPlayback
