/-
  What recorded engines remember.

  A call to a recorded engine adds itself, with its answer, at the end of the
  history, and changes the state inside as the call does.

  * `EngineCall.kind` sorts calls by what they are for;
  * `Throughout` says that each event of a history is as it should be, given its past;
  * `Recorded.log` is the history as a list;
  * `Recorded.log_call`, `Recorded.log_after` and `Recorded.log_hostCall` are the effect of
    a call on it;
  * `Recorded.MakesOnly` says which calls a hook makes.
-/
import SidPlayback.Recorded

namespace SidPlayback

/-! ## Kinds of calls -/

/-- What a call to an engine is for. -/
inductive EngineCall.Kind where
  /-- Memory is taken, filled, or given back. -/
  | memory
  | loading
  /-- A track is started, or goes on. -/
  | playing
  /-- The panning of all voices is replaced. -/
  | panning
  /-- A setting of the engine or of its machine is changed. -/
  | setting
deriving DecidableEq

/-- What a call is for. -/
def EngineCall.kind : EngineCall → Kind
  | malloc _ | writeHeap _ _ | free _ => .memory
  | load _ => .loading
  | play _ _ _ | compute => .playing
  | initPanning _ => .panning
  | setPanning _ _ _ | setStereo _ | setReverb _ | setSpeaker _ | setFilter _ | setChip _
  | setVideo _ | setRegister _ _ _ | enableVoice _ _ _ | setRam _ _ => .setting

/-! ## Histories -/

/-- Each event of a history is as it should be, given those before it. -/
def Throughout {event : Type} (allowed : List event → event → Prop) (history : List event) : Prop :=
  ∀ before x after, history = before ++ x :: after → allowed before x

section
variable {event : Type} {allowed : List event → event → Prop}

theorem throughout_nil : Throughout allowed [] := fun before x after h => by simp at h

theorem Throughout.left {past more : List event} (h : Throughout allowed (past ++ more)) :
    Throughout allowed past := fun before x after heq =>
  h before x (after ++ more) (by rw [heq, List.append_assoc, List.cons_append])

theorem throughout_snoc {past : List event} {x : event} :
    Throughout allowed (past ++ [x]) ↔ Throughout allowed past ∧ allowed past x := by
  refine ⟨fun h => ⟨h.left, h past x [] rfl⟩, fun ⟨h, hx⟩ before y after heq => ?_⟩
  rcases List.eq_nil_or_concat after with rfl | ⟨after, z, rfl⟩
  · obtain ⟨rfl, hyx⟩ := List.append_inj' heq rfl
    cases hyx
    exact hx
  · rw [List.concat_eq_append, ← List.cons_append, ← List.append_assoc] at heq
    exact h before y after (List.append_inj' heq rfl).1

theorem throughout_iff_getElem {history : List event} :
    Throughout allowed history ↔
      ∀ i (h : i < history.length), allowed (history.take i) history[i] := by
  refine ⟨fun hall i h => hall _ _ (history.drop (i + 1)) ?_, fun hall before x after heq => ?_⟩
  · rw [← List.drop_eq_getElem_cons h, List.take_append_drop]
  · subst heq
    simpa using hall before.length (by simp)

instance [∀ past x, Decidable (allowed past x)] (history : List event) :
    Decidable (Throughout allowed history) :=
  decidable_of_iff _ throughout_iff_getElem.symm

end

namespace Recorded

variable {σ event : Type}

/-- The history as a list, the oldest first. -/
def log (r : Recorded σ event) : List event := r.history.toList

@[simp] theorem log_fresh (state : σ) : (fresh state : Recorded σ event).log = [] := rfl

section
variable {ε : Type} [Engine ε] (c : EngineCall) (r : Recorded ε EngineEvent)

@[simp] theorem log_call : (Engine.call c r).2.log = r.log ++ [⟨c, (Engine.call c r).1⟩] := by
  simp [log, Engine.call]

@[simp] theorem log_after : (Engine.after c r).log = r.log ++ [⟨c, (Engine.call c r).1⟩] :=
  log_call c r

variable {c r}

theorem log_of_call {answer : c.Answer} {r' : Recorded ε EngineEvent}
    (h : Engine.call c r = (answer, r')) : r'.log = r.log ++ [⟨c, answer⟩] := by
  have hlog := log_call c r
  rwa [h] at hlog

end

@[simp] theorem log_hostCall {η : Type} [Host η] (c : HostCall) (r : Recorded η HostCall) :
    (Host.call c r).log = r.log ++ [c] := by
  simp [log, Host.call]

section
variable {ε : Type}

/-- The hook makes calls of some kind only, and leaves the history as it is. -/
def MakesOnly (allowed : EngineCall → Prop)
    (hook : Recorded ε EngineEvent → Recorded ε EngineEvent) : Prop :=
  ∀ r, ∃ events, (hook r).log = r.log ++ events ∧ ∀ event ∈ events, allowed event.call

variable {allowed : EngineCall → Prop}

theorem makesOnly_id : MakesOnly allowed (id : Recorded ε EngineEvent → Recorded ε EngineEvent) :=
  fun _ => ⟨[], (List.append_nil _).symm, nofun⟩

theorem MakesOnly.mono {hook : Recorded ε EngineEvent → Recorded ε EngineEvent}
    (h : MakesOnly allowed hook) {permitted : EngineCall → Prop}
    (himp : ∀ c, allowed c → permitted c) : MakesOnly permitted hook := by
  intro r
  obtain ⟨events, hlog, hevents⟩ := h r
  exact ⟨events, hlog, fun event he => himp event.call (hevents event he)⟩

theorem makesOnly_after [Engine ε] {c : EngineCall} (h : allowed c) :
    MakesOnly allowed (Engine.after c : Recorded ε EngineEvent → Recorded ε EngineEvent) :=
  fun r => ⟨_, log_after c r, fun _ he => (List.mem_singleton.1 he) ▸ h⟩

/-- What a hook and a call after it add to the history. -/
theorem MakesOnly.call [Engine ε] {hook : Recorded ε EngineEvent → Recorded ε EngineEvent}
    (h : MakesOnly allowed hook) {c : EngineCall} {r r' : Recorded ε EngineEvent}
    {answer : c.Answer} (hcall : Engine.call c (hook r) = (answer, r')) :
    ∃ events, r'.log = r.log ++ (events ++ [⟨c, answer⟩]) ∧
      ∀ event ∈ events, allowed event.call := by
  obtain ⟨events, hlog, hevents⟩ := h r
  exact ⟨events, by rw [log_of_call hcall, hlog, List.append_assoc], hevents⟩

theorem makesOnly_foldl [Engine ε] {calls : List EngineCall} (h : ∀ c ∈ calls, allowed c) :
    MakesOnly allowed fun r : Recorded ε EngineEvent =>
      calls.foldl (fun engine c => Engine.after c engine) r := by
  induction calls with
  | nil => exact makesOnly_id
  | cons c rest ih =>
    intro r
    obtain ⟨events, hlog, hevents⟩ :=
      ih (fun d hd => h d (List.mem_cons_of_mem c hd)) (Engine.after c r)
    refine ⟨⟨c, (Engine.call c r).1⟩ :: events, ?_, fun e he => ?_⟩
    · refine hlog.trans ?_
      rw [log_after, List.append_assoc, List.singleton_append]
    · rcases List.mem_cons.1 he with rfl | he
      · exact h c List.mem_cons_self
      · exact hevents e he

end

end Recorded
end SidPlayback
