/-
  Which positions reach the engine.

  There are two ways to it: the panning of all voices, which is validated, and the
  position of a single voice, which is brought into range.  `NaN` is refused on the
  first way, but passes on the second.

  * `handed` and `changed` are the positions that go either way, and `received` all
    of them;
  * `Player.positions_received`: they are in range, unless a voice is given `NaN`;
  * `Player.nan_received`: then the engine receives it.
-/
import SidPlayback.Proofs.Player.Delivery
import SidPlayback.Proofs.Player.Readiness

namespace SidPlayback

/-! ## Bringing positions into range -/

section
variable {v : Float32}

theorem clampPosition_of_isNaN (h : v.isNaN = true) : clampPosition v = v := by
  have hnumber : v.toModel.unpack.isNaN = true := h
  have hv : v.toModel.unpack = .notANumber := by
    cases hx : v.toModel.unpack with
    | notANumber => rfl
    | infinity | zero | finite => rw [hx] at hnumber; cases hnumber
  have hzero : ¬ v < 0.0 := by rw [Decimal.lt_iff, hv]; exact nofun
  have hone : ¬ 1.0 < v := by rw [Decimal.lt_iff, hv]; exact nofun
  simp only [clampPosition, if_neg hzero, if_neg hone]

theorem Panning.InRange.isNaN_eq_false (h : Panning.InRange v) : v.isNaN = false := by
  obtain ⟨q, hq, -⟩ := h
  show v.toModel.unpack.isNaN = false
  cases hx : v.toModel.unpack with
  | notANumber => rw [hx] at hq; cases hq
  | infinity | zero | finite => rfl

theorem inRange_clampPosition (h : v.isNaN = false) : Panning.InRange (clampPosition v) := by
  rw [← Panning.isPosition_iff, clampPosition]
  by_cases hzero : v < 0.0
  · simp only [if_pos hzero]; decide
  simp only [if_neg hzero]
  by_cases hone : 1.0 < v
  · simp only [if_pos hone]; decide
  simp only [if_neg hone]
  rw [Decimal.lt_iff_not_le h rfl, not_not] at hzero
  rw [Decimal.lt_iff_not_le rfl h, not_not] at hone
  simp [Panning.isPosition, Decimal.isFinite_of_between hzero hone, hzero, hone]

/-- **Clamping** brings everything into range but `NaN`. -/
theorem inRange_clampPosition_iff : Panning.InRange (clampPosition v) ↔ v.isNaN = false := by
  refine ⟨fun h => ?_, inRange_clampPosition⟩
  by_contra hnan
  rw [Bool.not_eq_false] at hnan
  rw [clampPosition_of_isNaN hnan] at h
  exact absurd (h.isNaN_eq_false.symm.trans hnan) Bool.false_ne_true

end

/-! ## What the engine is given -/

/-- The position that a call gives a single voice. -/
def EngineCall.position? : EngineCall → Option Float32
  | setPanning _ _ position => some position
  | _ => none

/-- The position that an operation asks for a single voice. -/
def Operation.position? : Operation → Option Float32
  | .adjust (.panning _ _ position) => some position
  | _ => none

/-- The positions that single voices were given. -/
def changed (log : List EngineEvent) : List Float32 :=
  (log.map (·.call)).filterMap EngineCall.position?

/-- All positions that were given, to all voices at once or to single ones. -/
def received (log : List EngineEvent) : List Float32 := (handed log).flatten ++ changed log

theorem changed_of_calls {log log' : List EngineEvent}
    (h : ∃ events, log' = log ++ events ∧ ∀ event ∈ events, event.call.position? = none) :
    changed log' = changed log := by
  obtain ⟨events, rfl, hevents⟩ := h
  have hnone : (events.map (·.call)).filterMap EngineCall.position? = [] :=
    List.filterMap_eq_nil_iff.2 (List.forall_mem_map.2 hevents)
  rw [changed, List.map_append, List.filterMap_append, hnone, List.append_nil]; rfl

theorem Control.position_calls (control : Control) :
    control.calls.filterMap EngineCall.position? =
      (Operation.adjust control).position?.toList.map clampPosition := by
  cases control with
  | voices mask => simp [calls, Operation.position?, EngineCall.position?]
  | _ => rfl

namespace Player
open Recorded

variable {ε η : Type}

/-! ## Pannings of all voices -/

/-- Whatever was handed over is accepted, and so is what waits. -/
structure Validated (p : Player (Recorded ε EngineEvent) η) : Prop where
  handed : ∀ values ∈ handed p.engine.log, Panning.Accepted values
  pending : ∀ panning ∈ p.pendingPanning, Panning.Accepted panning.values
  hook : Discreet p.hook

theorem Validated.alike {p q : Player (Recorded ε EngineEvent) η} (h : Validated p)
    (hq : Alike p q) : Validated q :=
  ⟨hq.handed_eq ▸ h.handed, hq.pending ▸ h.pending, hq.hook⟩

variable [Engine ε]

theorem Validated.forwardPanning {p : Player (Recorded ε EngineEvent) η} (h : Validated p)
    {panning : Panning} (hpanning : Panning.Accepted panning.values) :
    Validated (p.forwardPanning panning) := by
  refine ⟨fun values hvalues => ?_, h.pending, h.hook⟩
  simp only [Player.forwardPanning, log_after, SidPlayback.handed, List.filterMap_append] at hvalues
  rcases List.mem_append.1 hvalues with hvalues | hvalues
  · exact h.handed values hvalues
  · rw [List.mem_singleton.1 hvalues]; exact hpanning

theorem Validated.notifyReady {p : Player (Recorded ε EngineEvent) η} (h : Validated p) :
    Validated p.notifyReady.player := by
  rcases p.notifyReady_cases with ⟨-, hp⟩ | ⟨-, ⟨-, hp⟩ | ⟨panning, hpending, hp⟩⟩
  · rw [hp]; exact h
  · rw [hp]; exact ⟨h.handed, h.pending, h.hook⟩
  · have hempty : Validated { p with lifecycle := .ready, pendingPanning := none } :=
      ⟨h.handed, nofun, h.hook⟩
    rw [hp]
    exact hempty.forwardPanning (h.pending panning hpending)

theorem Validated.applyPanning {p : Player (Recorded ε EngineEvent) η} (h : Validated p)
    (values : List Float32) : Validated (p.applyPanning values).player := by
  rcases p.applyPanning_cases values with
    ⟨-, hp⟩ | ⟨hok, panning, rfl, ⟨-, hp⟩ | ⟨-, hp⟩⟩
  · rw [hp]; exact h
  · rw [hp]; exact h.forwardPanning hok
  · rw [hp]; exact ⟨h.handed, fun _ hwaits => Option.some.inj hwaits ▸ hok, h.hook⟩

variable [Host η]

theorem kept_validated :
    Kept (Validated : Player (Recorded ε EngineEvent) η → Prop) where
  enableScope p on h := h.alike ((keptPlaying_alike p).enableScope p on ⟨rfl, rfl, rfl, h.hook⟩)
  load p target file data h :=
    h.alike ((keptPlaying_alike p).load p target file data ⟨rfl, rfl, rfl, h.hook⟩)
  start p options h := h.alike ((keptPlaying_alike p).start p options ⟨rfl, rfl, rfl, h.hook⟩)
  step p h := h.alike ((keptPlaying_alike p).step p ⟨rfl, rfl, rfl, h.hook⟩)
  setting p c hc h := h.alike ((keptPlaying_alike p).setting p c hc ⟨rfl, rfl, rfl, h.hook⟩)
  notifyReady _ h := h.notifyReady
  applyPanning _ values h := h.applyPanning values

/-! ## Positions of single voices -/

section
variable {allowed : EngineCall → Prop} {p q r : Player (Recorded ε EngineEvent) η}

/-- From `p` to `q` only such calls were made, and the hook makes no others. -/
structure Calls (allowed : EngineCall → Prop) (p q : Player (Recorded ε EngineEvent) η) :
    Prop where
  events : ∃ events, q.engine.log = p.engine.log ++ events ∧
    ∀ event ∈ events, allowed event.call
  hook : MakesOnly allowed q.hook

omit [Engine ε] [Host η] in
theorem Calls.refl (hhook : MakesOnly allowed p.hook) : Calls allowed p p :=
  ⟨⟨[], (List.append_nil _).symm, nofun⟩, hhook⟩

omit [Engine ε] [Host η] in
theorem Calls.more (h : Calls allowed p q) (hhook : r.hook = q.hook)
    (hmore : ∃ events, r.engine.log = q.engine.log ++ events ∧
      ∀ event ∈ events, allowed event.call) : Calls allowed p r := by
  obtain ⟨events, hlog, hevents⟩ := h.events
  obtain ⟨more, hnext, hallowed⟩ := hmore
  refine ⟨⟨events ++ more, by rw [hnext, hlog, List.append_assoc], ?_⟩, hhook ▸ h.hook⟩
  intro event he
  rcases List.mem_append.1 he with he | he
  · exact hevents event he
  · exact hallowed event he

omit [Host η] in
theorem Calls.after (hhook : MakesOnly allowed p.hook) {c : EngineCall} (hc : allowed c)
    (hengine : q.engine = Engine.after c p.engine) (hsame : q.hook = p.hook) :
    Calls allowed p q :=
  (Calls.refl hhook).more hsame
    ⟨_, by rw [hengine, log_after], fun _ he => (List.mem_singleton.1 he) ▸ hc⟩

variable (hallowed : ∀ c, c.kind ≠ .setting → allowed c)
include hallowed

/-- Sessions change no settings. -/
theorem keptSession_calls (p : Player (Recorded ε EngineEvent) η) :
    KeptSession (Calls allowed p) where
  enableScope q on h := ⟨h.events, h.hook⟩
  load q target file data h := by
    rcases q.load_cases target file data with ⟨-, hq⟩ | ⟨hl, engine, hq⟩
    · rw [hq]; exact h
    obtain ⟨events, hlog, hload⟩ := q.log_load hl target file data
    refine h.more ?_ ⟨events, hlog, fun event he => hallowed _ ?_⟩
    · rcases hq with ⟨failure, -, hq⟩ | ⟨host, rates, -, hq⟩ <;> rw [hq] <;> rfl
    · rcases hload event he with hk | hk <;> rw [hk] <;> decide
  start q options h := by
    rcases q.start_cases options with
      hq | ⟨-, -, host, track, traced, bufferSize, status, engine, hcall, hq⟩
    · rw [hq]; exact h
    refine h.more (by rw [hq]) ⟨_, by rw [hq]; exact log_of_call hcall, fun event he => ?_⟩
    rw [List.mem_singleton.1 he]
    exact hallowed _ nofun
  step q h := by
    rcases q.step_cases with ⟨-, hq⟩ | ⟨-, answer, engine, hcall, hq⟩
    · rw [hq]; exact h
    obtain ⟨events, hcompute, hevents⟩ := h.hook.call hcall
    have hmore : ∀ event ∈ events ++ [⟨.compute, answer⟩], allowed event.call := by
      intro event he
      rcases List.mem_append.1 he with he | he
      · exact hevents event he
      · rw [List.mem_singleton.1 he]; exact hallowed _ nofun
    rcases hq with ⟨-, hq⟩ | ⟨-, rate, label, digiStatus, latency, hq⟩
    · exact h.more (by rw [hq]) ⟨_, by rw [hq]; exact hcompute, hmore⟩
    · exact h.more (by rw [hq]) ⟨_, by rw [hq]; exact hcompute, hmore⟩

/-- **Only controls change settings.** -/
theorem calls_perform (hhook : MakesOnly allowed p.hook) {o : Operation}
    (hcontrol : o.isControl = false) : Calls allowed p (p.perform o).player := by
  have hpanning : ∀ panning, allowed (.initPanning panning) :=
    fun _ => hallowed _ fun h => by cases h
  rcases o.panning_cases with rfl | ⟨values, rfl⟩ | ⟨hnotify, hnone⟩
  · show Calls allowed p p.notifyReady.player
    rcases p.notifyReady_cases with ⟨-, hp⟩ | ⟨-, ⟨-, hp⟩ | ⟨panning, -, hp⟩⟩
    · rw [hp]; exact Calls.refl hhook
    · rw [hp]; exact ⟨(Calls.refl hhook).events, hhook⟩
    · rw [hp]; exact Calls.after (c := .initPanning panning) hhook (hpanning _) rfl rfl
  · show Calls allowed p (p.applyPanning values).player
    rcases p.applyPanning_cases values with ⟨-, hp⟩ | ⟨-, panning, -, ⟨-, hp⟩ | ⟨-, hp⟩⟩
    · rw [hp]; exact Calls.refl hhook
    · rw [hp]; exact Calls.after (c := .initPanning panning) hhook (hpanning _) rfl rfl
    · rw [hp]; exact ⟨(Calls.refl hhook).events, hhook⟩
  · exact (keptSession_calls hallowed p).perform (Calls.refl hhook) hnotify hnone hcontrol

end

section
variable {p : Player (Recorded ε EngineEvent) η}

theorem changed_perform (hhook : MakesOnly (·.position? = none) p.hook) (o : Operation) :
    MakesOnly (·.position? = none) (p.perform o).player.hook ∧
      changed (p.perform o).player.engine.log =
        changed p.engine.log ++ o.position?.toList.map clampPosition := by
  -- only controls call for a position of a single voice
  cases hcontrol : o.isControl with
  | true =>
    cases o with
    | adjust control =>
      refine ⟨hhook, ?_⟩
      rw [← control.position_calls, changed, perform, adjust, calls_foldl,
        List.filterMap_append]
      rfl
    | setFilter curve =>
      refine ⟨hhook, (changed_of_calls ⟨_, log_after _ _, fun event he => ?_⟩).trans
        (List.append_nil _).symm⟩
      rw [List.mem_singleton.1 he]; rfl
    | _ => cases hcontrol
  | false =>
    have hsetting : ∀ c : EngineCall, c.kind ≠ .setting → c.position? = none := by
      intro c hc
      cases c with
      | setPanning => exact absurd rfl hc
      | _ => rfl
    have h := calls_perform hsetting hhook hcontrol
    have hnone : o.position? = none := by
      cases o with
      | adjust => cases hcontrol
      | _ => rfl
    exact ⟨h.hook, by rw [hnone, changed_of_calls h.events]; exact (List.append_nil _).symm⟩

/-- **Single voices** are given the positions that are asked for, brought into range. -/
theorem changed_run (hhook : MakesOnly (·.position? = none) p.hook)
    (operations : List Operation) :
    changed (p.run operations).engine.log = changed p.engine.log ++
      (operations.filterMap Operation.position?).map clampPosition := by
  induction operations generalizing p with
  | nil => exact (List.append_nil _).symm
  | cons o rest ih =>
    obtain ⟨hnext, hchanged⟩ := changed_perform hhook o
    refine (ih hnext).trans ?_
    rw [hchanged, List.append_assoc, ← List.map_append]
    congr 2
    cases ho : o.position? <;> simp [ho]

theorem Made.validated {engine : ε} {host : η} {roms : Rom.Bank}
    (made : Made (Recorded.fresh engine) host roms p) :
    Validated p ∧ MakesOnly (·.position? = none) p.hook ∧ changed p.engine.log = [] := by
  have hperform {q : Player (Recorded ε EngineEvent) η} {o : Operation} (ho : o.position? = none)
      (h : MakesOnly (·.position? = none) q.hook ∧ changed q.engine.log = []) :
      MakesOnly (·.position? = none) (q.perform o).player.hook ∧
        changed (q.perform o).player.engine.log = [] := by
    obtain ⟨hhook, hchanged⟩ := changed_perform h.1 o
    exact ⟨hhook, by rw [hchanged, h.2, ho]; rfl⟩
  refine made.induct (I := fun p => Validated p ∧ MakesOnly (·.position? = none) p.hook ∧
    changed p.engine.log = []) ?_ ?_ ?_ ?_
  · exact ⟨⟨nofun, nofun, makesOnly_id⟩, makesOnly_id, rfl⟩
  · exact fun q h => ⟨h.1.notifyReady, hperform (o := .notifyReady) rfl h.2⟩
  · exact fun q on h => ⟨kept_validated.enableScope q on h.1, h.2⟩
  · exact fun q values h => ⟨h.1.applyPanning values, hperform (o := .applyPanning values) rfl h.2⟩

/-! ## All positions -/

/-- The hook leaves all positions to the player. -/
abbrev Reserved (hook : Recorded ε EngineEvent → Recorded ε EngineEvent) : Prop :=
  MakesOnly (fun c => c.kind ≠ .panning ∧ c.position? = none) hook

/-- **What the engine is told of positions.**  Every panning of all voices is
    accepted, and single voices are given the positions that are asked for, brought
    into range.  So whatever it receives is in range, exactly if `NaN` is never asked
    for. -/
theorem positions_received {engine : ε} {host : η} {roms : Rom.Bank}
    (made : Made (Recorded.fresh engine) host roms p)
    {hook : Recorded ε EngineEvent → Recorded ε EngineEvent} (reserved : Reserved hook)
    (operations : List Operation) :
    let log := ((p.setHook hook).run operations).engine.log
    (∀ values ∈ handed log, Panning.Accepted values) ∧
      changed log = (operations.filterMap Operation.position?).map clampPosition ∧
      ((∀ v ∈ received log, Panning.InRange v) ↔
        ∀ v ∈ operations.filterMap Operation.position?, v.isNaN = false) := by
  intro log
  obtain ⟨hvalidated, -, hnone⟩ := made.validated
  have hhook : Validated (p.setHook hook) :=
    ⟨hvalidated.handed, hvalidated.pending, reserved.mono fun _ hc => hc.1⟩
  have hhanded := (kept_validated.run hhook operations).handed
  have hchanged : changed log = (operations.filterMap Operation.position?).map clampPosition := by
    refine (changed_run (p := p.setHook hook) (reserved.mono fun _ hc => hc.2) operations).trans ?_
    show changed p.engine.log ++ _ = _
    rw [hnone, List.nil_append]
  refine ⟨hhanded, hchanged, ?_⟩
  have hwhole : ∀ v ∈ (handed log).flatten, Panning.InRange v := by
    intro v hv
    obtain ⟨values, hvalues, hv⟩ := List.mem_flatten.1 hv
    exact (hhanded values hvalues).2 v hv
  simp only [received, hchanged, List.forall_mem_append, List.forall_mem_map,
    inRange_clampPosition_iff]
  exact ⟨fun h => h.2, fun h => ⟨hwhole, h⟩⟩

end

/-- A value that is no number. -/
def nan : Float32 := 0.0 / 0.0

theorem positions_received_clamped :
    let hook := Engine.after (.setRam 2 1)
    let p := (createWith (Recorded.fresh Scripted.initial) ScriptedHost.initial ⟨none, none, none⟩
      ⟨false, some (List.replicate 30 0.25)⟩).player
    let operations : List Operation := [.applyPanning (List.replicate 30 nan),
      .adjust (.panning 3 1 7.5), .adjust (.panning 0 2 (-1.0))]
    let log := ((p.setHook hook).run operations).engine.log
    Made (Recorded.fresh Scripted.initial) ScriptedHost.initial ⟨none, none, none⟩ p ∧
      Reserved (ε := Scripted) hook ∧ changed log = [1.0, 0.0] ∧
      ∀ v ∈ received log, Panning.InRange v := by
  intro hook p operations log
  have hmade : Made (Recorded.fresh Scripted.initial) ScriptedHost.initial
      ⟨none, none, none⟩ p := .createWith _
  have hhook : Reserved (ε := Scripted) hook := makesOnly_after ⟨nofun, rfl⟩
  obtain ⟨-, hchanged, hrange⟩ := positions_received hmade hhook operations
  refine ⟨hmade, hhook, hchanged.trans (by decide), hrange.2 fun v hv => ?_⟩
  have hasked : operations.filterMap Operation.position? = [7.5, -1.0] := rfl
  rw [hasked] at hv
  rcases List.mem_pair.1 hv with rfl | rfl <;> decide

/-- A single voice can be given what is no number. -/
theorem nan_received :
    let log := ((scripted ⟨none, none, none⟩).run [.adjust (.panning 0 0 nan)]).engine.log
    received log = [nan] ∧ ¬ Panning.InRange nan := by
  refine ⟨by rfl, fun h => ?_⟩
  exact absurd h.isNaN_eq_false (by decide)

end Player
end SidPlayback
