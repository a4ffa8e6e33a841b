/-
  How the panning gets to the engine.

  A panning that is accepted is handed to an engine that is ready at once.  Until
  the engine is ready the panning waits, and only the last one is handed over when
  it is.

  * `handed` are the pannings that an engine was given, and `deliveries` those that
    a list of operations hands over;
  * `Player.panning_delivered`: they are the same, for every list of operations,
    and only the first notice that the engine is ready has an effect.
-/
import Mathlib.Data.List.TakeWhile
import SidPlayback.Engine.Scripted
import SidPlayback.Host.Scripted
import SidPlayback.Proofs.Panning
import SidPlayback.Proofs.Player.Loading
import SidPlayback.Proofs.Player.Operations

namespace SidPlayback

/-! ## Deliveries -/

/-- The lists of values that are applied and accepted. -/
def accepted (operations : List Operation) : List (List Float32) :=
  (operations.filterMap Operation.panning?).filter (decide <| Panning.Accepted ·)

/-- What is handed to an engine that is ready from the beginning, or becomes so: in
    the latter case what was accepted last before that, and all that is accepted
    from then on. -/
def deliveries (ready : Bool) (operations : List Operation) : List (List Float32) :=
  if ready then accepted operations
  else
    match operations.dropWhile (!·.isNotify) with
    | [] => []
    | _ :: after =>
      (accepted (operations.takeWhile (!·.isNotify))).getLast?.toList ++ accepted after

@[simp] theorem accepted_append (operations more : List Operation) :
    accepted (operations ++ more) = accepted operations ++ accepted more := by
  simp [accepted]

theorem accepted_of_none {o : Operation} (h : o.panning? = none) : accepted [o] = [] := by
  simp [accepted, h]

theorem accepted_applyPanning (values : List Float32) :
    accepted [.applyPanning values] = if Panning.Accepted values then [values] else [] := by
  simp [accepted, Operation.panning?, List.filter_cons]

theorem Operation.panning_cases (o : Operation) :
    o = .notifyReady ∨ (∃ values, o = .applyPanning values) ∨
      (o.isNotify = false ∧ o.panning? = none) := by
  cases o with
  | notifyReady => exact .inl rfl
  | applyPanning values => exact .inr (.inl ⟨values, rfl⟩)
  | _ => exact .inr (.inr ⟨rfl, rfl⟩)

/-- Either the engine never becomes ready, or there is a first time. -/
theorem split_notify (operations : List Operation) :
    (∀ o ∈ operations, o.isNotify = false) ∨
      ∃ before after, operations = before ++ .notifyReady :: after ∧
        ∀ o ∈ before, o.isNotify = false := by
  induction operations with
  | nil => exact .inl nofun
  | cons o rest ih =>
    rcases o.panning_cases with rfl | ho
    · exact .inr ⟨[], rest, rfl, nofun⟩
    have hnotify : o.isNotify = false := by
      rcases ho with ⟨values, rfl⟩ | ⟨hnotify, -⟩
      · rfl
      · exact hnotify
    rcases ih with hnever | ⟨before, after, rfl, hbefore⟩
    · exact .inl (List.forall_mem_cons.2 ⟨hnotify, hnever⟩)
    · exact .inr ⟨o :: before, after, rfl, List.forall_mem_cons.2 ⟨hnotify, hbefore⟩⟩

theorem deliveries_of_never {operations : List Operation}
    (h : ∀ o ∈ operations, o.isNotify = false) : deliveries false operations = [] := by
  have hdrop : operations.dropWhile (!·.isNotify) = [] :=
    List.dropWhile_eq_nil_iff.2 fun o ho => by simp [h o ho]
  simp [deliveries, hdrop]

theorem deliveries_of_split {before : List Operation} (h : ∀ o ∈ before, o.isNotify = false)
    (after : List Operation) : deliveries false (before ++ .notifyReady :: after) =
      (accepted before).getLast?.toList ++ accepted after := by
  have hwaiting : ∀ o ∈ before, (!o.isNotify) = true := fun o ho => by simp [h o ho]
  have htake : (before ++ .notifyReady :: after).takeWhile (!·.isNotify) = before := by
    rw [List.takeWhile_append_of_pos hwaiting]; exact List.append_nil before
  have hdrop : (before ++ .notifyReady :: after).dropWhile (!·.isNotify) =
      .notifyReady :: after := by
    rw [List.dropWhile_append_of_pos hwaiting]; rfl
  simp only [deliveries, htake, hdrop]
  rfl

/-! ## What the engine is given -/

/-- The panning that a call hands over. -/
def EngineEvent.panning? : EngineEvent → Option (List Float32)
  | ⟨.initPanning panning, _⟩ => some panning.values
  | _ => none

/-- The pannings handed over by a list of calls. -/
def handed (log : List EngineEvent) : List (List Float32) := log.filterMap EngineEvent.panning?

theorem handed_of_calls {log log' : List EngineEvent}
    (h : ∃ events, log' = log ++ events ∧ ∀ event ∈ events, event.call.kind ≠ .panning) :
    handed log' = handed log := by
  obtain ⟨events, rfl, hevents⟩ := h
  have hnone : events.filterMap EngineEvent.panning? = [] := by
    refine List.filterMap_eq_nil_iff.2 fun event he => ?_
    have hcall := hevents event he
    obtain ⟨c, answer⟩ := event
    cases c with
    | initPanning => exact absurd rfl hcall
    | _ => rfl
  rw [handed, List.filterMap_append, hnone, List.append_nil]; rfl

namespace Player
open Recorded

variable {ε η : Type}

/-- The hook leaves the panning to the player. -/
abbrev Discreet (hook : Recorded ε EngineEvent → Recorded ε EngineEvent) : Prop :=
  MakesOnly (fun c => c.kind ≠ .panning) hook

/-- As far as panning goes nothing has happened between `p` and `q`. -/
structure Alike (p q : Player (Recorded ε EngineEvent) η) : Prop where
  lifecycle : q.lifecycle = p.lifecycle
  pending : q.pendingPanning = p.pendingPanning
  handed_eq : handed q.engine.log = handed p.engine.log
  hook : Discreet q.hook

theorem Alike.calls {p q r : Player (Recorded ε EngineEvent) η} (h : Alike p q)
    (hlifecycle : r.lifecycle = q.lifecycle) (hpending : r.pendingPanning = q.pendingPanning)
    (hhook : r.hook = q.hook)
    (hcalls : ∃ events, r.engine.log = q.engine.log ++ events ∧
      ∀ event ∈ events, event.call.kind ≠ .panning) : Alike p r :=
  ⟨hlifecycle.trans h.lifecycle, hpending.trans h.pending,
    (handed_of_calls hcalls).trans h.handed_eq, hhook ▸ h.hook⟩

section
variable [Engine ε]

theorem applyPanning_result (p : Player ε η) (values : List Float32) :
    (p.applyPanning values).result = .ok () ↔ Panning.Accepted values := by
  rcases Panning.check_cases values with ⟨hok, hsize, hcheck⟩ | ⟨hno, fault, hcheck⟩
  · refine iff_of_true ?_ hok
    simp only [applyPanning, hcheck]
    split <;> rfl
  · refine iff_of_false ?_ hno
    simp only [applyPanning, hcheck]
    exact fun h => by cases h

theorem notifyReady_of_ready {p : Player ε η} (hl : p.lifecycle = .ready) :
    p.notifyReady = ⟨false, p, []⟩ := by
  simp only [notifyReady, hl]

theorem notifyReady_result (p : Player ε η) : p.notifyReady.result = !p.isReady := by
  unfold notifyReady isReady
  split
  · rename_i hl; rw [hl]; rfl
  · rename_i hl
    dsimp only
    split <;> rw [hl] <;> rfl

/-- When the engine becomes ready it is handed what waits. -/
theorem notifyReady_of_waiting {p : Player (Recorded ε EngineEvent) η}
    (hl : p.lifecycle = .uninitialized) :
    p.notifyReady.result = true ∧ p.notifyReady.player.lifecycle = .ready ∧
      p.notifyReady.player.hook = p.hook ∧
      handed p.notifyReady.player.engine.log =
        handed p.engine.log ++ (p.pendingPanning.map (·.values)).toList := by
  cases hp : p.pendingPanning with
  | none =>
    simp only [notifyReady, hl, hp]
    exact ⟨trivial, trivial, trivial, (List.append_nil _).symm⟩
  | some panning =>
    simp only [notifyReady, hl, hp, forwardPanning, log_after, handed, List.filterMap_append]
    exact ⟨trivial, trivial, trivial, rfl⟩

end

variable [Engine ε] [Host η]

/-- Playing has nothing to do with panning. -/
theorem keptPlaying_alike (p : Player (Recorded ε EngineEvent) η) : KeptPlaying (Alike p) where
  enableScope q on h := ⟨h.lifecycle, h.pending, h.handed_eq, h.hook⟩
  load q target file data h := by
    rcases q.load_cases target file data with ⟨-, hq⟩ | ⟨hl, engine, hq⟩
    · rw [hq]; exact h
    obtain ⟨events, hlog, hload⟩ := q.log_load hl target file data
    have hevents : ∀ event ∈ events, event.call.kind ≠ .panning := by
      intro event he
      rcases hload event he with hk | hk <;> rw [hk] <;> decide
    rcases hq with ⟨failure, -, hq⟩ | ⟨host, rates, -, hq⟩
    · exact h.calls (by rw [hq]; rfl) (by rw [hq]; rfl) (by rw [hq]; rfl) ⟨events, hlog, hevents⟩
    · exact h.calls (by rw [hq]; rfl) (by rw [hq]; rfl) (by rw [hq]; rfl) ⟨events, hlog, hevents⟩
  start q options h := by
    rcases q.start_cases options with
      hq | ⟨-, -, host, track, traced, bufferSize, status, engine, hcall, hq⟩
    · rw [hq]; exact h
    refine h.calls (by rw [hq]) (by rw [hq]) (by rw [hq])
      ⟨_, by rw [hq]; exact log_of_call hcall, ?_⟩
    intro event he
    rw [List.mem_singleton.1 he]; exact nofun
  step q h := by
    rcases q.step_cases with ⟨-, hq⟩ | ⟨-, answer, engine, hcall, hq⟩
    · rw [hq]; exact h
    obtain ⟨events, hcompute, hevents⟩ := h.hook.call hcall
    have hquiet : ∀ event ∈ events ++ [⟨.compute, answer⟩], event.call.kind ≠ .panning := by
      intro event he
      rcases List.mem_append.1 he with he | he
      · exact hevents event he
      · rw [List.mem_singleton.1 he]; exact nofun
    rcases hq with ⟨-, hq⟩ | ⟨-, rate, label, digiStatus, latency, hq⟩
    · exact h.calls (by rw [hq]) (by rw [hq]) (by rw [hq]) ⟨_, by rw [hq]; exact hcompute, hquiet⟩
    · exact h.calls (by rw [hq]) (by rw [hq]) (by rw [hq]) ⟨_, by rw [hq]; exact hcompute, hquiet⟩
  setting q c hc h := by
    refine h.calls rfl rfl rfl ⟨_, log_after c q.engine, fun event he => ?_⟩
    rw [List.mem_singleton.1 he, hc]; decide

section
variable {p : Player (Recorded ε EngineEvent) η}

theorem alike_perform (hhook : Discreet p.hook) {o : Operation} (hnotify : o.isNotify = false)
    (hpanning : o.panning? = none) : Alike p (p.perform o).player :=
  (keptPlaying_alike p).perform ⟨rfl, rfl, rfl, hhook⟩ hnotify hpanning

/-! ## An engine that is ready -/

theorem perform_of_ready (hl : p.lifecycle = .ready) (hhook : Discreet p.hook) (o : Operation) :
    (p.perform o).player.lifecycle = .ready ∧ Discreet (p.perform o).player.hook ∧
      handed (p.perform o).player.engine.log = handed p.engine.log ++ accepted [o] := by
  rcases o.panning_cases with rfl | ⟨values, rfl⟩ | ⟨hnotify, hpanning⟩
  · rw [perform, notifyReady_of_ready hl]
    exact ⟨hl, hhook, (List.append_nil _).symm⟩
  · rcases Panning.check_cases values with ⟨hok, hsize, hcheck⟩ | ⟨hno, fault, hcheck⟩
    · rw [accepted_applyPanning, if_pos hok]
      simp only [perform, applyPanning, hcheck, hl, forwardPanning, log_after, handed,
        List.filterMap_append]
      exact ⟨trivial, hhook, rfl⟩
    · rw [accepted_applyPanning, if_neg hno]
      simp only [perform, applyPanning, hcheck]
      exact ⟨hl, hhook, (List.append_nil _).symm⟩
  · have h := alike_perform hhook hnotify hpanning
    refine ⟨h.lifecycle.trans hl, h.hook, h.handed_eq.trans ?_⟩
    rw [accepted_of_none hpanning, List.append_nil]

/-- **To an engine that is ready** every panning is handed when it is accepted. -/
theorem run_of_ready (hl : p.lifecycle = .ready) (hhook : Discreet p.hook)
    (operations : List Operation) :
    (p.run operations).lifecycle = .ready ∧
      handed (p.run operations).engine.log = handed p.engine.log ++ accepted operations := by
  induction operations generalizing p with
  | nil => exact ⟨hl, (List.append_nil _).symm⟩
  | cons o rest ih =>
    obtain ⟨hl', hhook', hhanded⟩ := perform_of_ready hl hhook o
    obtain ⟨hready, hrest⟩ := ih hl' hhook'
    refine ⟨hready, hrest.trans ?_⟩
    rw [hhanded, List.append_assoc, ← accepted_append, List.singleton_append]

/-! ## An engine that is not ready yet -/

/-- While operations lead from `p` to `q` nothing is handed over, and what is
    accepted waits in the place of what waited before. -/
structure Waits (p q : Player (Recorded ε EngineEvent) η) (operations : List Operation) :
    Prop where
  lifecycle : q.lifecycle = .uninitialized
  hook : Discreet q.hook
  handed_eq : handed q.engine.log = handed p.engine.log
  pending : q.pendingPanning.map (·.values) =
    (accepted operations).getLast?.or (p.pendingPanning.map (·.values))

theorem perform_of_waiting (hl : p.lifecycle = .uninitialized) (hhook : Discreet p.hook)
    {o : Operation} (ho : o.isNotify = false) : Waits p (p.perform o).player [o] := by
  rcases o.panning_cases with rfl | ⟨values, rfl⟩ | ⟨hnotify, hpanning⟩
  · cases ho
  · rcases Panning.check_cases values with ⟨hok, hsize, hcheck⟩ | ⟨hno, fault, hcheck⟩
    · have haccepted : accepted [.applyPanning values] = [values] := by
        rw [accepted_applyPanning, if_pos hok]
      simp only [perform, applyPanning, hcheck, hl]
      exact ⟨rfl, hhook, rfl, by rw [haccepted]; rfl⟩
    · have haccepted : accepted [.applyPanning values] = [] := by
        rw [accepted_applyPanning, if_neg hno]
      simp only [perform, applyPanning, hcheck]
      exact ⟨hl, hhook, rfl, by rw [haccepted]; rfl⟩
  · have h := alike_perform hhook hnotify hpanning
    refine ⟨h.lifecycle.trans hl, h.hook, h.handed_eq, ?_⟩
    rw [h.pending, accepted_of_none hpanning]; rfl

/-- **To an engine that is not ready** nothing is handed, and what was accepted last
    waits. -/
theorem run_of_waiting (hl : p.lifecycle = .uninitialized) (hhook : Discreet p.hook)
    {operations : List Operation} (ho : ∀ o ∈ operations, o.isNotify = false) :
    Waits p (p.run operations) operations := by
  induction operations generalizing p with
  | nil => exact ⟨hl, hhook, rfl, rfl⟩
  | cons o rest ih =>
    have hfirst := perform_of_waiting hl hhook (ho o List.mem_cons_self)
    have hrest := ih hfirst.lifecycle hfirst.hook fun o' ho' => ho o' (List.mem_cons_of_mem o ho')
    refine ⟨hrest.lifecycle, hrest.hook, hrest.handed_eq.trans hfirst.handed_eq, ?_⟩
    have hcons : accepted (o :: rest) = accepted [o] ++ accepted rest := by
      rw [← accepted_append, List.singleton_append]
    rw [hcons, List.getLast?_append, Option.or_assoc, ← hfirst.pending]
    exact hrest.pending

/-! ## Runs -/

/-- What is handed over in a run of a new player, and whether its engine is ready
    then. -/
theorem run_delivers (hpending : p.pendingPanning = none) (hnone : handed p.engine.log = [])
    (hhook : Discreet p.hook) (operations : List Operation) :
    handed (p.run operations).engine.log = deliveries p.isReady operations ∧
      (p.run operations).isReady = (p.isReady || operations.any Operation.isNotify) := by
  cases hl : p.lifecycle with
  | ready =>
    have hready : p.isReady = true := by rw [isReady, hl]; rfl
    obtain ⟨hlast, hhanded⟩ := run_of_ready hl hhook operations
    rw [hready, hhanded, hnone, isReady, hlast]
    exact ⟨rfl, rfl⟩
  | uninitialized =>
    have hready : p.isReady = false := by rw [isReady, hl]; rfl
    rw [hready, Bool.false_or]
    -- before the first notice the last panning waits, after it each goes through
    rcases split_notify operations with hnever | ⟨before, after, rfl, hbefore⟩
    · have hwaits := run_of_waiting hl hhook hnever
      rw [deliveries_of_never hnever, hwaits.handed_eq, isReady, hwaits.lifecycle]
      exact ⟨hnone, (List.any_eq_false.2 fun o ho => by simp [hnever o ho]).symm⟩
    · have hwaits := run_of_waiting hl hhook hbefore
      obtain ⟨-, hnow, hsame, hgiven⟩ := notifyReady_of_waiting hwaits.lifecycle
      obtain ⟨hlast, hafter⟩ := run_of_ready hnow (hsame ▸ hwaits.hook) after
      have hrun : p.run (before ++ .notifyReady :: after) =
          (p.run before).notifyReady.player.run after := List.foldl_append
      rw [hrun, hafter, hgiven, hwaits.handed_eq, hnone, hwaits.pending, hpending,
        deliveries_of_split hbefore, isReady, hlast]
      refine ⟨by simp, ?_⟩
      rw [List.any_append, List.any_cons, Operation.isNotify, Bool.true_or, Bool.or_true]; rfl

/-- **Panning is delivered once, in order, if it is accepted.**  The calls that
    replace the panning of all voices are the `deliveries`, in every run and so after
    every operation of a run.  The first notice that the engine is ready, which for
    an engine that is ready from the beginning is taken when the player is made,
    is answered with `true`, any later one with `false`, and that has no effect. -/
theorem panning_delivered (engine : ε) (host : η) (roms : Rom.Bank)
    {hook : Recorded ε EngineEvent → Recorded ε EngineEvent} (discreet : Discreet hook)
    (operations : List Operation) :
    let new : Player (Recorded ε EngineEvent) η := initial (Recorded.fresh engine) host roms
    let made := (create (Recorded.fresh engine) host roms).player
    let p := (made.setHook hook).run operations
    (∀ values, (p.applyPanning values).result = .ok () ↔ Panning.Accepted values) ∧
    handed p.engine.log = deliveries (Engine.isReady engine) operations ∧
    (Engine.isReady engine = true → made = new.notifyReady.player ∧ new.notifyReady.result = true) ∧
    p.notifyReady.result = !(Engine.isReady engine || operations.any Operation.isNotify) ∧
    (p.notifyReady.result = false → p.notifyReady.player = p) := by
  intro new made p
  have hmade : made = if Engine.isReady engine then new.notifyReady.player else new := by
    simp only [made, create]
    split
    · rename_i h; exact (if_pos h).symm
    · rename_i h; exact (if_neg h).symm
  have hready : made.isReady = Engine.isReady engine := by
    rw [hmade]
    cases Engine.isReady engine <;> rfl
  have hpending : made.pendingPanning = none := by
    rw [hmade]
    split <;> rfl
  have hnone : handed made.engine.log = [] := by
    rw [hmade]
    split <;> rfl
  obtain ⟨hhanded, hlast⟩ :=
    run_delivers (p := made.setHook hook) hpending hnone discreet operations
  have hsame : (made.setHook hook).isReady = Engine.isReady engine := hready
  rw [hsame] at hhanded hlast
  refine ⟨applyPanning_result p, hhanded, fun h => ⟨by rw [hmade, if_pos h], rfl⟩, ?_, ?_⟩
  · rw [← hlast, notifyReady_result]
  · intro hfalse
    rw [notifyReady_result] at hfalse
    have hl : p.lifecycle = .ready := by
      cases h : p.lifecycle with
      | ready => rfl
      | uninitialized => rw [isReady, h] at hfalse; cases hfalse
    rw [notifyReady_of_ready hl]

end

theorem panning_delivered_late :
    let hook := Engine.after (.setRam 2 1)
    let left : List Float32 := List.replicate 30 0.0
    let right : List Float32 := List.replicate 30 1.0
    let made := (create (Recorded.fresh { Scripted.initial with ready := false })
      ScriptedHost.initial ⟨none, none, none⟩).player
    let p := (made.setHook hook).run [.applyPanning left, .applyPanning right, .applyPanning [],
      .notifyReady, .applyPanning left, .notifyReady]
    Discreet (ε := Scripted) hook ∧ handed p.engine.log = [right, left] ∧
      p.notifyReady.result = false := by
  intro hook left right made p
  have hhook : Discreet (ε := Scripted) hook := makesOnly_after nofun
  have hleft : Panning.Accepted left := Panning.accepted_replicate rfl
  have hright : Panning.Accepted right := Panning.accepted_replicate rfl
  have hempty : ¬ Panning.Accepted [] := fun h => by cases h.1
  obtain ⟨-, hhanded, -, hlater, -⟩ := panning_delivered { Scripted.initial with ready := false }
    ScriptedHost.initial ⟨none, none, none⟩ hhook [.applyPanning left, .applyPanning right,
      .applyPanning [], .notifyReady, .applyPanning left, .notifyReady]
  refine ⟨hhook, hhanded.trans ?_, hlater⟩
  simp [deliveries, accepted, Engine.isReady, Operation.isNotify, Operation.panning?, hleft, hright,
    hempty]

end Player
end SidPlayback
