/-
  Who has to give back the engine's memory.

  Staging areas are used in any order: buffers are staged and released, an area is given up
  for a new one, the engine changes by itself, and computations run in areas of their own.

  * `Heap.live` are the addresses in use after a history of calls, and `Heap.Balanced` says
    that they are those that are owned, and that nothing else was ever given back;
  * `Staging.Action` is what is done with an area, and `Staging.Action.Outcome` what may come
    of it;
  * `Staging.Body` is a computation in an area of its own;
  * `Staging.Bench` is an engine with an area, and an account of the addresses to be given back;
  * `Staging.ownership`: the account is right at every moment.
-/
import SidPlayback.Engine.Scripted
import SidPlayback.Proofs.Heap

namespace SidPlayback

/-! ## Addresses in use -/

namespace Heap

/-- The addresses in use after a history. -/
def live (history : List EngineEvent) : List Address :=
  (empty.replay history).blocks.map (·.address)

/-- No address is handed out while it is in use. -/
def HandsOutNew : List EngineEvent → Prop :=
  Throughout fun past event => ∀ block ∈ event.allocated, block.address ∉ live past

instance : DecidablePred HandsOutNew := fun _ => inferInstanceAs (Decidable (Throughout _ _))

/-- No address is given back that is not in use. -/
def FreesLive : List EngineEvent → Prop :=
  Throughout fun past event => ∀ address, event.call = .free address → address ∈ live past

section
variable (past : List EngineEvent)

theorem live_malloc (size : ℕ) (address : Address) :
    live (past ++ [⟨.malloc size, some address⟩]) = address :: live past := by
  simp [live, after]

theorem live_refused (size : ℕ) : live (past ++ [⟨.malloc size, none⟩]) = live past := by
  simp [live, after]

theorem live_writeHeap (address : Address) (data : List UInt8) :
    live (past ++ [⟨.writeHeap address data, ()⟩]) = live past := by
  simp [live, after]

theorem live_free (address : Address) :
    live (past ++ [⟨.free address, ()⟩]) = (live past).filter (· ≠ address) := by
  simp [live, after, List.filter_map, Function.comp_def]

end

theorem HandsOutNew.notMem_live {past : List EngineEvent} {data : List UInt8} {address : Address}
    (h : HandsOutNew (past ++ Staging.stagingCalls [data] [address])) : address ∉ live past :=
  h past ⟨.malloc data.length, some address⟩ [⟨.writeHeap address data, ()⟩] rfl
    ⟨address, data.length⟩ rfl

/-- The addresses in use are those that are owned, each once, and nothing was given back
    that was not in use. -/
structure Balanced (history : List EngineEvent) (owned : List Address) : Prop where
  perm : (live history).Perm owned
  nodup : owned.Nodup
  frees : FreesLive history

section
variable {history : List EngineEvent} {owned : List Address}

theorem balanced_nil : Balanced [] [] := ⟨.nil, .nil, throughout_nil⟩

theorem Balanced.stage (h : Balanced history owned) {address : Address}
    (hnew : address ∉ live history) (data : List UInt8) :
    Balanced (history ++ Staging.stagingCalls [data] [address]) (address :: owned) := by
  have hcalls : history ++ Staging.stagingCalls [data] [address] =
      history ++ [⟨.malloc data.length, some address⟩] ++ [⟨.writeHeap address data, ()⟩] := by
    rw [List.append_assoc]; rfl
  rw [hcalls]
  refine ⟨?_, ?_, ?_⟩
  · rw [live_writeHeap, live_malloc]
    exact h.perm.cons address
  · exact List.nodup_cons.2 ⟨fun hmem => hnew (h.perm.mem_iff.2 hmem), h.nodup⟩
  · exact throughout_snoc.2 ⟨throughout_snoc.2 ⟨h.frees, nofun⟩, nofun⟩

theorem Balanced.refuse (h : Balanced history owned) (size : ℕ) :
    Balanced (history ++ [⟨.malloc size, none⟩]) owned :=
  ⟨by rw [live_refused]; exact h.perm, h.nodup, throughout_snoc.2 ⟨h.frees, nofun⟩⟩

/-- **Giving back** addresses that are owned leaves the others. -/
theorem Balanced.free {addresses : List Address} (h : Balanced history (addresses ++ owned)) :
    Balanced (history ++ Staging.freeingCalls addresses) owned := by
  induction addresses generalizing history with
  | nil => rw [Staging.freeingCalls, List.map_nil, List.append_nil]; exact h
  | cons address rest ih =>
    have hfirst : Balanced (history ++ [⟨.free address, ()⟩]) (rest ++ owned) := by
      obtain ⟨hnot, hnodup⟩ := List.nodup_cons.1 h.nodup
      refine ⟨?_, hnodup, throughout_snoc.2 ⟨h.frees, fun other heq => ?_⟩⟩
      · have hrest : (rest ++ owned).filter (· ≠ address) = rest ++ owned :=
          List.filter_eq_self.2 fun other hother =>
            decide_eq_true fun heq => hnot (heq ▸ hother)
        rw [live_free, ← hrest]
        refine (h.perm.filter _).trans ?_
        simp
      · cases heq
        exact h.perm.mem_iff.2 List.mem_cons_self
    have hcalls : history ++ Staging.freeingCalls (address :: rest) =
        history ++ [⟨.free address, ()⟩] ++ Staging.freeingCalls rest := by
      rw [List.append_assoc]; rfl
    rw [hcalls]
    exact ih hfirst

end

end Heap

namespace Staging
open Heap

/-! ## Actions -/

/-- What is done with an area. -/
inductive Action where
  | stage (data : List UInt8)
  | stageOptional (image : Option (List UInt8))
  | release

namespace Action

/-- What an action returns. -/
@[reducible] def Answer : Action → Type
  | stage _ => Buffer
  | stageOptional _ => Option Address
  | release => ℕ

/-- Does it. -/
def run {ε : Type} [Engine ε] : (action : Action) → StagingM ε action.Answer
  | stage data => Staging.stage data
  | stageOptional image => Staging.stageOptional image
  | release => Staging.release

/-- The addresses that are to be given back after an action, by its answer. -/
def held : (action : Action) → Except Failure action.Answer → List Address → List Address
  | stage _, .ok buffer, before => buffer.address :: before
  | stageOptional _, .ok (some address), before => address :: before
  | release, .ok _, _ => []
  | _, _, before => before

/-- What may come of an action: its answer, the area afterwards, and the calls. -/
inductive Outcome (area : Staging) : (action : Action) → Except Failure action.Answer → Staging →
    List EngineEvent → Prop where
  | staged (data : List UInt8) (address : Address) : Outcome area (stage data)
      (.ok ⟨address, data.length⟩) ⟨address :: area.blocks⟩ (stagingCalls [data] [address])
  | refused (data : List UInt8) : Outcome area (stage data)
      (.error (.noRoom data.length)) area [⟨.malloc data.length, none⟩]
  | absent : Outcome area (stageOptional none) (.ok none) area []
  | present (data : List UInt8) (address : Address) : Outcome area (stageOptional (some data))
      (.ok (some address)) ⟨address :: area.blocks⟩ (stagingCalls [data] [address])
  | presentRefused (data : List UInt8) : Outcome area (stageOptional (some data))
      (.error (.noRoom data.length)) area [⟨.malloc data.length, none⟩]
  | released : Outcome area release (.ok area.size) .empty (freeingCalls area.blocks)

theorem outcome {ε : Type} [Engine ε] (action : Action) (area : Staging)
    (r : Recorded ε EngineEvent) :
    ∃ events, (action.run.run (area, r)).2.2.log = r.log ++ events ∧
      Outcome area action (action.run.run (area, r)).1 (action.run.run (area, r)).2.1 events := by
  cases action with
  | stage data =>
    exact of_ends (fun answer (s : Staging × Recorded ε EngineEvent) =>
      ∃ events, s.2.log = r.log ++ events ∧ Outcome area (stage data) answer s.1 events)
      (ends_stage (fun address ha => ⟨_, log_placed ha, .staged data address⟩)
        fun ha => ⟨_, by rw [Recorded.log_after, ha], .refused data⟩)
  | stageOptional image =>
    cases image with
    | none => exact ⟨[], (List.append_nil _).symm, .absent⟩
    | some data =>
      exact of_ends (fun answer (s : Staging × Recorded ε EngineEvent) =>
        ∃ events, s.2.log = r.log ++ events ∧
          Outcome area (stageOptional (some data)) answer s.1 events)
        (ends_bind (ends_stage
          (fun address ha => ends_pure ⟨_, log_placed ha, .present data address⟩)
          fun ha => ⟨_, by rw [Recorded.log_after, ha], .presentRefused data⟩))
  | release => exact ⟨_, log_freeAll _ _, .released⟩

end Action

/-- A computation in an area of its own: so long as it goes on it acts, and what it does next
    depends on the answer; in the end it succeeds or fails. -/
inductive Body (α : Type) where
  | stop (result : Except Failure α)
  | act (action : Action) (next : Except Failure action.Answer → Body α)

namespace Body
variable {ε α : Type} [Engine ε]

/-- Runs the computation in the given area. -/
def run : Body α → StagingM ε α
  | stop result => fun s => (result, s)
  | act action next => fun s =>
    let (answer, s) := action.run.run s
    (next answer).run s

/-- The addresses that are to be given back after the computation, by the answers in it. -/
def held : Body α → Staging × ε → List Address → List Address
  | stop _, _, before => before
  | act action next, s, before =>
    let (answer, s) := action.run.run s
    (next answer).held s (action.held answer before)

end Body

/-! ## The account -/

/-- An area holds these addresses, and together with the others they are those in use, if no
    address is handed out twice. -/
structure Accounted {ε : Type} (s : Staging × Recorded ε EngineEvent)
    (held others : List Address) : Prop where
  blocks_eq : s.1.blocks = held
  balanced : HandsOutNew s.2.log → Balanced s.2.log (held ++ others)

section
variable {ε : Type} {s : Staging × Recorded ε EngineEvent} {held others : List Address}

/-- Seen from an area of its own, all addresses are those of others. -/
theorem Accounted.nested (h : Accounted s held others) :
    Accounted (.empty, s.2) [] (held ++ others) := ⟨rfl, h.balanced⟩

variable [Engine ε]

/-- **An action** keeps the account. -/
theorem Accounted.act (h : Accounted s held others) (action : Action) :
    Accounted (action.run.run s).2 (action.held (action.run.run s).1 held) others := by
  obtain ⟨area, r⟩ := s
  obtain ⟨hblocks, hbalanced⟩ := h
  obtain ⟨events, hlog, houtcome⟩ := action.outcome area r
  generalize action.run.run (area, r) = result at houtcome hlog ⊢
  obtain ⟨answer, area', r'⟩ := result
  dsimp only at hblocks hbalanced houtcome hlog
  subst hblocks
  refine ⟨?_, fun hnew => ?_⟩
  · cases houtcome <;> rfl
  · dsimp only at hnew ⊢
    rw [hlog] at hnew ⊢
    have hbefore := hbalanced hnew.left
    cases houtcome with
    | staged data address => exact hbefore.stage hnew.notMem_live data
    | refused data => exact hbefore.refuse _
    | absent => rw [List.append_nil]; exact hbefore
    | present data address => exact hbefore.stage hnew.notMem_live data
    | presentRefused data => exact hbefore.refuse _
    | released => exact hbefore.free

/-- **A computation** keeps the account. -/
theorem Accounted.body {α : Type} (h : Accounted s held others) (body : Body α) :
    Accounted (body.run.run s).2 (body.held s held) others := by
  induction body generalizing s held with
  | stop result => exact h
  | act action next ih => exact ih _ (h.act action)

/-- **A computation in an area of its own** keeps the account of the area outside. -/
theorem Accounted.within {α : Type} (h : Accounted s held others) (body : Body α) :
    Accounted (s.1, (within body.run s.2).2.1) held others := by
  obtain ⟨hblocks, hbalanced⟩ := h.nested.body body
  refine ⟨h.blocks_eq, fun hnew => ?_⟩
  have hlog : (Staging.within body.run s.2).2.1.log = (body.run.run (.empty, s.2)).2.2.log ++
      freeingCalls (body.held (.empty, s.2) []) := by
    rw [← hblocks]
    exact log_freeAll _ _
  dsimp only at hnew ⊢
  rw [hlog] at hnew ⊢
  exact (hbalanced hnew.left).free

end

/-! ## Benches -/

/-- What is done on an engine with an area. -/
inductive Step (ε : Type) : Type 1 where
  | act (action : Action)
  /-- The area is given up for a new one. -/
  | replace
  /-- The engine changes without being called, as when it gets new settings. -/
  | change (alter : ε → ε)
  | within {α : Type} (body : Body α)

/-- An engine with an area, and an account of what has to be given back. -/
structure Bench (ε : Type) where
  area : Staging
  engine : Recorded ε EngineEvent
  /-- The addresses staged in the area and not released, the newest first. -/
  held : List Address
  /-- The addresses that were staged in areas given up, and not released before. -/
  dropped : List Address

namespace Bench

/-- An engine that was not called yet, with an empty area. -/
def start {ε : Type} (engine : ε) : Bench ε := ⟨.empty, .fresh engine, [], []⟩

variable {ε : Type} [Engine ε]

/-- What an action returns here. -/
def answer (b : Bench ε) (action : Action) : Except Failure action.Answer :=
  (action.run.run (b.area, b.engine)).1

/-- Takes a step. -/
def perform (b : Bench ε) : Step ε → Bench ε
  | .act action =>
    let (answer, area, engine) := action.run.run (b.area, b.engine)
    { b with area, engine, held := action.held answer b.held }
  | .replace => { b with area := .empty, held := [], dropped := b.held ++ b.dropped }
  | .change alter => { b with engine := { b.engine with state := alter b.engine.state } }
  | .within body => { b with engine := (Staging.within body.run b.engine).2.1 }

/-- Takes steps, one after the other. -/
def run (b : Bench ε) (steps : List (Step ε)) : Bench ε := steps.foldl perform b

/-- The bench that a computation in an area of its own sees at its end, before that area is
    released: to it, all addresses from before were left by others. -/
def inside {α : Type} (b : Bench ε) (body : Body α) : Bench ε :=
  let (_, area, engine) := body.run.run (.empty, b.engine)
  ⟨area, engine, body.held (.empty, b.engine) [], b.held ++ b.dropped⟩

/-- The account is right, and what can be done here is done as it should be. -/
structure Owns (b : Bench ε) : Prop where
  /-- The addresses in use are those held and those dropped. -/
  live_perm : (live b.engine.log).Perm (b.held ++ b.dropped)
  /-- None of them is in use twice. -/
  live_nodup : (live b.engine.log).Nodup
  /-- Only addresses in use were given back. -/
  frees : FreesLive b.engine.log
  /-- The area knows how many addresses it holds. -/
  size_eq : b.area.size = b.held.length
  /-- An action that fails changes neither the area nor what is in use. -/
  refused : ∀ action failure, b.answer action = .error failure →
    (b.perform (.act action)).area = b.area ∧
      live (b.perform (.act action)).engine.log = live b.engine.log
  /-- Releasing gives back what is held, the newest first, and returns how much that is;
      releasing again gives back nothing. -/
  released :
    b.answer .release = .ok b.held.length ∧
    (b.perform (.act .release)).engine.log = b.engine.log ++ freeingCalls b.held ∧
    (b.perform (.act .release)).answer .release = .ok 0 ∧
    ((b.perform (.act .release)).perform (.act .release)).engine.log =
      (b.perform (.act .release)).engine.log
  /-- Around a computation in an area of its own, its result is returned, and both the area
      here and what is in use stay as they were. -/
  within : ∀ {α : Type} (body : Body α),
    (Staging.within body.run b.engine).1 = (body.run.run (.empty, b.engine)).1 ∧
    (b.perform (.within body)).area = b.area ∧
    (HandsOutNew (b.perform (.within body)).engine.log →
      (live (b.perform (.within body)).engine.log).Perm (live b.engine.log))

/-- The account of a bench. -/
def Accounted {ε : Type} (b : Bench ε) : Prop :=
  Staging.Accounted (b.area, b.engine) b.held b.dropped

theorem accounted_start {ε : Type} (engine : ε) : (start engine).Accounted :=
  ⟨rfl, fun _ => balanced_nil⟩

variable {b : Bench ε}

/-- **A step** keeps the account. -/
theorem Accounted.perform (h : b.Accounted) (step : Step ε) : (b.perform step).Accounted := by
  cases step with
  | act action => exact h.act action
  | replace => exact h.nested
  | change alter => exact ⟨h.blocks_eq, h.balanced⟩
  | within body => exact Staging.Accounted.within h body

/-- **A run** keeps the account. -/
theorem Accounted.run (h : b.Accounted) (steps : List (Step ε)) : (b.run steps).Accounted := by
  induction steps generalizing b with
  | nil => exact h
  | cons step rest ih => exact ih (h.perform step)

theorem Accounted.inside {α : Type} (h : b.Accounted) (body : Body α) :
    (b.inside body).Accounted := h.nested.body body

/-- An action that fails leaves everything but the history, which shows an allocation more. -/
theorem perform_refused {action : Action} {failure : Failure}
    (h : b.answer action = .error failure) :
    (b.perform (.act action)).area = b.area ∧
      live (b.perform (.act action)).engine.log = live b.engine.log := by
  obtain ⟨events, hlog, houtcome⟩ := action.outcome b.area b.engine
  rw [show (action.run.run (b.area, b.engine)).1 = .error failure from h] at houtcome
  show (action.run.run (b.area, b.engine)).2.1 = b.area ∧
    live (action.run.run (b.area, b.engine)).2.2.log = live b.engine.log
  rw [hlog]
  generalize (action.run.run (b.area, b.engine)).2.1 = area at houtcome ⊢
  cases houtcome <;> exact ⟨rfl, live_refused _ _⟩

/-- A right account, if no address is handed out twice. -/
theorem Accounted.owns (h : b.Accounted) (hnew : HandsOutNew b.engine.log) : b.Owns := by
  have hblocks : b.area.blocks = b.held := h.blocks_eq
  have hsize : b.area.size = b.held.length := congrArg List.length hblocks
  have hbalanced : Balanced b.engine.log (b.held ++ b.dropped) := h.balanced hnew
  have hlog : (b.perform (.act .release)).engine.log = b.engine.log ++ freeingCalls b.held := by
    rw [← hblocks]
    exact log_freeAll _ _
  exact {
    live_perm := hbalanced.perm
    live_nodup := hbalanced.perm.nodup_iff.2 hbalanced.nodup
    frees := hbalanced.frees
    size_eq := hsize
    refused := fun _ _ => perform_refused
    released := ⟨congrArg Except.ok hsize, hlog, rfl, rfl⟩
    within := fun body => ⟨rfl, rfl, fun hafter =>
      ((h.perform (.within body)).balanced hafter).perm.trans hbalanced.perm.symm⟩ }

end Bench

section
variable {ε : Type} [Engine ε]

/-- **Ownership.**  However an engine is used, and whatever is refused: so long as no address
    is handed out while it is in use, the addresses in use are those that the area holds and
    those that were dropped with other areas, and none is given back twice.  This is so after
    each step, and at each moment inside a computation in an area of its own: such a moment is
    the end of the computation that stops there. -/
theorem ownership (engine : ε) (steps : List (Step ε))
    (hnew : HandsOutNew ((Bench.start engine).run steps).engine.log) :
    ((Bench.start engine).run steps).Owns ∧
      ∀ {α : Type} (body : Body α),
        HandsOutNew (((Bench.start engine).run steps).inside body).engine.log →
          (((Bench.start engine).run steps).inside body).Owns := by
  have haccounted := (Bench.accounted_start engine).run steps
  exact ⟨haccounted.owns hnew, fun body hinside => (haccounted.inside body).owns hinside⟩

end

/-- A computation that stages two buffers, and fails at the first that is refused. -/
def pair : Body Unit :=
  .act (.stage [7]) fun
    | .error failure => .stop (.error failure)
    | .ok _ => .act (.stage [8]) fun
      | .error failure => .stop (.error failure)
      | .ok _ => .stop (.ok ())

/-- Steps of all kinds; with room for three buffers only, some are refused. -/
def rehearsal : List (Step Scripted) :=
  [.act (.stage [1, 2, 3]), .replace, .change (·.change { budget := some (some 3) }),
    .act (.stage [4]), .within pair, .act (.stageOptional (some [5])),
    .change (·.change { budget := some none }), .act (.stage [6])]

/-- After these steps two buffers are held and one was dropped, also while two more are staged
    in an area of their own. -/
theorem ownership_rehearsal :
    let b := (Bench.start Scripted.initial).run rehearsal
    HandsOutNew b.engine.log ∧ b.Owns ∧ b.held = [⟨4149⟩, ⟨4115⟩] ∧ b.dropped = [⟨4096⟩] ∧
      HandsOutNew (b.inside pair).engine.log ∧ (b.inside pair).Owns ∧
      (b.inside pair).held = [⟨4183⟩, ⟨4166⟩] := by
  have hnew : HandsOutNew ((Bench.start Scripted.initial).run rehearsal).engine.log := by
    decide +kernel
  have hinside : HandsOutNew
      (((Bench.start Scripted.initial).run rehearsal).inside pair).engine.log := by
    decide +kernel
  have howns := ownership Scripted.initial rehearsal hnew
  exact ⟨hnew, howns.1, by decide +kernel, by decide +kernel, hinside, howns.2 pair hinside,
    by decide +kernel⟩

end Staging
end SidPlayback
