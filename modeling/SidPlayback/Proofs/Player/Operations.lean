/-
  What operations amount to.

  Recording is stepping, starting with JSON is starting or nothing, and a control
  is a list of engine calls.  So what the elementary operations keep is kept by
  all operations, and by every run.

  * `Player.steps` steps several times, and `Player.record_steps` says that
    recording does so;
  * `Player.step_cases`, `Player.load_cases`, `Player.start_cases` and so on list what
    an operation can do;
  * `Player.Kept`, `Player.KeptPlaying` and `Player.KeptSession` collect what has to
    be shown of a property to know that all operations keep it, or all that play, or
    those of a session (`Player.Kept.perform` and so on);
  * `Player.Made` and `Player.Reachable`: the players that can come about.  What
    is kept and holds initially holds of them (`Player.Kept.reachable`).
-/
import SidPlayback.Player.Operation
import SidPlayback.Proofs.Panning
import SidPlayback.Proofs.Recorded

namespace SidPlayback

/-! ## Kinds of operations -/

/-- Whether an operation takes note that the engine is ready. -/
def Operation.isNotify : Operation → Bool
  | .notifyReady => true
  | _ => false

/-- Whether an operation is a control. -/
def Operation.isControl : Operation → Bool
  | .adjust _ | .setFilter _ => true
  | _ => false

/-- The values that an operation applies as a panning. -/
def Operation.panning? : Operation → Option (List Float32)
  | .applyPanning values => some values
  | _ => none

theorem Control.kind_calls (control : Control) :
    ∀ c ∈ control.calls, c.kind = .setting := by
  intro c hc
  cases control with
  | voices mask =>
    obtain ⟨index, -, rfl⟩ := List.mem_map.1 hc
    rfl
  | _ => rw [List.mem_singleton.1 hc]; rfl

namespace Player

variable {ε η : Type} [Engine ε]

/-! ## Recording -/

/-- The player after so many steps. -/
def steps (p : Player ε η) : Nat → Player ε η
  | 0 => p
  | n + 1 => p.step.player.steps n

theorem recordFrames_steps (limit frames : Nat) (capture : Wave.Capture) (p : Player ε η) :
    ∃ n, (recordFrames limit frames capture p).player = p.steps n := by
  induction limit generalizing frames capture p with
  | zero => exact ⟨0, rfl⟩
  | succ limit ih =>
    unfold recordFrames
    dsimp only
    split
    · exact ⟨1, rfl⟩
    · split
      · exact ⟨1, rfl⟩
      · obtain ⟨n, hn⟩ := ih (frames + 1) _ p.step.player
        exact ⟨n + 1, hn⟩

/-- **Recording is stepping.** -/
theorem record_steps (p : Player ε η) (destination : Wave.Destination) (limit : Nat) :
    ∃ n, (p.record destination limit).player = p.steps n := by
  unfold record
  split
  · exact ⟨0, rfl⟩
  · split
    · exact ⟨0, rfl⟩
    · rename_i capture _
      obtain ⟨n, hn⟩ := recordFrames_steps limit 0 capture p
      dsimp only
      split
      · exact ⟨n, hn⟩
      · split <;> exact ⟨n, hn⟩

/-! ## New players -/

/-- A player that has just been made, with settings or without. -/
inductive Made (engine : ε) (host : η) (roms : Rom.Bank) : Player ε η → Prop
  | create : Made engine host roms (create engine host roms).player
  | createWith (settings : Settings) :
    Made engine host roms (createWith engine host roms settings).player

/-- Making a player amounts to three operations at most. -/
theorem Made.induct {I : Player ε η → Prop} {engine : ε} {host : η} {roms : Rom.Bank}
    (hinitial : I (initial engine host roms)) (hnotify : ∀ p, I p → I p.notifyReady.player)
    (hscope : ∀ p on, I p → I (p.enableScope on))
    (happly : ∀ p values, I p → I (p.applyPanning values).player) {p : Player ε η}
    (h : Made engine host roms p) : I p := by
  have hcreate : I (Player.create engine host roms).player := by
    unfold Player.create
    dsimp only
    split
    · exact hnotify _ hinitial
    · exact hinitial
  cases h with
  | create => exact hcreate
  | createWith settings =>
    have hscoped := hscope _ settings.scope hcreate
    unfold Player.createWith
    dsimp only
    split
    · exact hscoped
    · exact happly _ _ hscoped

/-! ## Elementary operations -/

theorem notifyReady_cases (p : Player ε η) :
    (p.lifecycle = .ready ∧ p.notifyReady.player = p) ∨
    (p.lifecycle = .uninitialized ∧
      ((p.pendingPanning = none ∧ p.notifyReady.player = { p with lifecycle := .ready }) ∨
        ∃ panning, p.pendingPanning = some panning ∧
          p.notifyReady.player =
            ({ p with lifecycle := .ready, pendingPanning := none }).forwardPanning panning)) := by
  cases hl : p.lifecycle with
  | ready => exact .inl ⟨rfl, by simp only [notifyReady, hl]⟩
  | uninitialized =>
    refine .inr ⟨rfl, ?_⟩
    cases hp : p.pendingPanning with
    | none => exact .inl ⟨rfl, by simp only [notifyReady, hl, hp]⟩
    | some panning => exact .inr ⟨panning, rfl, by simp only [notifyReady, hl, hp]⟩

theorem applyPanning_cases (p : Player ε η) (values : List Float32) :
    (¬ Panning.Accepted values ∧ (p.applyPanning values).player = p) ∨
    (Panning.Accepted values ∧ ∃ panning : Panning, panning.values = values ∧
      ((p.lifecycle = .ready ∧ (p.applyPanning values).player = p.forwardPanning panning) ∨
        (p.lifecycle = .uninitialized ∧
          (p.applyPanning values).player = { p with pendingPanning := some panning }))) := by
  rcases Panning.check_cases values with ⟨hok, hsize, hcheck⟩ | ⟨hno, fault, hcheck⟩
  · refine .inr ⟨hok, ⟨values, hsize⟩, rfl, ?_⟩
    cases hl : p.lifecycle with
    | ready => exact .inl ⟨rfl, by simp only [applyPanning, hcheck, hl]⟩
    | uninitialized => exact .inr ⟨rfl, by simp only [applyPanning, hcheck, hl]⟩
  · exact .inl ⟨hno, by simp only [applyPanning, hcheck]⟩

theorem step_cases (p : Player ε η) :
    (p.session ≠ .playing ∧ p.step.player = p) ∨
    (p.session = .playing ∧ ∃ answer engine,
      Engine.call .compute (p.hook p.engine) = (answer, engine) ∧
      ((answer.samples ≤ 0 ∧
          p.step.player = { p with engine := engine, digi := .empty, session := .ended }) ∨
        (0 < answer.samples ∧ ∃ rate label digiStatus latency,
          p.step.player = { p with
            engine := engine, digi := (p.digi.observe rate label).2, digiStatus := digiStatus
            latency := latency, frames := p.frames + 1 }))) := by
  by_cases hs : p.session = .playing
  · refine .inr ⟨hs, _, _, rfl, ?_⟩
    simp only [step, hs]
    split
    case isTrue hend => exact .inl ⟨hend, rfl⟩
    case isFalse hgo => exact .inr ⟨Int32.not_le.1 hgo, _, _, _, _, rfl⟩
  · refine .inl ⟨hs, ?_⟩
    unfold step
    split
    · contradiction
    · rfl

variable [Host η]

theorem load_cases (p : Player ε η) (target : UInt32) (file : String) (data : List UInt8) :
    (p.lifecycle = .uninitialized ∧
      p.load target file data = ⟨.error .notReady, p, []⟩) ∨
    (p.lifecycle = .ready ∧ ∃ engine,
      ((∃ failure, (p.load target file data).result = .error failure ∧
          (p.load target file data).player = { p.unload with engine := engine }) ∨
        (∃ host rates, (p.load target file data).result = .ok () ∧
          (p.load target file data).player = { p.unload with
            engine := engine, host := host, rates := some rates, session := .loaded }))) := by
  cases hl : p.lifecycle with
  | uninitialized => exact .inl ⟨rfl, by simp only [load, hl]⟩
  | ready =>
    refine .inr ⟨rfl, ?_⟩
    simp only [load, hl]
    rcases Staging.within _ _ with ⟨failure | status, engine, buffers⟩
    · exact ⟨engine, .inl ⟨_, rfl, rfl⟩⟩
    · refine ⟨engine, ?_⟩
      dsimp only
      split
      · exact .inl ⟨_, rfl, rfl⟩
      · exact .inr ⟨_, _, rfl, rfl⟩

theorem start_cases (p : Player ε η) (options : TrackOptions) :
    (p.start options).player = p ∨
    (p.lifecycle = .ready ∧ p.session ≠ .idle ∧ ∃ host track traced bufferSize status engine,
      Engine.call (.play track traced bufferSize) p.engine = (status, engine) ∧
      (p.start options).player = { p with
        engine := engine, host := host, track := track, traced := traced, digi := .empty
        frames := 0, session := if status = 0 then .playing else .loaded }) := by
  unfold start
  split
  · exact .inl rfl
  · exact .inl rfl
  · exact .inl rfl
  · rename_i hl _ hs
    extract_lets host track traced bufferSize
    let answer := Engine.call (.play track traced bufferSize) p.engine
    refine .inr ⟨hl, hs, host, _, _, _, answer.1, answer.2, rfl, ?_⟩
    by_cases h : answer.1 = 0
    · rw [if_pos h]; exact congrArg Reply.player (if_pos h)
    · rw [if_neg h]; exact congrArg Reply.player (if_neg h)

theorem startJson_cases (p : Player ε η) (json : String) :
    (p.startJson json).player = p ∨ ∃ options, p.startJson json = p.start options := by
  unfold startJson
  split
  · exact .inl rfl
  · exact .inr ⟨_, rfl⟩

/-! ## What operations keep -/

/-- A property that sessions keep: loading, starting and stepping. -/
structure KeptSession (I : Player ε η → Prop) : Prop where
  enableScope : ∀ p on, I p → I (p.enableScope on)
  load : ∀ p target file data, I p → I (p.load target file data).player
  start : ∀ p options, I p → I (p.start options).player
  step : ∀ p, I p → I p.step.player

/-- A property that playing keeps: all that has nothing to do with panning, or with
    the engine becoming ready. -/
structure KeptPlaying (I : Player ε η → Prop) : Prop extends KeptSession I where
  setting : ∀ p c, c.kind = .setting → I p → I { p with engine := Engine.after c p.engine }

/-- A property that all operations keep. -/
structure Kept (I : Player ε η → Prop) : Prop extends KeptPlaying I where
  notifyReady : ∀ p, I p → I p.notifyReady.player
  applyPanning : ∀ p values, I p → I (p.applyPanning values).player

namespace KeptSession
variable {I : Player ε η → Prop} (hI : KeptSession I)
include hI

theorem steps {p : Player ε η} (h : I p) (n : Nat) : I (p.steps n) := by
  induction n generalizing p with
  | zero => exact h
  | succ n ih => exact ih (hI.step p h)

theorem perform {p : Player ε η} (h : I p) {o : Operation} (hnotify : o.isNotify = false)
    (hpanning : o.panning? = none) (hcontrol : o.isControl = false) :
    I (p.perform o).player := by
  cases o with
  | notifyReady => cases hnotify
  | applyPanning values => cases hpanning
  | adjust control => cases hcontrol
  | setFilter curve => cases hcontrol
  | enableScope on => exact hI.enableScope p on h
  | load target file data => exact hI.load p target file data h
  | start options => exact hI.start p options h
  | startJson json =>
    rcases p.startJson_cases json with hp | ⟨options, hp⟩
    · simp only [Player.perform, hp]; exact h
    · simp only [Player.perform, hp]; exact hI.start p options h
  | step => exact hI.step p h
  | record destination limit =>
    obtain ⟨n, hn⟩ := p.record_steps destination limit
    simp only [Player.perform, hn]; exact hI.steps h n

end KeptSession

namespace KeptPlaying
variable {I : Player ε η → Prop} (hI : KeptPlaying I)
include hI

theorem settings {p : Player ε η} (h : I p) {calls : List EngineCall}
    (hcalls : ∀ c ∈ calls, c.kind = .setting) :
    I { p with engine := calls.foldl (fun engine c => Engine.after c engine) p.engine } := by
  induction calls generalizing p with
  | nil => exact h
  | cons c rest ih =>
    have hfirst := hI.setting p c (hcalls c List.mem_cons_self) h
    exact ih hfirst fun d hd => hcalls d (List.mem_cons_of_mem c hd)

theorem perform {p : Player ε η} (h : I p) {o : Operation} (hnotify : o.isNotify = false)
    (hpanning : o.panning? = none) : I (p.perform o).player := by
  cases o with
  | adjust control => exact hI.settings h control.kind_calls
  | setFilter curve => exact hI.setting p (.setFilter curve) rfl h
  | _ => exact hI.toKeptSession.perform h hnotify hpanning rfl

end KeptPlaying

namespace Kept
variable {I : Player ε η → Prop} (hI : Kept I)
include hI

/-- **What the elementary operations keep all operations keep.** -/
theorem perform {p : Player ε η} (h : I p) (o : Operation) : I (p.perform o).player := by
  cases o with
  | notifyReady => exact hI.notifyReady p h
  | applyPanning values => exact hI.applyPanning p values h
  | _ => exact hI.toKeptPlaying.perform h rfl rfl

theorem run {p : Player ε η} (h : I p) (operations : List Operation) : I (p.run operations) := by
  induction operations generalizing p with
  | nil => exact h
  | cons o rest ih => exact ih (hI.perform h o)

end Kept

/-! ## Which players there are -/

/-- A player that can come about: by operations, with any hooks, and with an engine
    and a host to which anything may happen meanwhile. -/
inductive Reachable : Player ε η → Prop
  | made {engine : ε} {host : η} {roms : Rom.Bank} {p : Player ε η} :
    Made engine host roms p → Reachable p
  | perform {p : Player ε η} (o : Operation) : Reachable p → Reachable (p.perform o).player
  | setHook {p : Player ε η} (hook : ε → ε) : Reachable p → Reachable (p.setHook hook)
  | outside {p : Player ε η} (engine : ε) (host : η) :
    Reachable p → Reachable { p with engine := engine, host := host }

theorem Reachable.run {p : Player ε η} (h : Reachable p) (operations : List Operation) :
    Reachable (p.run operations) := by
  induction operations generalizing p with
  | nil => exact h
  | cons o rest ih => exact ih (h.perform o)

/-- **What holds of initial players holds of all**, if the elementary operations
    keep it, new hooks, and whatever happens to engine and host. -/
theorem Kept.reachable {I : Player ε η → Prop} (hI : Kept I)
    (hinitial : ∀ engine host roms, I (initial engine host roms))
    (hhook : ∀ p hook, I p → I (p.setHook hook))
    (houtside : ∀ p engine host, I p → I { p with engine := engine, host := host })
    {p : Player ε η} (h : Reachable p) : I p := by
  induction h with
  | made h =>
    exact h.induct (hinitial _ _ _) hI.notifyReady hI.enableScope hI.applyPanning
  | perform o _ ih => exact hI.perform ih o
  | setHook hook _ ih => exact hhook _ hook ih
  | outside engine host _ ih => exact houtside _ engine host ih

end Player
end SidPlayback
