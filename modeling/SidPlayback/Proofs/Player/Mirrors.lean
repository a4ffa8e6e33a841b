/-
  What a player knows of what it told its engine and its host.

  The track, the panning and the rates of a player are copies of what the engine and the
  host were told last.  The copies are made whatever the answers are.

  * `plays`, `timeouts` and `resamplings` are the calls in question, in a history;
  * `Moment` is an operation and the player to which it happens, and `Moment.play?` and
    so on are the calls that it ought to make;
  * `Player.Past` says how a player has come about, moment by moment;
  * `Player.Mirrors` is the invariant, and `Player.Told` what an operation adds to it;
  * `Player.mirrors_of_past`: what a player knows is what engine and host were told.
-/
import SidPlayback.Engine.Scripted
import SidPlayback.Host.Scripted
import SidPlayback.Proofs.Player.Consistency
import SidPlayback.Proofs.Player.Outcomes

namespace SidPlayback

/-! ## Calls -/

/-- What an engine is told when it starts a track. -/
structure Play where
  track : Int32
  traced : Bool
  bufferSize : UInt32
deriving DecidableEq

/-- The track that a call starts. -/
def EngineEvent.play? : EngineEvent → Option Play
  | ⟨.play track traced bufferSize, _⟩ => some ⟨track, traced, bufferSize⟩
  | _ => none

/-- Whether a player remembers what it said with a call. -/
def EngineCall.isNoted : EngineCall → Bool
  | .play _ _ _ | .initPanning _ => true
  | _ => false

/-- The time after which a call says to stop. -/
def HostCall.timeout? : HostCall → Option Nat
  | .setTimeout milliseconds => some milliseconds
  | .configureResampler _ => none

/-- The rates between which a call says to resample. -/
def HostCall.rates? : HostCall → Option Rates
  | .setTimeout _ => none
  | .configureResampler rates => some rates

/-- The tracks that were started, by a history of calls. -/
def plays (log : List EngineEvent) : List Play := log.filterMap EngineEvent.play?

/-- The times after which to stop, by a history of calls. -/
def timeouts (log : List HostCall) : List Nat := log.filterMap HostCall.timeout?

/-- The rates between which to resample, by a history of calls. -/
def resamplings (log : List HostCall) : List Rates := log.filterMap HostCall.rates?

@[simp] theorem plays_append (log more : List EngineEvent) :
    plays (log ++ more) = plays log ++ plays more := List.filterMap_append

@[simp] theorem handed_append (log more : List EngineEvent) :
    handed (log ++ more) = handed log ++ handed more := List.filterMap_append

@[simp] theorem timeouts_append (log more : List HostCall) :
    timeouts (log ++ more) = timeouts log ++ timeouts more := List.filterMap_append

@[simp] theorem resamplings_append (log more : List HostCall) :
    resamplings (log ++ more) = resamplings log ++ resamplings more := List.filterMap_append

theorem nothing_noted {events : List EngineEvent}
    (h : ∀ event ∈ events, event.call.isNoted = false) :
    plays events = [] ∧ handed events = [] := by
  constructor <;> refine List.filterMap_eq_nil_iff.2 fun event he => ?_
  all_goals
    have hcall := h event he
    obtain ⟨c, answer⟩ := event
    cases c <;> first | rfl | cases hcall

section
variable {η : Type} [Host η] (o : TrackOptions) (host : Recorded η HostCall)

theorem timeouts_announce :
    timeouts (o.announce host).log = timeouts host.log ++ o.milliseconds?.toList := by
  unfold TrackOptions.announce
  split <;> rename_i htimeout <;> rw [htimeout]
  · rw [Recorded.log_hostCall, timeouts_append]; rfl
  · exact (List.append_nil _).symm

theorem resamplings_announce : resamplings (o.announce host).log = resamplings host.log := by
  unfold TrackOptions.announce
  split
  · rw [Recorded.log_hostCall, resamplings_append]; exact List.append_nil _
  · rfl

end

/-! ## Moments -/

/-- The options with which a track was started, if that reached the engine. -/
def Operation.started? : (o : Operation) → o.Result → Option TrackOptions
  | .start options, .ok _ => some options
  | .startJson json, .ok _ => (TrackOptions.parse json).toOption
  | _, _ => none

/-- The rate that the host wanted, if a song was loaded. -/
def Operation.loaded? : (o : Operation) → o.Result → Option UInt32
  | .load target _ _, .ok () => some target
  | _, _ => none

/-- Whether an operation loads a song, or fails to. -/
def Operation.isLoad : Operation → Bool
  | .load _ _ _ => true
  | _ => false

theorem Operation.loaded?_eq_none (o : Operation) (h : o.isLoad = false) (result : o.Result) :
    o.loaded? result = none := by
  cases o <;> first | rfl | cases h

/-- An operation, and the player to which it happens. -/
structure Moment (ε η : Type) where
  before : Player.Watched ε η
  operation : Operation

namespace Moment

variable {ε η : Type} [Engine ε] [Host η]

/-- What the operation returns. -/
def reply (m : Moment ε η) :
    Reply (Recorded ε EngineEvent) (Recorded η HostCall) m.operation.Result :=
  m.before.perform m.operation

/-- How a track is started: as the options say, or else the default track, with traces
    as the player has it, and the size of the host's buffer. -/
def play? (m : Moment ε η) : Option Play :=
  (m.operation.started? m.reply.result).map fun options =>
    ⟨options.track.getD (-1), options.traced.getD m.before.scope,
      Host.bufferSize m.reply.player.host⟩

/-- The time after which to stop. -/
def timeout? (m : Moment ε η) : Option Nat :=
  (m.operation.started? m.reply.result).bind TrackOptions.milliseconds?

/-- The rates of the song: what the engine says after loading, and what the host wants. -/
def rates? (m : Moment ε η) : Option Rates :=
  (m.operation.loaded? m.reply.result).map fun target =>
    ⟨Engine.sampleRate m.reply.player.engine, target⟩

/-- Whether a song is loaded, or that is tried. -/
def isLoad (m : Moment ε η) : Bool := m.operation.isLoad

/-- Whether a song is loaded. -/
def loads (m : Moment ε η) : Bool := (m.operation.loaded? m.reply.result).isSome

@[simp] theorem isSome_rates? (m : Moment ε η) : m.rates?.isSome = m.loads := Option.isSome_map

theorem isLoad_of_rates? {m : Moment ε η} {rates : Rates} (h : m.rates? = some rates) :
    m.isLoad = true := by
  by_contra hload
  have hnone : m.rates? = none :=
    congrArg (Option.map _) (m.operation.loaded?_eq_none (Bool.not_eq_true _ ▸ hload) _)
  cases hnone.symm.trans h

end Moment

namespace Player
open Recorded

/-- The hook says nothing that the player would have to remember. -/
abbrev Unnoted {ε : Type} (hook : Recorded ε EngineEvent → Recorded ε EngineEvent) : Prop :=
  MakesOnly (fun c => c.isNoted = false) hook

/-! ## What an operation adds -/

section
variable {ε η : Type} {p q r : Watched ε η}

/-- From `p` to `q` the engine and the host were told these things, and the player took
    note of them. -/
structure Told (p q : Watched ε η) (played : List Play) (given : List (List Float32))
    (timed : List Nat) (resampled : List Rates) : Prop where
  plays_eq : plays q.engine.log = plays p.engine.log ++ played
  handed_eq : handed q.engine.log = handed p.engine.log ++ given
  timeouts_eq : timeouts q.host.log = timeouts p.host.log ++ timed
  resamplings_eq : resamplings q.host.log = resamplings p.host.log ++ resampled
  track : (q.track, q.traced) =
    (played.getLast?.map fun play => (play.track, play.traced)).getD (p.track, p.traced)
  panning : q.panning.map (·.values) = given.getLast?.or (p.panning.map (·.values))
  hook : q.hook = p.hook

/-- Nothing is told from `p` to `q` that the player takes note of. -/
structure Quiet (p q : Watched ε η) : Prop where
  calls : ∃ events, q.engine.log = p.engine.log ++ events ∧
    ∀ event ∈ events, event.call.isNoted = false
  host : q.host = p.host
  track : q.track = p.track
  traced : q.traced = p.traced
  panning : q.panning = p.panning
  rates : q.rates = p.rates
  hook : q.hook = p.hook

namespace Quiet

theorem told (h : Quiet p q) : Told p q [] [] [] [] := by
  obtain ⟨events, hlog, hevents⟩ := h.calls
  obtain ⟨hplays, hhanded⟩ := nothing_noted hevents
  refine ⟨?_, ?_, ?_, ?_, ?_, ?_, h.hook⟩
  · rw [hlog, plays_append, hplays]
  · rw [hlog, handed_append, hhanded]
  · rw [h.host, List.append_nil]
  · rw [h.host, List.append_nil]
  · rw [h.track, h.traced]; rfl
  · rw [h.panning]; rfl

theorem of_engine_eq (hengine : q.engine = p.engine) (hhost : q.host = p.host)
    (htrack : q.track = p.track) (htraced : q.traced = p.traced) (hpanning : q.panning = p.panning)
    (hrates : q.rates = p.rates) (hhook : q.hook = p.hook) : Quiet p q :=
  ⟨⟨[], by rw [hengine, List.append_nil], nofun⟩, hhost, htrack, htraced, hpanning, hrates, hhook⟩

theorem refl (p : Watched ε η) : Quiet p p :=
  of_engine_eq rfl rfl rfl rfl rfl rfl rfl

theorem trans (h : Quiet p q) (h' : Quiet q r) : Quiet p r := by
  obtain ⟨events, hlog, hevents⟩ := h.calls
  obtain ⟨more, hmore, hall⟩ := h'.calls
  refine ⟨⟨events ++ more, by rw [hmore, hlog, List.append_assoc], ?_⟩, h'.host.trans h.host,
    h'.track.trans h.track, h'.traced.trans h.traced, h'.panning.trans h.panning,
    h'.rates.trans h.rates, h'.hook.trans h.hook⟩
  intro event he
  rcases List.mem_append.1 he with he | he
  · exact hevents event he
  · exact hall event he

section
variable [Engine ε]

theorem step (hhook : Unnoted p.hook) : Quiet p p.step.player := by
  rcases p.step_cases with ⟨-, hp⟩ | ⟨-, answer, engine, hcall, hp⟩
  · rw [hp]; exact refl p
  obtain ⟨events, hlog, hevents⟩ := hhook.call hcall
  have hcalls : ∀ event ∈ events ++ [⟨.compute, answer⟩], event.call.isNoted = false := by
    intro event he
    rcases List.mem_append.1 he with he | he
    · exact hevents event he
    · rw [List.mem_singleton.1 he]; rfl
  rcases hp with ⟨-, hp⟩ | ⟨-, rate, label, digiStatus, latency, hp⟩ <;> rw [hp] <;>
    exact ⟨⟨_, hlog, hcalls⟩, rfl, rfl, rfl, rfl, rfl, rfl⟩

theorem steps (hhook : Unnoted p.hook) (n : ℕ) :
    Quiet p (p.steps n) := by
  induction n generalizing p with
  | zero => exact refl p
  | succ n ih =>
    have hfirst : Quiet p p.step.player := step hhook
    exact hfirst.trans (ih (hfirst.hook ▸ hhook))

theorem settings (p : Watched ε η) {calls : List EngineCall}
    (hcalls : ∀ c ∈ calls, c.kind = .setting) :
    Quiet p { p with engine := calls.foldl (fun engine c => Engine.after c engine) p.engine } := by
  have hnoted : ∀ c ∈ calls, c.isNoted = false := fun c hc => by
    have hkind := hcalls c hc
    cases c <;> first | rfl | cases hkind
  exact ⟨makesOnly_foldl hnoted p.engine, rfl, rfl, rfl, rfl, rfl, rfl⟩

end

end Quiet

variable [Engine ε]

theorem told_forwardPanning (p : Watched ε η) (panning : Panning) :
    Told p (p.forwardPanning panning) [] [panning.values] [] [] := by
  refine ⟨?_, ?_, (List.append_nil _).symm, (List.append_nil _).symm, rfl, rfl, rfl⟩
  · show plays (Engine.after _ p.engine).log = _
    rw [log_after, plays_append]; rfl
  · show handed (Engine.after _ p.engine).log = _
    rw [log_after, handed_append]; rfl

theorem told_notifyReady (p : Watched ε η) :
    (∃ given, Told p p.notifyReady.player [] given [] []) ∧
      p.notifyReady.player.rates = p.rates := by
  rcases p.notifyReady_cases with ⟨-, hp⟩ | ⟨-, ⟨-, hp⟩ | ⟨panning, -, hp⟩⟩ <;> rw [hp]
  · exact ⟨⟨_, (Quiet.refl p).told⟩, rfl⟩
  · have hquiet : Quiet p { p with lifecycle := .ready } :=
      .of_engine_eq rfl rfl rfl rfl rfl rfl rfl
    exact ⟨⟨_, hquiet.told⟩, rfl⟩
  · obtain ⟨hplays, hhanded, htimeouts, hresamplings, htrack, hpanning, hhook⟩ :=
      told_forwardPanning { p with lifecycle := .ready, pendingPanning := none } panning
    exact ⟨⟨_, hplays, hhanded, htimeouts, hresamplings, htrack, hpanning, hhook⟩, rfl⟩

theorem told_applyPanning (p : Watched ε η) (values : List Float32) :
    (∃ given, Told p (p.applyPanning values).player [] given [] []) ∧
      (p.applyPanning values).player.rates = p.rates := by
  rcases p.applyPanning_cases values with ⟨-, hp⟩ | ⟨-, panning, -, ⟨-, hp⟩ | ⟨-, hp⟩⟩ <;> rw [hp]
  · exact ⟨⟨_, (Quiet.refl p).told⟩, rfl⟩
  · exact ⟨⟨_, told_forwardPanning p panning⟩, rfl⟩
  · have hquiet : Quiet p { p with pendingPanning := some panning } :=
      .of_engine_eq rfl rfl rfl rfl rfl rfl rfl
    exact ⟨⟨_, hquiet.told⟩, rfl⟩

variable [Host η]

theorem told_load (h : p.Consistent) (target : UInt32) (file : String) (data : List UInt8) :
    let rates? := Moment.rates? ⟨p, .load target file data⟩
    Told p (p.load target file data).player [] [] [] rates?.toList ∧
      (p.load target file data).player.rates = rates? := by
  intro rates?
  have hrates? : rates? = (Operation.loaded? (.load target file data)
      (p.load target file data).result).map fun wanted =>
        ⟨Engine.sampleRate (p.load target file data).player.engine, wanted⟩ := rfl
  rcases p.load_outcome target file data with ⟨hl, hload⟩ | ⟨hl, engine, hp⟩
  -- an engine that is not ready has no song, so there are no rates to lose
  · have hnone : p.rates = none := by
      have hidle := (h.uninitialized hl).1
      rw [← Option.not_isSome_iff_eq_none, h.rates_isSome, hidle]; decide
    rw [hrates?, hload]
    exact ⟨(Quiet.refl p).told, hnone⟩
  obtain ⟨events, hlog, hkind⟩ := p.log_load hl target file data
  have hevents : ∀ event ∈ events, event.call.isNoted = false := by
    intro event he
    obtain ⟨c, answer⟩ := event
    rcases hkind _ he with hc | hc <;> cases c <;> first | rfl | cases hc
  have hquiet : Quiet p { p with engine := (p.load target file data).player.engine } :=
    ⟨⟨events, hlog, hevents⟩, rfl, rfl, rfl, rfl, rfl, rfl⟩
  rcases hp with ⟨failure, hresult, hp⟩ | ⟨hresult, hp⟩
  · rw [hrates?, hresult]
    rw [hp] at hquiet ⊢
    have htold := hquiet.told
    exact ⟨⟨htold.plays_eq, htold.handed_eq, htold.timeouts_eq, htold.resamplings_eq, htold.track,
      htold.panning, htold.hook⟩, rfl⟩
  · rw [hrates?, hresult]
    rw [hp] at hquiet ⊢
    have htold := hquiet.told
    refine ⟨⟨htold.plays_eq, htold.handed_eq, ?_, ?_, htold.track, htold.panning, htold.hook⟩, rfl⟩
    · show timeouts (Host.call _ p.host).log = _
      rw [log_hostCall, timeouts_append]; rfl
    · show resamplings (Host.call _ p.host).log = _
      rw [log_hostCall, resamplings_append]; rfl

theorem told_start (p : Watched ε η) (options : TrackOptions) :
    (∃ failure, (p.start options).result = .error failure ∧ (p.start options).player = p) ∨
    ((∃ status, (p.start options).result = .ok status) ∧
      Told p (p.start options).player
        [⟨options.track.getD (-1), options.traced.getD p.scope,
          Host.bufferSize (p.start options).player.host⟩] [] options.milliseconds?.toList [] ∧
      (p.start options).player.rates = p.rates) := by
  rcases p.start_outcome options with h | ⟨status, engine, hresult, hcall, hp⟩
  · exact .inl h
  refine .inr ⟨⟨status, hresult⟩, ?_⟩
  have hlog := log_of_call hcall
  rw [hp]
  refine ⟨⟨?_, ?_, ?_, ?_, rfl, rfl, rfl⟩, rfl⟩
  · show plays engine.log = _
    rw [hlog, plays_append]; rfl
  · show handed engine.log = _
    rw [hlog, handed_append]; rfl
  · exact timeouts_announce options p.host
  · rw [List.append_nil]; exact resamplings_announce options p.host

end

/-! ## Runs -/

section
variable {ε η : Type} [Engine ε] [Host η]

/-- How a player has come about: made, and since then operated, moment by moment, and
    given hooks that leave to it what it remembers. -/
inductive Past (engine : ε) (host : η) (roms : Rom.Bank) :
    List (Moment ε η) → Watched ε η → Prop
  | made {p : Watched ε η} :
    Made (.fresh engine) (.fresh host) roms p → Past engine host roms [] p
  | perform {past : List (Moment ε η)} {p : Watched ε η} (o : Operation) :
    Past engine host roms past p → Past engine host roms (past ++ [⟨p, o⟩]) (p.perform o).player
  | setHook {past : List (Moment ε η)} {p : Watched ε η}
    {hook : Recorded ε EngineEvent → Recorded ε EngineEvent} :
    Unnoted hook → Past engine host roms past p → Past engine host roms past (p.setHook hook)

theorem Past.reachable {engine : ε} {host : η} {roms : Rom.Bank} {past : List (Moment ε η)}
    {p : Watched ε η} (h : Past engine host roms past p) : Reachable p := by
  induction h with
  | made h => exact .made h
  | perform o _ ih => exact ih.perform o
  | setHook _ _ ih => exact ih.setHook _

/-- What the player knows is what engine and host were told. -/
structure Mirrors (past : List (Moment ε η)) (p : Watched ε η) : Prop where
  track : (p.track, p.traced) =
    ((plays p.engine.log).getLast?.map fun play => (play.track, play.traced)).getD (-1, false)
  panning : p.panning.map (·.values) = (handed p.engine.log).getLast?
  plays_eq : plays p.engine.log = past.filterMap Moment.play?
  timeouts_eq : timeouts p.host.log = past.filterMap Moment.timeout?
  resamplings_eq : resamplings p.host.log = past.filterMap Moment.rates?
  /-- There are rates if loading was successful the last time. -/
  rates : p.rates = (past.filter Moment.isLoad).getLast?.bind Moment.rates?
  hook : Unnoted p.hook

section
variable {past : List (Moment ε η)} {p : Watched ε η}

/-- What is told in more moments, and noted, is known. -/
theorem Mirrors.extend (h : p.Mirrors past) {q : Watched ε η} {more : List (Moment ε η)}
    {given : List (List Float32)}
    (htold : Told p q (more.filterMap Moment.play?) given (more.filterMap Moment.timeout?)
      (more.filterMap Moment.rates?))
    (hrates : q.rates = ((past ++ more).filter Moment.isLoad).getLast?.bind Moment.rates?) :
    q.Mirrors (past ++ more) where
  track := by
    rw [htold.track, htold.plays_eq, h.track, List.getLast?_append]
    cases (more.filterMap Moment.play?).getLast? <;> rfl
  panning := by rw [htold.panning, htold.handed_eq, h.panning, List.getLast?_append]
  plays_eq := by rw [htold.plays_eq, h.plays_eq, List.filterMap_append]
  timeouts_eq := by rw [htold.timeouts_eq, h.timeouts_eq, List.filterMap_append]
  resamplings_eq := by rw [htold.resamplings_eq, h.resamplings_eq, List.filterMap_append]
  rates := hrates
  hook := htold.hook ▸ h.hook

theorem Mirrors.told (h : p.Mirrors past) {o : Operation} {given : List (List Float32)} :
    let m : Moment ε η := ⟨p, o⟩
    Told p (p.perform o).player m.play?.toList given m.timeout?.toList m.rates?.toList →
    (p.perform o).player.rates = (if m.isLoad then m.rates? else p.rates) →
    (p.perform o).player.Mirrors (past ++ [m]) := by
  intro m htold hrates
  refine h.extend htold ?_
  rw [hrates, List.filter_append]
  by_cases hm : m.isLoad = true
  · simp [hm]
  · simp [hm, h.rates]

/-- Of an operation that tells nothing there is nothing to know. -/
theorem Mirrors.quiet (h : p.Mirrors past) {o : Operation} (hquiet : Quiet p (p.perform o).player)
    (hstarted : o.started? (p.perform o).result = none) (hload : o.isLoad = false) :
    (p.perform o).player.Mirrors (past ++ [⟨p, o⟩]) := by
  let m : Moment ε η := ⟨p, o⟩
  have hplay : m.play? = none := congrArg (Option.map _) hstarted
  have htimeout : m.timeout? = none := congrArg (Option.bind · TrackOptions.milliseconds?) hstarted
  have hrates? : m.rates? = none := congrArg (Option.map _) (o.loaded?_eq_none hload _)
  have htold : Told p (p.perform o).player m.play?.toList [] m.timeout?.toList
      m.rates?.toList := by
    rw [hplay, htimeout, hrates?]
    exact hquiet.told
  refine h.told htold ?_
  rw [hquiet.rates, Moment.isLoad, hload]; rfl

theorem Mirrors.start (h : p.Mirrors past) {o : Operation} {options : TrackOptions}
    (hplayer : (p.perform o).player = (p.start options).player)
    (hstarted : o.started? (p.perform o).result =
      (p.start options).result.toOption.map fun _ => options) (hload : o.isLoad = false) :
    (p.perform o).player.Mirrors (past ++ [⟨p, o⟩]) := by
  rcases told_start p options with ⟨failure, hresult, hp⟩ | ⟨⟨status, hresult⟩, htold, hrates⟩
  · rw [hp] at hplayer
    rw [hresult] at hstarted
    exact h.quiet (by rw [hplayer]; exact .refl p) hstarted hload
  rw [hresult] at hstarted
  let m : Moment ε η := ⟨p, o⟩
  have hplay : m.play? = some ⟨options.track.getD (-1), options.traced.getD p.scope,
      Host.bufferSize (p.perform o).player.host⟩ := congrArg (Option.map _) hstarted
  have htimeout : m.timeout? = options.milliseconds? :=
    congrArg (Option.bind · TrackOptions.milliseconds?) hstarted
  have hrates? : m.rates? = none := congrArg (Option.map _) (o.loaded?_eq_none hload _)
  have htold : Told p (p.perform o).player m.play?.toList [] m.timeout?.toList
      m.rates?.toList := by
    rw [hplay, htimeout, hrates?, hplayer]
    exact htold
  refine h.told htold ?_
  rw [hplayer, hrates, Moment.isLoad, hload]; rfl

/-- **An operation** and what the player knows of it. -/
theorem Mirrors.perform (h : p.Mirrors past) (hconsistent : p.Consistent) (o : Operation) :
    (p.perform o).player.Mirrors (past ++ [⟨p, o⟩]) := by
  cases o with
  | notifyReady =>
    obtain ⟨⟨given, htold⟩, hrates⟩ := told_notifyReady p
    exact h.told htold hrates
  | applyPanning values =>
    obtain ⟨⟨given, htold⟩, hrates⟩ := told_applyPanning p values
    exact h.told htold hrates
  | enableScope on => exact h.quiet (.of_engine_eq rfl rfl rfl rfl rfl rfl rfl) rfl rfl
  | load target file data =>
    obtain ⟨htold, hrates⟩ := told_load hconsistent target file data
    exact h.told htold hrates
  | start options =>
    refine h.start (o := .start options) rfl ?_ rfl
    show Operation.started? (.start options) (p.start options).result = _
    cases (p.start options).result <;> rfl
  | startJson json =>
    cases hparse : TrackOptions.parse json with
    | error failure =>
      have hp : p.perform (.startJson json) = ⟨.error failure, p, []⟩ := by
        simp only [Player.perform, startJson, hparse]
      refine h.quiet ?_ ?_ rfl
      · rw [hp]; exact .refl p
      · rw [hp]; rfl
    | ok options =>
      have hp : p.perform (.startJson json) = p.start options := by
        simp only [Player.perform, startJson, hparse]
      refine h.start (congrArg Reply.player hp) ?_ rfl
      rw [hp]
      cases (p.start options).result with
      | error failure => rfl
      | ok status => simp only [Operation.started?, hparse]; rfl
  | step => exact h.quiet (.step h.hook) rfl rfl
  | record destination limit =>
    obtain ⟨n, hn⟩ := p.record_steps destination limit
    have hquiet : Quiet p (p.record destination limit).player := hn ▸ Quiet.steps h.hook n
    exact h.quiet hquiet rfl rfl
  | adjust control => exact h.quiet (.settings p control.kind_calls) rfl rfl
  | setFilter curve =>
    have hcurve : ∀ c ∈ [EngineCall.setFilter curve], c.kind = .setting := by
      intro c hc
      rw [List.mem_singleton.1 hc]; rfl
    exact h.quiet (.settings p hcurve) rfl rfl

end

/-- What is told before the first operation the player knows, too. -/
theorem Made.mirrors {engine : ε} {host : η} {roms : Rom.Bank} {p : Watched ε η}
    (h : Made (.fresh engine) (.fresh host) roms p) : p.Mirrors [] := by
  refine h.induct (I := fun p => p.Mirrors []) ⟨rfl, rfl, rfl, rfl, rfl, rfl, makesOnly_id⟩ ?_ ?_ ?_
  · intro p h
    obtain ⟨⟨given, htold⟩, hrates⟩ := told_notifyReady p
    exact h.extend htold (hrates.trans h.rates)
  · intro p on h
    have hquiet : Quiet p (p.enableScope on) := .of_engine_eq rfl rfl rfl rfl rfl rfl rfl
    exact h.extend hquiet.told h.rates
  · intro p values h
    obtain ⟨⟨given, htold⟩, hrates⟩ := told_applyPanning p values
    exact h.extend htold (hrates.trans h.rates)

section
variable {engine : ε} {host : η} {roms : Rom.Bank} {past : List (Moment ε η)} {p : Watched ε η}

theorem Past.mirrors (h : Past engine host roms past p) : p.Mirrors past := by
  induction h with
  | made h => exact h.mirrors
  | perform o hpast ih => exact ih.perform hpast.reachable.consistent o
  | setHook hhook _ ih =>
    exact ⟨ih.track, ih.panning, ih.plays_eq, ih.timeouts_eq, ih.resamplings_eq, ih.rates, hhook⟩

/-- The rates that were told last are those of the last load, if there are rates. -/
theorem Mirrors.getLast?_resamplings (h : p.Mirrors past) {rates : Rates}
    (hr : p.rates = some rates) :
    (resamplings p.host.log).getLast? = some rates ∧
      ∃ m, (past.filter Moment.isLoad).getLast? = some m ∧ m.rates? = some rates := by
  obtain ⟨m, hm, hrates⟩ := Option.bind_eq_some_iff.1 (h.rates.symm.trans hr)
  refine ⟨?_, m, hm, hrates⟩
  -- only loads tell rates, and the last load did
  have hloads : past.filterMap Moment.rates? =
      (past.filter Moment.isLoad).filterMap Moment.rates? := by
    rw [List.filterMap_filter]
    refine List.filterMap_congr fun m _ => ?_
    cases hm : m.rates? with
    | none => exact (ite_self none).symm
    | some rates => rw [if_pos (Moment.isLoad_of_rates? hm)]
  obtain ⟨before, hbefore⟩ := List.getLast?_eq_some_iff.1 hm
  rw [h.resamplings_eq, hloads, hbefore, List.filterMap_append, List.getLast?_append]
  simp [hrates]

/-- **What a player knows** is what engine and host were told: the track and the panning
    by the last calls, one call for the host of each song that was loaded, and one timeout
    of each start that reached the engine with one. -/
theorem mirrors_of_past (history : Past engine host roms past p) :
    p.Mirrors past ∧
      (resamplings p.host.log).length = past.countP Moment.loads ∧
      ∀ rates ∈ p.rates, (resamplings p.host.log).getLast? = some rates ∧
        ∃ m, (past.filter Moment.isLoad).getLast? = some m ∧ m.rates? = some rates := by
  have h := history.mirrors
  refine ⟨h, ?_, fun rates hr => h.getLast?_resamplings hr⟩
  rw [h.resamplings_eq, List.length_filterMap_eq_countP]
  exact List.countP_congr fun m _ => by rw [Moment.isSome_rates?]

end

end

theorem mirrors_of_past_refused :
    let engine := { Scripted.initial with playStatus := 1 }
    let p₀ := watched engine
    let p₁ := (p₀.perform (.load 44100 "tune.sid" [7])).player
    let last : Operation := .start { track := some 2, traced := some true, timeout := some 2.5 }
    let p := (p₁.perform last).player
    Past engine ScriptedHost.initial ⟨none, none, none⟩
        [⟨p₀, .load 44100 "tune.sid" [7]⟩, ⟨p₁, last⟩] p ∧
      plays p.engine.log = [⟨2, true, 4096⟩] ∧ p.track = 2 ∧ p.traced = true ∧
      timeouts p.host.log = [2500] ∧ resamplings p.host.log = [⟨48000, 44100⟩] := by
  intro engine p₀ p₁ last p
  have hpast : Past engine ScriptedHost.initial ⟨none, none, none⟩
      [⟨p₀, .load 44100 "tune.sid" [7]⟩, ⟨p₁, last⟩] p :=
    .perform last (.perform _ (.made .create))
  obtain ⟨hmirrors, hcount, hrates⟩ := mirrors_of_past hpast
  have hplays : plays p.engine.log = [⟨2, true, 4096⟩] := hmirrors.plays_eq.trans rfl
  have htrack := hmirrors.track
  rw [hplays] at htrack
  exact ⟨hpast, hplays, congrArg Prod.fst htrack, congrArg Prod.snd htrack,
    hmirrors.timeouts_eq.trans rfl, hmirrors.resamplings_eq.trans rfl⟩

end Player
end SidPlayback
