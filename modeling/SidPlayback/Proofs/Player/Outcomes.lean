/-
  How operations end, and what is left when they fail.

  * `Player.StartEnds`, `Player.StartJsonEnds` and `Player.LoadEnds` say how starting and
    loading end, and `Player.Unloaded` what is left of the player if loading fails;
  * `Operation.Refused` says which operations are refused;
  * `Player.start_outcome` and `Player.load_outcome` are what a start and a load do, to the
    engine and to the host;
  * `Player.failures_harmless`: what is refused changes nothing, and a load that fails
    takes away the song and nothing else.
-/
import SidPlayback.Engine.Scripted
import SidPlayback.Host.Scripted
import SidPlayback.Proofs.Player.Delivery
import SidPlayback.Proofs.Player.Loading
import SidPlayback.Proofs.Player.Operations
import SidPlayback.Proofs.TrackOptions

namespace SidPlayback

/-! ## Faults of files -/

namespace Wave

/-- The text of a fault tells whether the file was created. -/
theorem Fault.eq_creation {fault : Fault} {e : SystemError}
    (h : fault.failure = (creation e).failure) : ∃ e', fault = creation e' := by
  cases fault with
  | creation e' => exact ⟨e', rfl⟩
  | writing e' => cases e' <;> cases e <;> exact absurd h (by decide)
  | completion e' => cases e' <;> cases e <;> exact absurd h (by decide)
  | oddSamples => cases e <;> exact absurd h (by decide)

theorem Capture.append_error {c : Capture} {frame : List Int16} {fault : Fault}
    (h : c.append frame = .error fault) (e : SystemError) : fault ≠ .creation e := by
  unfold append at h
  split at h <;> cases h
  nofun

theorem Capture.finish_error {c : Capture} {fault : Fault} (h : c.finish = .error fault)
    (e : SystemError) : fault ≠ .creation e := by
  unfold finish at h
  split at h
  · cases h; nofun
  · split at h <;> cases h
    nofun

end Wave

/-! ## Refusals -/

namespace Player

variable {ε η : Type} [Engine ε]

theorem recordFrames_error {limit frames : Nat} {capture : Wave.Capture} {p : Player ε η}
    {failure : Failure} (h : (recordFrames limit frames capture p).result = .error failure) :
    ∃ fault : Wave.Fault, (∀ e, fault ≠ .creation e) ∧ failure = fault.failure := by
  induction limit generalizing frames capture p with
  | zero => cases h
  | succ limit ih =>
    unfold recordFrames at h
    dsimp only at h
    split at h
    · cases h
    · split at h
      case h_1 fault happend =>
        cases h
        exact ⟨fault, Wave.Capture.append_error happend, rfl⟩
      case h_2 => exact ih h

/-- Recording fails before it begins, or not because there is no file. -/
theorem record_fails {p : Player ε η} {destination : Wave.Destination} {limit : Nat}
    {failure : Failure} (h : (p.record destination limit).result = .error failure) :
    (p.record destination limit).player = p ∨
      ∃ fault : Wave.Fault, (∀ e, fault ≠ .creation e) ∧ failure = fault.failure := by
  unfold record at h ⊢
  split
  · exact .inl rfl
  case h_2 rates hrates =>
    split
    · exact .inl rfl
    case h_2 capture hcreate =>
      right
      simp only [hrates, hcreate] at h
      split at h
      case h_1 failure' hframes =>
        cases h
        exact recordFrames_error hframes
      case h_2 =>
        split at h
        case h_1 fault hfinish =>
          cases h
          exact ⟨fault, Wave.Capture.finish_error hfinish, rfl⟩
        case h_2 => cases h

theorem record_refused {p : Player ε η} {destination : Wave.Destination} {limit : Nat}
    {failure : Failure} (h : (p.record destination limit).result = .error failure)
    (hfailure : failure = .noSong ∨ ∃ e, failure = (Wave.Fault.creation e).failure) :
    (p.record destination limit).player = p := by
  rcases record_fails h with hp | ⟨fault, hbegun, rfl⟩
  · exact hp
  · rcases hfailure with hnone | ⟨e, he⟩
    · cases hnone
    · obtain ⟨e', rfl⟩ := Wave.Fault.eq_creation he
      exact absurd rfl (hbegun e')

theorem applyPanning_refused {p : Player ε η} {values : List Float32} {failure : Failure}
    (h : (p.applyPanning values).result = .error failure) : (p.applyPanning values).player = p := by
  rcases p.applyPanning_cases values with ⟨-, hp⟩ | ⟨hok, -⟩
  · exact hp
  · rw [(p.applyPanning_result values).2 hok] at h
    cases h

end Player

/-! ## Starting and loading -/

/-- Tells a host after which time to stop, if the options say so. -/
def TrackOptions.announce {η : Type} [Host η] (o : TrackOptions) (host : η) : η :=
  match o.milliseconds? with
  | some milliseconds => Host.call (.setTimeout milliseconds) host
  | none => host

namespace Player

variable {ε η : Type} [Engine ε] [Host η]

theorem start_played {p : Player ε η} {options : TrackOptions} (hready : p.lifecycle = .ready)
    (hcheck : options.check = .ok ()) (hsong : p.session ≠ .idle) {status : UInt32} {engine : ε}
    (hcall : Engine.call (.play options.trackOrDefault (options.tracedOr p.scope)
      (Host.bufferSize (options.announce p.host))) p.engine = (status, engine)) :
    (p.start options).result = .ok status ∧
      (p.start options).player = { p with
        engine := engine, host := options.announce p.host
        track := options.trackOrDefault, traced := options.tracedOr p.scope
        digi := .empty, frames := 0, session := if status = 0 then .playing else .loaded } := by
  unfold start
  split
  case h_1 hl => cases hready.symm.trans hl
  case h_2 hfailure => cases hcheck.symm.trans hfailure
  case h_3 hs => contradiction
  case h_4 =>
    extract_lets host track traced bufferSize
    have hplay : Engine.call (.play track traced bufferSize) p.engine = (status, engine) := hcall
    rw [hplay]
    dsimp only
    by_cases h : status = 0
    · rw [if_pos h, if_pos h]; exact ⟨rfl, rfl⟩
    · rw [if_neg h, if_neg h]; exact ⟨rfl, rfl⟩

theorem load_outcome (p : Player ε η) (target : UInt32) (file : String) (data : List UInt8) :
    (p.lifecycle = .uninitialized ∧ p.load target file data = ⟨.error .notReady, p, []⟩) ∨
    (p.lifecycle = .ready ∧ ∃ engine,
      ((∃ failure, (p.load target file data).result = .error failure ∧
          (p.load target file data).player = { p.unload with engine := engine }) ∨
        ((p.load target file data).result = .ok () ∧
          (p.load target file data).player = { p.unload with
            engine := engine
            host := Host.call (.configureResampler ⟨Engine.sampleRate engine, target⟩) p.host
            rates := some ⟨Engine.sampleRate engine, target⟩, session := .loaded }))) := by
  cases hl : p.lifecycle with
  | uninitialized => exact .inl ⟨rfl, by simp only [load, hl]⟩
  | ready =>
    refine .inr ⟨rfl, ?_⟩
    simp only [load, hl]
    rcases Staging.within _ _ with ⟨failure | status, engine, buffers⟩
    · exact ⟨engine, .inl ⟨failure, rfl, rfl⟩⟩
    · refine ⟨engine, ?_⟩
      dsimp only
      by_cases h : status = 0
      · rw [if_neg (not_not.2 h)]
        exact .inr ⟨rfl, rfl⟩
      · rw [if_pos h]
        exact .inl ⟨.loadFailed status, rfl, rfl⟩

end Player

/-! ## Outcomes -/

namespace Player
open Recorded TrackOptions

/-- How starting a track ends, where `q` is the player afterwards: the engine is asked only
    if it is ready, the options make sense and there is a song. -/
inductive StartEnds {ε η : Type} [Engine ε] [Host η] (p q : Player ε η) (options : TrackOptions) :
    Except Failure UInt32 → Prop
  | notReady : p.lifecycle = .uninitialized → q = p → StartEnds p q options (.error .notReady)
  | timeout {seconds : Float} : p.lifecycle = .ready → ¬ options.Sensible →
    seconds ∈ options.timeout → q = p → StartEnds p q options (.error (.configuration
      ("timeout must be a non-negative number of seconds, got " ++ Decimal.plainText seconds)))
  | noSong : p.lifecycle = .ready → options.Sensible → p.session = .idle → q = p →
    StartEnds p q options (.error .noSong)
  /-- The result is what the engine answers. -/
  | played {status : UInt32} {engine : ε} : p.lifecycle = .ready → options.Sensible →
    p.session ≠ .idle →
    Engine.call (.play options.trackOrDefault (options.tracedOr p.scope)
      (Host.bufferSize (options.announce p.host))) p.engine = (status, engine) →
    q = { p with
      engine := engine, host := options.announce p.host
      track := options.trackOrDefault, traced := options.tracedOr p.scope
      digi := .empty, frames := 0, session := if status = 0 then .playing else .loaded } →
    StartEnds p q options (.ok status)

section
variable {ε η : Type} [Engine ε] [Host η]

theorem StartEnds.refused {p q : Player ε η} {options : TrackOptions} {failure : Failure}
    (h : StartEnds p q options (.error failure)) : q = p := by
  cases h with
  | notReady _ hq | timeout _ _ _ hq | noSong _ _ _ hq => exact hq

theorem start_ends (p : Player ε η) (options : TrackOptions) :
    StartEnds p (p.start options).player options (p.start options).result := by
  cases hl : p.lifecycle with
  | uninitialized =>
    have hstart : p.start options = ⟨.error .notReady, p, []⟩ := by simp only [start, hl]
    rw [hstart]
    exact .notReady hl rfl
  | ready =>
    rcases options.check_cases with ⟨hok, hcheck⟩ | ⟨hno, seconds, hseconds, hcheck⟩
    · by_cases hs : p.session = .idle
      · have hstart : p.start options = ⟨.error .noSong, p, []⟩ := by
          simp only [start, hl, hcheck, hs]
        rw [hstart]
        exact .noSong hl hok hs rfl
      · obtain ⟨hresult, hplayer⟩ := start_played hl hcheck hs rfl
        rw [hresult]
        exact .played hl hok hs rfl hplayer
    · have hstart : p.start options = ⟨.error (badTimeout seconds), p, []⟩ := by
        simp only [start, hl, hcheck]
      rw [hstart]
      exact .timeout hl hno hseconds rfl

theorem start_outcome (p : Player ε η) (options : TrackOptions) :
    (∃ failure, (p.start options).result = .error failure ∧ (p.start options).player = p) ∨
    ∃ status engine, (p.start options).result = .ok status ∧
      Engine.call (.play options.trackOrDefault (options.tracedOr p.scope)
        (Host.bufferSize (options.announce p.host))) p.engine = (status, engine) ∧
      (p.start options).player = { p with
        engine := engine, host := options.announce p.host
        track := options.trackOrDefault, traced := options.tracedOr p.scope
        digi := .empty, frames := 0, session := if status = 0 then .playing else .loaded } := by
  have hends := p.start_ends options
  cases hresult : (p.start options).result with
  | error failure => exact .inl ⟨failure, rfl, (hresult ▸ hends).refused⟩
  | ok status =>
    rw [hresult] at hends
    cases hends with
    | played _ _ _ hcall hp => exact .inr ⟨status, _, rfl, hcall, hp⟩

end

/-! ### Starting with JSON -/

/-- How starting a track with JSON ends: the text is looked at first. -/
inductive StartJsonEnds {ε η : Type} [Engine ε] [Host η] (p q : Player ε η) (json : String) :
    Except Failure UInt32 → Prop
  | unreadable {fault : Json.Fault} : TrackOptions.record.parse json = .error fault → q = p →
    StartJsonEnds p q json (.error (.configuration (fault.message json)))
  | timeout {options : TrackOptions} {seconds : Float} :
    TrackOptions.record.parse json = .ok options → ¬ options.Sensible →
    seconds ∈ options.timeout → q = p → StartJsonEnds p q json (.error (.configuration
      ("timeout must be a non-negative number of seconds, got " ++ Decimal.plainText seconds)))
  | started {options : TrackOptions} {result : Except Failure UInt32} :
    TrackOptions.record.parse json = .ok options → options.Sensible →
    StartEnds p q options result → StartJsonEnds p q json result

section
variable {ε η : Type} [Engine ε] [Host η]

theorem StartJsonEnds.refused {p q : Player ε η} {json : String} {failure : Failure}
    (h : StartJsonEnds p q json (.error failure)) : q = p := by
  cases h with
  | unreadable _ hq | timeout _ _ _ hq => exact hq
  | started _ _ h => exact h.refused

theorem startJson_ends (p : Player ε η) (json : String) :
    StartJsonEnds p (p.startJson json).player json (p.startJson json).result := by
  rcases parse_cases json with
    ⟨fault, hread, hparse⟩ | ⟨options, hread, ⟨hok, hparse⟩ | ⟨hno, seconds, hseconds, hparse⟩⟩
  · have hstart : p.startJson json = ⟨.error (.configuration (fault.message json)), p, []⟩ := by
      simp only [startJson, hparse]
    rw [hstart]
    exact .unreadable hread rfl
  · have hstart : p.startJson json = p.start options := by simp only [startJson, hparse]
    rw [hstart]
    exact .started hread hok (p.start_ends options)
  · have hstart : p.startJson json = ⟨.error (badTimeout seconds), p, []⟩ := by
      simp only [startJson, hparse]
    rw [hstart]
    exact .timeout hread hno hseconds rfl

end

/-! ### Loading -/

/-- The song is gone with its rates and its open window, and nothing else has changed but what
    the engine knows. -/
structure Unloaded {ε η : Type} (p q : Player ε η) : Prop where
  session : q.session = .idle
  rates : q.rates = none
  digi : q.digi = ⟨[], 0.0, 0, 0⟩
  host : q.host = p.host
  roms : q.roms = p.roms
  lifecycle : q.lifecycle = p.lifecycle
  pendingPanning : q.pendingPanning = p.pendingPanning
  panning : q.panning = p.panning
  scope : q.scope = p.scope
  track : q.track = p.track
  traced : q.traced = p.traced
  digiStatus : q.digiStatus = p.digiStatus
  latency : q.latency = p.latency
  frames : q.frames = p.frames
  hook : q.hook = p.hook

/-- How loading a song ends: if it fails the song is gone. -/
inductive LoadEnds {ε η : Type} (p q : Player ε η) : Except Failure Unit → Prop
  | notReady : p.lifecycle = .uninitialized → q = p → LoadEnds p q (.error .notReady)
  | noRoom {size : Nat} : p.lifecycle = .ready → Unloaded p q →
    LoadEnds p q (.error (.staging s!"engine allocation of {size} bytes failed"))
  | loadFailed {status : UInt32} : p.lifecycle = .ready → status ≠ 0 → Unloaded p q →
    LoadEnds p q (.error (.loadFailed status))
  | loaded : p.lifecycle = .ready → LoadEnds p q (.ok ())

section
variable {ε η : Type} {p q : Player ε η}

theorem unloaded_unload (p : Player ε η) (engine : ε) :
    Unloaded p { p.unload with engine := engine } := by
  constructor <;> rfl

theorem LoadEnds.failed {failure : Failure} (h : LoadEnds p q (.error failure))
    (hready : failure ≠ .notReady) : Unloaded p q := by
  cases h with
  | notReady => contradiction
  | noRoom _ hq | loadFailed _ _ hq => exact hq

theorem LoadEnds.refused (h : LoadEnds p q (.error .notReady)) : q = p := by
  cases h with
  | notReady _ hq => exact hq

end

end Player

/-! ## What is left -/

/-- A player of which engine and host keep a history. -/
abbrev Player.Watched (ε η : Type) : Type := Player (Recorded ε EngineEvent) (Recorded η HostCall)

/-- The operation is refused: it fails before anything is begun. -/
inductive Operation.Refused : (o : Operation) → o.Result → Prop
  | applyPanning {values : List Float32} {failure : Failure} :
    Refused (.applyPanning values) (.error failure)
  | load {target : UInt32} {file : String} {data : List UInt8} :
    Refused (.load target file data) (.error .notReady)
  | start {options : TrackOptions} {failure : Failure} : Refused (.start options) (.error failure)
  | startJson {json : String} {failure : Failure} : Refused (.startJson json) (.error failure)
  | recordNoSong {destination : Wave.Destination} {limit : Nat} :
    Refused (.record destination limit) (.error .noSong)
  | recordNoFile {destination : Wave.Destination} {limit : Nat} {e : Wave.SystemError} :
    Refused (.record destination limit) (.error (Wave.Fault.creation e).failure)

namespace Player
open Recorded TrackOptions

variable {ε η : Type} [Engine ε] [Host η]

theorem load_ends (p : Watched ε η) (target : UInt32) (file : String) (data : List UInt8) :
    LoadEnds p (p.load target file data).player (p.load target file data).result := by
  rcases p.load_outcome target file data with
    ⟨hl, hload⟩ | ⟨hl, engine, ⟨failure, hfailure, hp⟩ | ⟨hok, -⟩⟩
  · rw [hload]
    exact .notReady hl rfl
  · have hq : Unloaded p (p.load target file data).player := by
      rw [hp]
      exact unloaded_unload p engine
    obtain ⟨events, -, hlog⟩ := log_within_stageSong p.roms
      ((Host.nativeRate? p.host).getD 0) file data p.engine
    have hresult := (load_of_ready p hl target file data).2
    -- the engine's log tells how the loading ended
    generalize (Staging.within (stageSong p.roms ((Host.nativeRate? p.host).getD 0) file data)
      p.engine).1 = outcome at hresult hlog
    cases hlog with
    | refused =>
      rw [hresult]
      exact .noRoom hl hq
    | @answered _ status =>
      have hne : status ≠ 0 := by
        rintro rfl
        cases hfailure.symm.trans hresult
      rw [hresult, loadResult, if_neg hne]
      exact .loadFailed hl hne hq
  · rw [hok]
    exact .loaded hl

/-- **What is refused changes nothing.** -/
theorem perform_refused (p : Watched ε η) {o : Operation} {result : o.Result}
    (h : o.Refused result) (hresult : (p.perform o).result = result) :
    (p.perform o).player = p := by
  cases h with
  | applyPanning => exact applyPanning_refused hresult
  | @load target file data => exact (hresult ▸ p.load_ends target file data).refused
  | @start options => exact (hresult ▸ p.start_ends options).refused
  | @startJson json => exact (hresult ▸ p.startJson_ends json).refused
  | recordNoSong => exact record_refused hresult (.inl rfl)
  | recordNoFile => exact record_refused hresult (.inr ⟨_, rfl⟩)

/-- **Failures are harmless.**  Whatever the state, starting and loading end as their
    checks say, in order; a failed load leaves the host alone and all of the player but
    the song, and all other refusals change nothing at all: no call is made. -/
theorem failures_harmless (p : Watched ε η) :
    (∀ options, StartEnds p (p.start options).player options (p.start options).result) ∧
      (∀ json, StartJsonEnds p (p.startJson json).player json (p.startJson json).result) ∧
      (∀ target file data,
        LoadEnds p (p.load target file data).player (p.load target file data).result) ∧
      ∀ o : Operation, o.Refused (p.perform o).result → (p.perform o).player = p :=
  ⟨p.start_ends, p.startJson_ends, p.load_ends, fun _ h => p.perform_refused h rfl⟩

/-- A new player with a scripted engine. -/
def watched (engine : Scripted) : Watched Scripted ScriptedHost :=
  (create (Recorded.fresh engine) (Recorded.fresh ScriptedHost.initial) ⟨none, none, none⟩).player

theorem failures_harmless_playing :
    let frame : ScriptFrame := ⟨882, 0, 0, Scripted.field "NONE", none⟩
    let engine := { Scripted.initial with budget := some 1, script := List.replicate 3 frame }
    let p := (watched engine).run [.load 44100 "tune.sid" [7], .start { track := some 2 }, .step]
    let q := (p.load 48000 "next.sid" [8]).player
    let late : Operation := .start { timeout := some (-1.0) }
    p.session = .playing ∧ p.rates = some ⟨48000, 44100⟩ ∧ p.digi.frames = 1 ∧
      (p.perform late).result = .error
        (.configuration "timeout must be a non-negative number of seconds, got -1") ∧
      late.Refused (p.perform late).result ∧ (p.perform late).player = p ∧
      (p.load 48000 "next.sid" [8]).result =
        .error (.staging "engine allocation of 1 bytes failed") ∧
      Unloaded p q ∧ q.session = .idle ∧ q.rates = none ∧ q.digi.frames = 0 ∧ q.host = p.host ∧
      q.frames = 1 ∧ q.track = 2 := by
  intro frame engine p q late
  have hlate : (p.perform late).result = .error
      (.configuration "timeout must be a non-negative number of seconds, got -1") := rfl
  have hnoRoom : (p.load 48000 "next.sid" [8]).result =
      .error (.staging "engine allocation of 1 bytes failed") := rfl
  obtain ⟨-, -, hload, hrefused⟩ := failures_harmless p
  have hfailed := (hnoRoom ▸ hload 48000 "next.sid" [8]).failed nofun
  have hopen : p.digi.frames = 1 := by decide +kernel
  exact ⟨rfl, rfl, hopen, hlate, hlate ▸ .start, hrefused late (hlate ▸ .start), hnoRoom, hfailed,
    hfailed.session, hfailed.rates, congrArg Digi.Window.frames hfailed.digi, hfailed.host,
    hfailed.frames, hfailed.track⟩

end Player
end SidPlayback
