/-
  Nothing is left over from one session to the next.

  Two players with engines and hosts in the same state, and with the same ROM images and
  settings, may have different pasts.  Once both have loaded the same song and started the
  same track there is nothing to tell them apart, as long as the same is done to both.

  * `Player.Prepared`, `Player.SameSong` and `Player.Agrees` say how far two players agree:
    before loading, after it, and after starting;
  * `Player.Prepared.load` and `Player.SameSong.start` lead from one to the next;
  * `Player.Agrees.perform`: what agrees still agrees after any operation;
  * `Player.sessions_isolated`: the two players agree after any list of operations, in the
    digi status from the first full window on.
-/
import SidPlayback.Proofs.Player.Frames
import SidPlayback.Proofs.Player.Mirrors
import SidPlayback.Proofs.Twins

namespace SidPlayback

/-- A window that is empty after a frame was filled by it. -/
theorem Digi.Window.isSome_observe {w : Window} {rate : Float} {label : String}
    (h : (w.observe rate label).2.frames = 0) : (w.observe rate label).1.isSome = true := by
  unfold observe at h ⊢
  dsimp only at h ⊢
  split at h
  · rw [frames_add] at h
    cases h
  · rename_i hfull
    rw [if_neg hfull]; rfl

namespace Player
open Recorded

/-! ## Agreement -/

section
variable {ε η : Type}

/-- Since `p₀` and `q₀` the engines and the hosts of `p` and `q` were told the same, and
    are in the same state; what no session changes is the same. -/
structure Prepared (p₀ q₀ p q : Watched ε η) : Prop where
  engine : Twins p₀.engine q₀.engine p.engine q.engine
  host : Twins p₀.host q₀.host p.host q.host
  roms : p.roms = q.roms
  scope : p.scope = q.scope
  ready_left : p.lifecycle = .ready
  ready_right : q.lifecycle = .ready
  hook_left : p.hook = id
  hook_right : q.hook = id

/-- What loading replaces is the same, too. -/
structure SameSong (p₀ q₀ p q : Watched ε η) : Prop extends Prepared p₀ q₀ p q where
  session : p.session = q.session
  rates : p.rates = q.rates
  digi : p.digi = q.digi

/-- What starting replaces is the same, too, and once it is `shown` the digi status. -/
structure Agrees (p₀ q₀ : Watched ε η) (shown : Prop) (p q : Watched ε η) : Prop
    extends SameSong p₀ q₀ p q where
  track : p.track = q.track
  traced : p.traced = q.traced
  frames : p.frames = q.frames
  status : shown → p.digiStatus = q.digiStatus

variable {p₀ q₀ p q : Watched ε η} {shown : Prop}

theorem Agrees.mono (h : Agrees p₀ q₀ shown p q) {less : Prop} (himp : less → shown) :
    Agrees p₀ q₀ less p q :=
  { h with status := fun hless => h.status (himp hless) }

theorem Agrees.engine_twins (h : Agrees p₀ q₀ shown p q) {engine engine' : Recorded ε EngineEvent}
    (htwins : Twins p₀.engine q₀.engine engine engine') :
    Agrees p₀ q₀ shown { p with engine := engine } { q with engine := engine' } :=
  { h with engine := htwins }

end

/-! ## Sessions -/

section
variable {ε η : Type} [Engine ε] {p₀ q₀ p q : Watched ε η} {shown : Prop}

theorem Agrees.observeDigi (h : Agrees p₀ q₀ shown p q) :
    Agrees p₀ q₀ (shown ∨ p.observeDigi.digi.frames = 0) p.observeDigi q.observeDigi := by
  have hrate : Engine.digiRate p.engine = Engine.digiRate q.engine :=
    congrArg (fun state : ε => Engine.digiRate state) h.engine.state_eq
  have hlabel : Engine.digiLabel p.engine = Engine.digiLabel q.engine :=
    congrArg (fun state : ε => Engine.digiLabel state) h.engine.state_eq
  unfold Player.observeDigi
  rw [hrate, hlabel, h.digi]
  refine { h with digi := rfl, status := fun hshown => ?_ }
  dsimp only at hshown ⊢
  rcases hshown with hshown | hfull
  · rw [h.status hshown]
  · obtain ⟨status, hstatus⟩ := Option.isSome_iff_exists.1 (Digi.Window.isSome_observe hfull)
    rw [hstatus]; rfl

/-- The next step yields a frame, and with it a window is full. -/
def Completes (p : Watched ε η) : Prop :=
  p.step.result ≠ .ended ∧ p.step.player.digi.frames = 0

theorem Agrees.step (h : Agrees p₀ q₀ shown p q) :
    p.step.result = q.step.result ∧
      Agrees p₀ q₀ (shown ∨ p.Completes) p.step.player q.step.player := by
  by_cases hs : p.session = .playing
  · obtain ⟨answer, engine, hp⟩ : ∃ answer engine,
      Engine.call .compute p.engine = (answer, engine) := ⟨_, _, rfl⟩
    obtain ⟨engine', hq, htwins⟩ := h.engine.exists_call hp
    have hpcall : Engine.call .compute (p.hook p.engine) = (answer, engine) := by
      rw [h.hook_left, ← hp]; rfl
    have hqcall : Engine.call .compute (q.hook q.engine) = (answer, engine') := by
      rw [h.hook_right, ← hq]; rfl
    rw [Completes, step_of_call hs hpcall, step_of_call (h.session ▸ hs) hqcall]
    by_cases hend : answer.samples ≤ 0
    · rw [if_pos hend, if_pos hend]
      exact ⟨rfl, { h with
        engine := htwins, session := rfl, digi := rfl
        status := fun hshown => h.status (hshown.resolve_right fun hc => hc.1 rfl) }⟩
    · rw [if_neg hend, if_neg hend]
      have hnext : Agrees p₀ q₀ shown
          { p with
            engine := engine
            latency := p.latency.record answer.elapsed
            frames := p.frames + 1 }
          { q with
            engine := engine'
            latency := q.latency.record answer.elapsed
            frames := q.frames + 1 } :=
        { h with engine := htwins, frames := congrArg (· + 1) h.frames }
      exact ⟨rfl, hnext.observeDigi.mono fun hshown => hshown.imp_right And.right⟩
  · have hidle := step_of_not_playing hs
    have hidle' := step_of_not_playing (h.session ▸ hs)
    have hnot : ¬ p.Completes := fun hc => hc.1 (by rw [hidle])
    rw [hidle, hidle']
    exact ⟨rfl, h.mono fun hshown => hshown.resolve_right hnot⟩

theorem Agrees.recordFrames (h : Agrees p₀ q₀ shown p q) (limit frames : ℕ)
    (capture : Wave.Capture) :
    (recordFrames limit frames capture p).result = (recordFrames limit frames capture q).result ∧
      Agrees p₀ q₀ shown (recordFrames limit frames capture p).player
        (recordFrames limit frames capture q).player := by
  induction limit generalizing p q frames capture with
  | zero => exact ⟨rfl, h⟩
  | succ limit ih =>
    obtain ⟨hresult, hstep⟩ := h.step
    have hnext := hstep.mono Or.inl
    have hsound : Engine.sound p.step.player.engine = Engine.sound q.step.player.engine :=
      congrArg (fun state : ε => Engine.sound state) hnext.engine.state_eq
    unfold Player.recordFrames
    dsimp only
    rw [← hresult, ← hsound]
    split
    · exact ⟨rfl, hnext⟩
    · split
      · exact ⟨rfl, hnext⟩
      · exact ih hnext (frames + 1) _

theorem Agrees.record (h : Agrees p₀ q₀ shown p q) (destination : Wave.Destination) (limit : ℕ) :
    (p.record destination limit).result = (q.record destination limit).result ∧
      Agrees p₀ q₀ shown (p.record destination limit).player
        (q.record destination limit).player := by
  unfold Player.record
  rw [← h.rates]
  split
  · exact ⟨rfl, h⟩
  split
  · exact ⟨rfl, h⟩
  case h_2 capture _ =>
    obtain ⟨hresult, hplayer⟩ := h.recordFrames limit 0 capture
    dsimp only
    rw [← hresult]
    split
    · exact ⟨rfl, hplayer⟩
    split
    · exact ⟨rfl, hplayer⟩
    · exact ⟨rfl, hplayer⟩

theorem Agrees.applyPanning (h : Agrees p₀ q₀ shown p q) (values : List Float32) :
    (p.applyPanning values).result = (q.applyPanning values).result ∧
      Agrees p₀ q₀ shown (p.applyPanning values).player (q.applyPanning values).player := by
  unfold Player.applyPanning
  rw [h.ready_left, h.ready_right]
  split
  · exact ⟨rfl, h⟩
  case h_2 panning _ =>
    have hnext := h.engine_twins (h.engine.after (.initPanning panning))
    exact ⟨rfl, { hnext with }⟩

end

section
variable {ε η : Type} [Engine ε] [Host η] {p₀ q₀ p q : Watched ε η} {shown : Prop}

theorem Prepared.load (h : Prepared p₀ q₀ p q) (target : UInt32) (file : String)
    (data : List UInt8) :
    (p.load target file data).result = (q.load target file data).result ∧
      SameSong p₀ q₀ (p.load target file data).player (q.load target file data).player := by
  obtain ⟨hp, hpresult⟩ := p.load_of_ready h.ready_left target file data
  obtain ⟨hq, hqresult⟩ := q.load_of_ready h.ready_right target file data
  have hrate : Host.nativeRate? p.host = Host.nativeRate? q.host :=
    congrArg (fun state : η => Host.nativeRate? state) h.host.state_eq
  rw [h.roms, hrate] at hp hpresult
  obtain ⟨houtcome, htwins⟩ := twins_stageSong h.engine q.roms
    ((Host.nativeRate? q.host).getD 0) file data
  have hresult : (p.load target file data).result = (q.load target file data).result := by
    rw [hpresult, hqresult, houtcome]
  rw [← hp, ← hq] at htwins
  refine ⟨hresult, ?_⟩
  rcases p.load_outcome target file data with
    ⟨hl, -⟩ | ⟨-, engine, ⟨failure, hfailure, hp⟩ | ⟨hok, hp⟩⟩
  · cases h.ready_left.symm.trans hl
  -- the results are the same, so loading fails for both or for neither
  · rcases q.load_outcome target file data with
      ⟨hl, -⟩ | ⟨-, engine', ⟨failure', -, hq⟩ | ⟨hok', -⟩⟩
    · cases h.ready_right.symm.trans hl
    · rw [hp, hq] at htwins ⊢
      exact { h with engine := htwins, session := rfl, rates := rfl, digi := rfl }
    · cases hfailure.symm.trans (hresult.trans hok')
  · rcases q.load_outcome target file data with
      ⟨hl, -⟩ | ⟨-, engine', ⟨failure', hfailure', -⟩ | ⟨-, hq⟩⟩
    · cases h.ready_right.symm.trans hl
    · cases hok.symm.trans (hresult.trans hfailure')
    · rw [hp, hq] at htwins ⊢
      have hrates : (⟨Engine.sampleRate engine, target⟩ : Rates) =
          ⟨Engine.sampleRate engine', target⟩ :=
        congrArg (fun state : ε => (⟨Engine.sampleRate state, target⟩ : Rates)) htwins.state_eq
      refine { h with
        engine := htwins, host := ?_, session := rfl, rates := congrArg some hrates, digi := rfl }
      rw [hrates]
      exact h.host.hostCall _

/-- What belongs to the track, and the digi status, outlast the song. -/
theorem load_keeps_track (p : Watched ε η) (target : UInt32) (file : String) (data : List UInt8) :
    let p' := (p.load target file data).player
    p'.track = p.track ∧ p'.traced = p.traced ∧ p'.frames = p.frames ∧
      p'.digiStatus = p.digiStatus := by
  rcases p.load_cases target file data with
    ⟨-, hp⟩ | ⟨-, engine, ⟨failure, -, hp⟩ | ⟨host, rates, -, hp⟩⟩ <;> rw [hp] <;>
    exact ⟨rfl, rfl, rfl, rfl⟩

theorem Agrees.load (h : Agrees p₀ q₀ shown p q) (target : UInt32) (file : String)
    (data : List UInt8) :
    (p.load target file data).result = (q.load target file data).result ∧
      Agrees p₀ q₀ shown (p.load target file data).player (q.load target file data).player := by
  obtain ⟨hresult, hsame⟩ := h.toPrepared.load target file data
  obtain ⟨htrack, htraced, hframes, hstatus⟩ := p.load_keeps_track target file data
  obtain ⟨htrack', htraced', hframes', hstatus'⟩ := q.load_keeps_track target file data
  refine ⟨hresult, { hsame with
    track := by rw [htrack, htrack', h.track]
    traced := by rw [htraced, htraced', h.traced]
    frames := by rw [hframes, hframes', h.frames]
    status := fun hshown => by rw [hstatus, hstatus', h.status hshown] }⟩

/-- Starting is refused to both players, or after it they agree. -/
theorem SameSong.start (h : SameSong p₀ q₀ p q) (options : TrackOptions) :
    (∃ failure, p.start options = ⟨.error failure, p, []⟩ ∧
      q.start options = ⟨.error failure, q, []⟩) ∨
    ∃ status, (p.start options).result = .ok status ∧ (q.start options).result = .ok status ∧
      ∀ shown, (shown → p.digiStatus = q.digiStatus) →
        Agrees p₀ q₀ shown (p.start options).player (q.start options).player := by
  rcases options.check_cases with ⟨-, hcheck⟩ | ⟨-, seconds, -, hcheck⟩
  · by_cases hs : p.session = .idle
    · refine .inl ⟨.noSong, ?_, ?_⟩
      · simp only [Player.start, h.ready_left, hcheck, hs]
      · simp only [Player.start, h.ready_right, hcheck, h.session ▸ hs]
    · refine .inr ?_
      have hhost : Twins p₀.host q₀.host (options.announce p.host) (options.announce q.host) := by
        unfold TrackOptions.announce
        split
        · exact h.host.hostCall _
        · exact h.host
      have hsize : Host.bufferSize (options.announce p.host) =
          Host.bufferSize (options.announce q.host) :=
        congrArg (fun state : η => Host.bufferSize state) hhost.state_eq
      obtain ⟨status, engine, hcall⟩ : ∃ status engine, Engine.call (.play options.trackOrDefault
        (options.tracedOr p.scope) (Host.bufferSize (options.announce p.host))) p.engine =
          (status, engine) := ⟨_, _, rfl⟩
      obtain ⟨engine', hcall', htwins⟩ := h.engine.exists_call hcall
      obtain ⟨hpresult, hp⟩ := start_played h.ready_left hcheck hs hcall
      rw [hsize, h.scope] at hcall'
      obtain ⟨hqresult, hq⟩ := start_played h.ready_right hcheck (h.session ▸ hs) hcall'
      refine ⟨_, hpresult, hqresult, fun shown hshown => ?_⟩
      rw [hp, hq]
      exact { h with
        engine := htwins, host := hhost, session := rfl, digi := rfl
        track := rfl, traced := congrArg options.tracedOr h.scope, frames := rfl
        status := hshown }
  · refine .inl ⟨TrackOptions.badTimeout seconds, ?_, ?_⟩
    · simp only [Player.start, h.ready_left, hcheck]
    · simp only [Player.start, h.ready_right, hcheck]

theorem Agrees.start (h : Agrees p₀ q₀ shown p q) (options : TrackOptions) :
    (p.start options).result = (q.start options).result ∧
      Agrees p₀ q₀ shown (p.start options).player (q.start options).player := by
  rcases h.toSameSong.start options with ⟨failure, hp, hq⟩ | ⟨status, hp, hq, hagrees⟩
  · rw [hp, hq]
    exact ⟨rfl, h⟩
  · exact ⟨hp.trans hq.symm, hagrees shown h.status⟩

theorem Agrees.startJson (h : Agrees p₀ q₀ shown p q) (json : String) :
    (p.startJson json).result = (q.startJson json).result ∧
      Agrees p₀ q₀ shown (p.startJson json).player (q.startJson json).player := by
  unfold Player.startJson
  split
  · exact ⟨rfl, h⟩
  · exact h.start _

theorem Agrees.perform_of_ne_step (h : Agrees p₀ q₀ shown p q) {o : Operation} (ho : o ≠ .step) :
    (p.perform o).result = (q.perform o).result ∧
      Agrees p₀ q₀ shown (p.perform o).player (q.perform o).player := by
  cases o with
  | step => exact absurd rfl ho
  | notifyReady =>
    have hp := notifyReady_of_ready h.ready_left
    have hq := notifyReady_of_ready h.ready_right
    simp only [Player.perform, hp, hq]
    exact ⟨trivial, h⟩
  | applyPanning values => exact h.applyPanning values
  | enableScope on => exact ⟨rfl, { h with scope := rfl }⟩
  | load target file data => exact h.load target file data
  | start options => exact h.start options
  | startJson json => exact h.startJson json
  | record destination limit => exact h.record destination limit
  | adjust control => exact ⟨rfl, h.engine_twins (h.engine.foldl control.calls)⟩
  | setFilter curve =>
    obtain ⟨hanswer, htwins⟩ := h.engine.call (.setFilter curve)
    exact ⟨hanswer, h.engine_twins htwins⟩

/-- **What agrees still agrees** after any operation, and a full window shows in both. -/
theorem Agrees.perform (h : Agrees p₀ q₀ shown p q) (o : Operation) :
    (p.perform o).result = (q.perform o).result ∧
      Agrees p₀ q₀ (shown ∨ (o = .step ∧ p.Completes)) (p.perform o).player
        (q.perform o).player := by
  by_cases ho : o = .step
  · subst ho
    obtain ⟨hresult, hplayer⟩ := h.step
    exact ⟨hresult, hplayer.mono fun hshown => hshown.imp_right And.right⟩
  · obtain ⟨hresult, hplayer⟩ := h.perform_of_ne_step ho
    exact ⟨hresult, hplayer.mono fun hshown => hshown.resolve_right fun hc => ho hc.1⟩

/-- A step of the list yields a frame with which a window is full. -/
def CompletesAmong (p : Watched ε η) (operations : List Operation) : Prop :=
  ∃ before after, operations = before ++ .step :: after ∧ (p.run before).Completes

theorem Agrees.run (h : Agrees p₀ q₀ shown p q) (operations : List Operation) :
    Agrees p₀ q₀ (shown ∨ p.CompletesAmong operations) (p.run operations) (q.run operations) := by
  induction operations generalizing p q shown with
  | nil =>
    refine h.mono fun hshown => hshown.resolve_right ?_
    rintro ⟨before, after, hnil, -⟩
    cases before <;> cases hnil
  | cons o rest ih =>
    refine (ih (h.perform o).2).mono ?_
    rintro (hshown | ⟨before, after, hsplit, hcompletes⟩)
    · exact .inl (.inl hshown)
    cases before with
    | nil =>
      cases hsplit
      exact .inl (.inr ⟨rfl, hcompletes⟩)
    | cons first before =>
      cases hsplit
      exact .inr ⟨before, after, rfl, hcompletes⟩

/-- **Sessions are isolated.**  What two players did before shows neither in the results
    of any operations, nor in the calls that these make, nor in what can be seen of the
    players afterwards, as soon as both have loaded the same song and started the same
    track. -/
theorem sessions_isolated (engines : p.engine.state = q.engine.state)
    (hosts : p.host.state = q.host.state) (roms : p.roms = q.roms) (scope : p.scope = q.scope)
    (ready : p.lifecycle = .ready ∧ q.lifecycle = .ready) (hooks : p.hook = id ∧ q.hook = id)
    {target : UInt32} {file : String} {data : List UInt8}
    (loaded : (p.load target file data).result = .ok ()) {options : TrackOptions}
    (started : ((p.load target file data).player.start options).result = .ok 0)
    (operations : List Operation) :
    let p₁ := (p.load target file data).player
    let q₁ := (q.load target file data).player
    let p₂ := (p₁.start options).player
    let q₂ := (q₁.start options).player
    (q.load target file data).result = .ok () ∧ SameSong p q p₁ q₁ ∧
      (q₁.start options).result = .ok 0 ∧
      Agrees p q (p₂.CompletesAmong operations) (p₂.run operations) (q₂.run operations) ∧
      ∀ o, ((p₂.run operations).perform o).result = ((q₂.run operations).perform o).result := by
  intro p₁ q₁ p₂ q₂
  have h : Prepared p q p q :=
    ⟨.refl engines, .refl hosts, roms, scope, ready.1, ready.2, hooks.1, hooks.2⟩
  obtain ⟨hload, hsong⟩ := h.load target file data
  rcases hsong.start options with ⟨failure, hp, -⟩ | ⟨status, hp, hq, hagrees⟩
  · rw [hp] at started
    cases started
  -- the digi statuses may still differ, so only windows of this track count
  have hrun := ((hagrees False False.elim).run operations).mono Or.inr
  exact ⟨hload.symm.trans loaded, hsong, hq.trans (hp.symm.trans started), hrun,
    fun o => (hrun.perform o).1⟩

end

/-- Another session, in which two frames were played. -/
def otherSession : List Operation :=
  [.load 48000 "other.sid" [1, 2], .start { track := some 3, traced := some true }, .step, .step]

theorem sessions_isolated_window :
    let frame : ScriptFrame := ⟨882, 0, 0, Scripted.field "NONE", none⟩
    let p := watched { Scripted.initial with script := List.replicate 30 frame }
    let q := { p.run otherSession with engine := p.engine, host := p.host }
    let frames := List.replicate 20 Operation.step
    let p₂ := ((p.load 44100 "tune.sid" [7]).player.start {}).player
    let q₂ := ((q.load 44100 "tune.sid" [7]).player.start {}).player
    Reachable p ∧ Reachable q ∧ p.session = .idle ∧ q.session = .playing ∧ q.track = 3 ∧
      p₂.CompletesAmong frames ∧ (q₂.run frames).track = (p₂.run frames).track ∧
      (q₂.run frames).digiStatus = (p₂.run frames).digiStatus := by
  intro frame p q frames p₂ q₂
  have hp : Reachable p := .made .create
  have hq : Reachable q := (hp.run otherSession).outside p.engine p.host
  have hcompletes : p₂.CompletesAmong frames := by
    have hlast : (p₂.run (List.replicate 19 .step)).step.player.Consistent :=
      (kept_consistent.run ((hp.consistent.load 44100 "tune.sid" [7]).start {}) _).step
    have hplaying : (p₂.run (List.replicate 19 .step)).step.player.session = .playing := by
      decide +kernel
    have hframes : (p₂.run (List.replicate 19 .step)).step.player.frames = 20 := by
      decide +kernel
    have hgoes : (p₂.run (List.replicate 19 .step)).step.result ≠ .ended := by
      decide +kernel
    have hfull : (p₂.run (List.replicate 19 .step)).step.player.digi.frames = 0 := by
      rw [hlast.playing hplaying, hframes]
    exact ⟨List.replicate 19 .step, [], rfl, hgoes, hfull⟩
  have hloaded : (p.load 44100 "tune.sid" [7]).result = .ok () := rfl
  have hstarted : ((p.load 44100 "tune.sid" [7]).player.start {}).result = .ok 0 := rfl
  obtain ⟨-, -, -, hagrees, -⟩ := sessions_isolated (p := p) (q := q) rfl rfl rfl rfl
    ⟨rfl, rfl⟩ ⟨rfl, rfl⟩ hloaded hstarted frames
  exact ⟨hp, hq, rfl, rfl, rfl, hcompletes, hagrees.track.symm, (hagrees.status hcompletes).symm⟩

end Player
end SidPlayback
