/-
  The digi status over a whole run.

  Loading, starting and the end of a song all interrupt a window.  Frames that were
  collected till then are dropped, and the status stays what it was.

  * an engine that is `Recorded` with `Digi.Event`s keeps account of the starts, and
    of the telemetry of every frame that it computes;
  * `Player.Follows` is the invariant: the window holds what is left of the track;
  * `Player.digiStatus_published`: players publish the status of that block.
-/
import SidPlayback.Engine.Scripted
import SidPlayback.Host.Scripted
import SidPlayback.Proofs.Digi.Account
import SidPlayback.Proofs.Player.Loading
import SidPlayback.Proofs.Player.Operations

namespace SidPlayback

namespace Digi

/-! ## Engines that keep account -/

/-- What a call amounts to, by its answer and the engine after it. -/
def Event.ofCall {ε : Type} [Engine ε] : (c : EngineCall) → c.Answer → ε → List Event
  | .play _ _ _, _, _ => [.started]
  | .compute, answer, engine =>
    if answer.samples ≤ 0 then [] else [.frame ⟨Engine.digiRate engine, Engine.digiLabel engine⟩]
  | _, _, _ => []

instance {ε : Type} [Engine ε] : Engine (Recorded ε Event) where
  call c r :=
    let (answer, state) := Engine.call c r.state
    (answer, ⟨state, r.history ++ (Event.ofCall c answer state).toArray⟩)
  isReady r := Engine.isReady r.state
  sampleRate r := Engine.sampleRate r.state
  sound r := Engine.sound r.state
  song r := Engine.song r.state
  digiType r := Engine.digiType r.state
  digiLabel r := Engine.digiLabel r.state
  digiRate r := Engine.digiRate r.state
  panning r := Engine.panning r.state
  stereo r := Engine.stereo r.state
  reverb r := Engine.reverb r.state
  speaker r := Engine.speaker r.state
  filter r := Engine.filter r.state
  cutoffs r := Engine.cutoffs r.state
  chip r := Engine.chip r.state
  video r := Engine.video r.state
  chips r := Engine.chips r.state
  baseAddress r := Engine.baseAddress r.state
  register r := Engine.register r.state
  voiceLevel r := Engine.voiceLevel r.state
  ram r := Engine.ram r.state
  traceCount r := Engine.traceCount r.state
  trace? r := Engine.trace? r.state

section
variable {ε : Type} [Engine ε] {r r' : Recorded ε Event}

theorem log_of_call {c : EngineCall} {answer : c.Answer} (h : Engine.call c r = (answer, r')) :
    r'.log = r.log ++ Event.ofCall c answer r'.state := by
  cases h
  simp [Recorded.log]

/-- Calls that play nothing are not accounted for. -/
theorem log_after (c : EngineCall) (hc : c.kind ≠ .playing) (r : Recorded ε Event) :
    (Engine.after c r).log = r.log := by
  have hlog : (Engine.after c r).log =
      r.log ++ Event.ofCall c (Engine.call c r).1 (Engine.after c r).state := log_of_call rfl
  have hnone : Event.ofCall c (Engine.call c r).1 (Engine.after c r).state = [] := by
    cases c with
    | play | compute => exact absurd rfl hc
    | _ => rfl
  rw [hlog, hnone, List.append_nil]

end

end Digi

namespace Player
open Digi

variable {ε η : Type}

theorem step_of_playing [Engine ε] {p : Player ε η} (hs : p.session = .playing)
    {answer : FrameAnswer} {engine : ε}
    (hcall : Engine.call .compute (p.hook p.engine) = (answer, engine)) :
    p.step.player =
      if answer.samples ≤ 0 then { p with engine := engine, digi := .empty, session := .ended }
      else ({ p with
        engine := engine
        latency := p.latency.record answer.elapsed
        frames := p.frames + 1 }).observeDigi := by
  simp only [step, hs, hcall]
  split <;> rfl

/-! ## The invariant -/

/-- While a track runs the window holds what is left of it, and the status is that of
    the block completed last. -/
structure Follows (p : Player (Recorded ε Event) η) : Prop where
  window : p.session = .playing → ∃ closed current,
    tracks p.engine.log = closed ++ [current] ∧ p.digi.Holds (remainder current)
  status : Publishes p.engine.log p.digiStatus
  hook : ∀ r, (p.hook r).log = r.log

section
variable {p q : Player (Recorded ε Event) η}

/-- As long as nothing is accounted for the player follows, unless a track begins to
    run. -/
theorem Follows.quiet (h : p.Follows) (hlog : q.engine.log = p.engine.log)
    (hwindow : q.session = .playing → p.session = .playing ∧ q.digi = p.digi)
    (hstatus : q.digiStatus = p.digiStatus) (hhook : q.hook = p.hook) : q.Follows := by
  refine ⟨fun hs => ?_, ?_, fun r => ?_⟩
  · obtain ⟨hplaying, hdigi⟩ := hwindow hs
    rw [hlog, hdigi]
    exact h.window hplaying
  · rw [hlog, hstatus]
    exact h.status
  · rw [hhook]
    exact h.hook r

variable [Engine ε]

theorem Follows.forwardPanning (h : p.Follows) (panning : Panning) :
    (p.forwardPanning panning).Follows :=
  h.quiet (Digi.log_after (.initPanning panning) nofun _) (fun hs => ⟨hs, rfl⟩) rfl rfl

theorem Follows.notifyReady (h : p.Follows) : p.notifyReady.player.Follows := by
  rcases p.notifyReady_cases with ⟨-, hp⟩ | ⟨-, ⟨-, hp⟩ | ⟨panning, -, hp⟩⟩
  · rw [hp]; exact h
  · rw [hp]; exact h.quiet rfl (fun hs => ⟨hs, rfl⟩) rfl rfl
  · have hready : Follows { p with lifecycle := .ready, pendingPanning := none } :=
      h.quiet rfl (fun hs => ⟨hs, rfl⟩) rfl rfl
    rw [hp]
    exact hready.forwardPanning panning

theorem Follows.applyPanning (h : p.Follows) (values : List Float32) :
    (p.applyPanning values).player.Follows := by
  rcases p.applyPanning_cases values with ⟨-, hp⟩ | ⟨-, panning, -, ⟨-, hp⟩ | ⟨-, hp⟩⟩
  · rw [hp]; exact h
  · rw [hp]; exact h.forwardPanning panning
  · rw [hp]; exact h.quiet rfl (fun hs => ⟨hs, rfl⟩) rfl rfl

/-- A frame of the track that runs is added to the window, or fills it. -/
theorem Follows.observeDigi (h : p.Follows) (hs : p.session = .playing) {engine : Recorded ε Event}
    (hlog : engine.log =
      p.engine.log ++ [.frame ⟨Engine.digiRate engine, Engine.digiLabel engine⟩])
    (latency : Latency) (frames : Nat) :
    Follows ({ p with engine := engine, latency := latency, frames := frames }).observeDigi := by
  obtain ⟨closed, current, htracks, hwindow⟩ := h.window hs
  let frame : Frame := ⟨Engine.digiRate engine, Engine.digiLabel engine⟩
  have hnext : tracks engine.log = closed ++ [current ++ [frame]] := by
    rw [hlog, tracks_frame htracks]
  have hcompleted := completed_frame htracks frame
  rw [← hlog] at hcompleted
  unfold Player.observeDigi
  -- the window is full when the block is
  rcases Digi.blocks_snoc current frame with ⟨hless, -, hremainder⟩ | ⟨hfull, -, hremainder⟩
  · rw [if_pos hless] at hcompleted
    obtain ⟨hnone, hholds⟩ := hwindow.observe_of_lt hless frame
    refine ⟨fun _ => ⟨closed, current ++ [frame], hnext, ?_⟩, ?_, h.hook⟩
    · rw [hremainder]
      exact hholds
    · show Publishes engine.log ((p.digi.observe frame.rate.toFloat frame.name).1.getD p.digiStatus)
      rw [hnone]
      exact h.status.of_same hcompleted
  · rw [if_neg (by omega)] at hcompleted
    obtain ⟨hempty, status, hstatus, hsummary⟩ := hwindow.observe_of_eq hfull frame
    refine ⟨fun _ => ⟨closed, current ++ [frame], hnext, ?_⟩, ?_, h.hook⟩
    · rw [hremainder]
      show (p.digi.observe frame.rate.toFloat frame.name).2.Holds []
      rw [hempty]
      exact Window.holds_empty
    · show Publishes engine.log ((p.digi.observe frame.rate.toFloat frame.name).1.getD p.digiStatus)
      rw [hstatus]
      exact publishes_of_completed hcompleted hsummary

/-- **A step** ends the track, or is one frame more of it. -/
theorem Follows.step (h : p.Follows) : p.step.player.Follows := by
  by_cases hs : p.session = .playing
  · obtain ⟨answer, engine, hcall⟩ : ∃ answer engine,
      Engine.call .compute (p.hook p.engine) = (answer, engine) := ⟨_, _, rfl⟩
    have hlog := Digi.log_of_call hcall
    rw [h.hook] at hlog
    rw [step_of_playing hs hcall]
    by_cases hend : answer.samples ≤ 0
    · rw [if_pos hend]
      have hnone : engine.log = p.engine.log := by
        rw [hlog, Event.ofCall, if_pos hend, List.append_nil]
      exact h.quiet hnone nofun rfl rfl
    · rw [if_neg hend]
      refine h.observeDigi hs ?_ _ _
      rw [hlog, Event.ofCall, if_neg hend]
      rfl
  · rcases p.step_cases with ⟨-, hp⟩ | ⟨hplaying, -⟩
    · rw [hp]; exact h
    · exact absurd hplaying hs

variable [Host η]

theorem Follows.load (h : p.Follows) (target : UInt32) (file : String) (data : List UInt8) :
    (p.load target file data).player.Follows := by
  have hlog : (p.load target file data).player.engine.log = p.engine.log := by
    refine keeps_load (K := fun r : Recorded ε Event => r.log = p.engine.log) (fun c r hc hr => ?_) rfl
      target file data
    refine (Digi.log_after c ?_ r).trans hr
    rcases hc with hc | hc <;> rw [hc] <;> decide
  rcases p.load_cases target file data with
    ⟨-, hp⟩ | ⟨hl, engine, ⟨_, -, hp⟩ | ⟨host, rates, -, hp⟩⟩
  · rw [hp]; exact h
  · refine h.quiet hlog ?_ ?_ ?_ <;> rw [hp]
    · exact nofun
    · rfl
    · rfl
  · refine h.quiet hlog ?_ ?_ ?_ <;> rw [hp]
    · exact nofun
    · rfl
    · rfl

theorem Follows.start (h : p.Follows) (options : TrackOptions) :
    (p.start options).player.Follows := by
  rcases p.start_cases options with
    hp | ⟨-, -, host, track, traced, bufferSize, status, engine, hcall, hp⟩
  · rw [hp]; exact h
  have hlog : engine.log = p.engine.log ++ [.started] := Digi.log_of_call hcall
  rw [hp]
  refine ⟨fun _ => ⟨tracks p.engine.log, [], ?_, Window.holds_empty⟩, ?_, h.hook⟩
  · show tracks engine.log = _
    rw [hlog, tracks_started]
  · show Publishes engine.log p.digiStatus
    rw [hlog]
    exact h.status.of_same (completed_started _)

theorem kept_follows : Kept (Follows : Player (Recorded ε Event) η → Prop) where
  enableScope _ _ h := h.quiet rfl (fun hs => ⟨hs, rfl⟩) rfl rfl
  load _ target file data h := h.load target file data
  start _ options h := h.start options
  step _ h := h.step
  setting p c hc h :=
    h.quiet (Digi.log_after c (by rw [hc]; decide) p.engine) (fun hs => ⟨hs, rfl⟩) rfl rfl
  notifyReady _ h := h.notifyReady
  applyPanning _ values h := h.applyPanning values

theorem Made.follows {engine : ε} {host : η} {roms : Rom.Bank}
    (made : Made (Recorded.fresh engine) host roms p) : p.Follows :=
  made.induct ⟨nofun, ⟨fun _ => rfl, nofun⟩, fun _ => rfl⟩ kept_follows.notifyReady kept_follows.enableScope
    kept_follows.applyPanning

/-- **The digi status of a whole run** is that of the block of twenty frames that was
    completed last.  Blocks are counted from every start that reaches the engine; a
    block that is cut off by the end of the song, by loading or by another start is
    never published, and does not change what was. -/
theorem digiStatus_published {engine : ε} {host : η} {roms : Rom.Bank}
    (made : Made (Recorded.fresh engine) host roms p) {hook : Recorded ε Event → Recorded ε Event}
    (apart : ∀ r, (hook r).log = r.log) (operations : List Operation) :
    let q := (p.setHook hook).run operations
    Publishes q.engine.log q.digiStatus := by
  intro q
  have hhook : Follows (p.setHook hook) := ⟨made.follows.window, made.follows.status, apart⟩
  exact (kept_follows.run hhook operations).status

end

/-- A frame of a script with digi output. -/
def digiFrame (rate : UInt16) (label : String) : ScriptFrame :=
  ⟨882, rate, 1, Scripted.field label, none⟩

/-- A full window with output in its last two frames, by two techniques, and then output only. -/
def digiScript : List ScriptFrame :=
  List.replicate 18 (digiFrame 0 "NONE") ++ [digiFrame 7800 "PWM", digiFrame 7801 "FM"] ++
    List.replicate 24 (digiFrame 4000 "FM")

/-- An engine that plays it. -/
def digiEngine : Scripted := { Scripted.initial with script := digiScript }

/-- A new player with this engine. -/
def scriptedDigi : Player (Recorded Scripted Event) ScriptedHost :=
  (create (Recorded.fresh digiEngine) ScriptedHost.initial ⟨none, none, none⟩).player

/-- A session in which the track is started again after 25 frames. -/
def digiSession : List Operation :=
  [.load 44100 "tune.sid" [7], .start {}] ++ List.replicate 25 .step ++ [.start {}] ++
    List.replicate 19 .step

theorem digiStatus_published_restarted :
    let hook : Recorded Scripted Event → Recorded Scripted Event := Engine.after (.setRam 2 1)
    let q := (scriptedDigi.setHook hook).run digiSession
    Made (Recorded.fresh digiEngine) ScriptedHost.initial ⟨none, none, none⟩ scriptedDigi ∧
      (∀ r, (hook r).log = r.log) ∧ q.digiStatus.rate.toNat = 7801 ∧
      q.digiStatus.label = "FM&PWM" ∧ q.digiStatus.isActive = true := by
  intro hook q
  have hmade : Made (Recorded.fresh digiEngine) ScriptedHost.initial ⟨none, none, none⟩
      scriptedDigi := .create
  have hhook : ∀ r, (hook r).log = r.log := Digi.log_after (.setRam 2 1) nofun
  have hstatus : Publishes q.engine.log q.digiStatus :=
    digiStatus_published hmade hhook digiSession
  let block : List Frame := List.replicate 18 ⟨0, Scripted.field "NONE"⟩ ++
    [⟨7800, Scripted.field "PWM"⟩, ⟨7801, Scripted.field "FM"⟩]
  have hblock : (completed q.engine.log).getLast? = some block := by decide +kernel
  have houtputs : outputs block ≠ [] := by decide
  have hsummary : Summarizes block q.digiStatus := hstatus.last block hblock
  have hrate : (2 * rateTotal (outputs block) + (outputs block).length) /
      (2 * (outputs block).length) = 7801 := by decide
  have hsorted : ["FM", "PWM"].Pairwise (· < ·) := by decide
  have hnames : ∀ name, name ∈ ["FM", "PWM"] ↔ ∃ frame ∈ outputs block, frame.name = name := by
    have hpair : (outputs block).map (·.name) = ["PWM", "FM"] := by decide +kernel
    intro name
    rw [← List.mem_map, hpair, List.mem_pair, List.mem_pair, or_comm]
  have htext : Describes (named block) "FM&PWM" :=
    Labels.describes_of_mem_iff hsorted hnames
  exact ⟨hmade, hhook, (hsummary.rate_eq houtputs).trans hrate, hsummary.describes.unique htext,
    hsummary.isActive_iff.2 houtputs⟩

end Player
end SidPlayback
