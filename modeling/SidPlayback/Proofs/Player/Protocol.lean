/-
  Players keep to the protocol.

  Whatever operations are performed, in whatever order, the engine is asked to
  play only a song that it has loaded, and to compute frames only while a track
  runs.

  * `Player.journal` writes down what a list of operations does;
  * `Player.Accords` is the invariant: the state of a player fits what is written
    down of it;
  * `Player.journal_orderly`: the journal of a player is orderly.
-/
import SidPlayback.Engine.Scripted
import SidPlayback.Host.Scripted
import SidPlayback.Proofs.Journal
import SidPlayback.Proofs.Player.Loading
import SidPlayback.Proofs.Player.Operations

namespace SidPlayback

/-- How loading ended, if the operation is that. -/
def Operation.loadings : (o : Operation) → o.Result → Journal
  | .load _ _ _, result => [.loaded result]
  | _, _ => []

namespace Player
open Recorded

variable {ε η : Type}

/-! ## Journals -/

section
variable [Engine ε] [Host η]

/-- What is written down of an operation: the calls it adds to the history, and
    how loading ended. -/
def happenings (p : Player (Recorded ε EngineEvent) η) (o : Operation) : Journal :=
  let reply := p.perform o
  (reply.player.engine.log.drop p.engine.log.length).map .call ++ o.loadings reply.result

/-- What is written down of a list of operations. -/
def journal (p : Player (Recorded ε EngineEvent) η) : List Operation → Journal
  | [] => []
  | o :: rest => p.happenings o ++ (p.perform o).player.journal rest

end

/-! ## The invariant -/

/-- The hook leaves the playing to the player. -/
abbrev Restrained (hook : Recorded ε EngineEvent → Recorded ε EngineEvent) : Prop :=
  MakesOnly (fun c => c.kind ≠ .playing) hook

/-- The state of a player fits what has happened. -/
structure Accords (p : Player (Recorded ε EngineEvent) η) (past : Journal) : Prop where
  orderly : past.Orderly
  ready : p.session ≠ .idle → p.lifecycle = .ready
  song : p.session ≠ .idle → past.HasSong
  track : p.session = .playing → past.Runs
  hook : Restrained p.hook

/-- From `p` the player `q` is reached by calls, after which it fits what has
    happened. -/
def Advances (past : Journal) (p q : Player (Recorded ε EngineEvent) η) : Prop :=
  ∃ events, q.engine.log = p.engine.log ++ events ∧ q.Accords (past ++ events.map .call)

section
variable {past : Journal} {p q : Player (Recorded ε EngineEvent) η}

theorem Accords.refl (h : p.Accords past) : Advances past p p :=
  ⟨[], (List.append_nil _).symm, by simpa using h⟩

/-- Calls that play nothing keep the player in accord. -/
theorem Accords.advances (h : p.Accords past) (hsession : q.session = p.session)
    (hlifecycle : p.lifecycle = .ready → q.lifecycle = .ready) (hhook : q.hook = p.hook)
    (hcalls : ∃ events, q.engine.log = p.engine.log ++ events ∧
      ∀ event ∈ events, event.call.kind ≠ .playing) : Advances past p q := by
  obtain ⟨events, hlog, hevents⟩ := hcalls
  refine ⟨events, hlog, h.orderly.calls hevents, ?_, ?_, ?_, ?_⟩
  · exact fun hs => hlifecycle (h.ready (hsession ▸ hs))
  · exact fun hs => (h.song (hsession ▸ hs)).calls events
  · exact fun hs => (h.track (hsession ▸ hs)).calls hevents
  · rw [hhook]; exact h.hook

theorem Accords.silent (h : p.Accords past) (hengine : q.engine = p.engine)
    (hsession : q.session = p.session) (hlifecycle : p.lifecycle = .ready → q.lifecycle = .ready)
    (hhook : q.hook = p.hook) : Advances past p q :=
  h.advances hsession hlifecycle hhook ⟨[], by rw [hengine, List.append_nil], nofun⟩

theorem Accords.setHook (h : p.Accords past)
    {hook : Recorded ε EngineEvent → Recorded ε EngineEvent} (restrained : Restrained hook) :
    (p.setHook hook).Accords past :=
  ⟨h.orderly, h.ready, h.song, h.track, restrained⟩

/-- What is written down is no more than the history. -/
theorem Advances.history (h : Advances (p.engine.log.map .call) p q) :
    q.Accords (q.engine.log.map .call) := by
  obtain ⟨events, hlog, haccords⟩ := h
  rwa [hlog, List.map_append]

end

/-! ## Operations -/

section
variable [Engine ε] {past : Journal} {p : Player (Recorded ε EngineEvent) η}

theorem Accords.after (h : p.Accords past) {q : Player (Recorded ε EngineEvent) η}
    {c : EngineCall} (hengine : q.engine = Engine.after c p.engine)
    (hc : c.kind ≠ .playing) (hsession : q.session = p.session)
    (hlifecycle : p.lifecycle = .ready → q.lifecycle = .ready) (hhook : q.hook = p.hook) :
    Advances past p q :=
  h.advances hsession hlifecycle hhook
    ⟨_, by rw [hengine, log_after], fun _ he => (List.mem_singleton.1 he) ▸ hc⟩

theorem Accords.notifyReady (h : p.Accords past) : Advances past p p.notifyReady.player := by
  unfold Player.notifyReady
  split
  · exact h.refl
  · dsimp only
    split
    · exact h.silent rfl rfl (fun _ => rfl) rfl
    · exact h.after rfl nofun rfl (fun _ => rfl) rfl

theorem Accords.applyPanning (h : p.Accords past) (values : List Float32) :
    Advances past p (p.applyPanning values).player := by
  unfold Player.applyPanning
  split
  · exact h.refl
  · split
    · exact h.after rfl nofun rfl id rfl
    · exact h.silent rfl rfl id rfl

theorem Made.accords {engine : ε} {host : η} {roms : Rom.Bank}
    (h : Made (Recorded.fresh engine) host roms p) : p.Accords (p.engine.log.map .call) := by
  refine h.induct (I := fun p => p.Accords (p.engine.log.map .call)) ?_ ?_ ?_ ?_
  · exact ⟨Journal.orderly_nil, fun hs => absurd rfl hs, fun hs => absurd rfl hs, nofun,
      makesOnly_id⟩
  · exact fun p h => h.notifyReady.history
  · intro p on h
    have hsame : Advances (p.engine.log.map .call) p (p.enableScope on) := h.silent rfl rfl id rfl
    exact hsame.history
  · exact fun p values h => (h.applyPanning values).history

theorem Accords.step (h : p.Accords past) : Advances past p p.step.player := by
  rcases p.step_cases with ⟨-, hp⟩ | ⟨hs, answer, engine, hcall, hp⟩
  · rw [hp]; exact h.refl
  obtain ⟨events, hlog, hevents⟩ := h.hook.call hcall
  have hidle : p.session ≠ .idle := by rw [hs]; decide
  -- the hook plays nothing, so the track still runs when the frame is computed
  have hruns := (h.track hs).calls hevents
  have horderly := (h.orderly.calls hevents).snoc (x := .call ⟨.compute, answer⟩) hruns
  refine ⟨events ++ [⟨.compute, answer⟩], ?_, ?_⟩
  · rcases hp with ⟨-, hp⟩ | ⟨-, rate, label, digiStatus, latency, hp⟩ <;> rw [hp] <;> exact hlog
  have hsong := (h.song hidle).calls (events ++ [⟨.compute, answer⟩])
  rw [List.map_append, ← List.append_assoc] at hsong ⊢
  rcases hp with ⟨-, hp⟩ | ⟨hpos, rate, label, digiStatus, latency, hp⟩
  · rw [hp]
    exact ⟨horderly, fun _ => h.ready hidle, fun _ => hsong, fun hs => by (cases hs), h.hook⟩
  · rw [hp]
    exact ⟨horderly, fun _ => h.ready hidle, fun _ => hsong, fun _ => hruns.compute hpos, h.hook⟩

theorem Accords.steps (h : p.Accords past) (n : Nat) : Advances past p (p.steps n) := by
  induction n generalizing past p with
  | zero => exact h.refl
  | succ n ih =>
    obtain ⟨events, hlog, hnext⟩ := h.step
    obtain ⟨more, hmore, hlast⟩ := ih hnext
    refine ⟨events ++ more, ?_, ?_⟩
    · show (p.step.player.steps n).engine.log = _
      rw [hmore, hlog, List.append_assoc]
    · rw [List.map_append, ← List.append_assoc]; exact hlast

theorem Accords.settings (h : p.Accords past) {calls : List EngineCall}
    (hcalls : ∀ c ∈ calls, c.kind = .setting) :
    Advances past p { p with
      engine := calls.foldl (fun engine c => Engine.after c engine) p.engine } := by
  refine h.advances rfl id rfl ?_
  obtain ⟨events, hlog, hevents⟩ := makesOnly_foldl hcalls p.engine
  exact ⟨events, hlog, fun e he => by rw [hevents e he]; decide⟩

variable [Host η]

theorem Accords.start (h : p.Accords past) (options : TrackOptions) :
    Advances past p (p.start options).player := by
  rcases p.start_cases options with
    hp | ⟨hl, hs, host, track, traced, bufferSize, status, engine, hcall, hp⟩
  · rw [hp]; exact h.refl
  refine ⟨_, by rw [hp]; exact log_of_call hcall, ?_⟩
  rw [hp]
  refine ⟨h.orderly.snoc (h.song hs), fun _ => hl, fun _ => (h.song hs).calls _, ?_, h.hook⟩
  intro hplaying
  have hstatus : status = 0 := by
    by_contra hne
    simp only [if_neg hne] at hplaying
    cases hplaying
  rw [hstatus]
  exact Journal.runs_play past track traced bufferSize

/-- After loading there is a song, or the player is idle. -/
theorem Accords.load (h : p.Accords past) (target : UInt32) (file : String)
    (data : List UInt8) :
    (p.load target file data).player.Accords
      (past ++ p.happenings (.load target file data)) := by
  rcases p.load_cases target file data with ⟨hl, hp⟩ | ⟨hl, engine, hp⟩
  · have hidle : p.session = .idle := by
      by_contra hne
      cases hl.symm.trans (h.ready hne)
    have hnothing : p.happenings (.load target file data) = [.loaded (.error .notReady)] := by
      simp [happenings, perform, hp, Operation.loadings]
    rw [hp, hnothing]
    exact ⟨h.orderly.snoc trivial, h.ready, fun hs => absurd hidle hs,
      fun hs => by (cases hidle.symm.trans hs), h.hook⟩
  · obtain ⟨events, hlog, hload⟩ := p.log_load hl target file data
    have hevents : ∀ event ∈ events, event.call.kind ≠ .playing := by
      intro event he
      rcases hload event he with hk | hk <;> rw [hk] <;> decide
    have hhappenings : p.happenings (.load target file data) =
        events.map .call ++ [.loaded (p.load target file data).result] := by
      simp only [happenings, perform, hlog, List.drop_left, Operation.loadings]
    have horderly := (h.orderly.calls hevents).snoc
      (x := .loaded (p.load target file data).result) trivial
    rw [hhappenings, ← List.append_assoc]
    rcases hp with ⟨failure, -, hp⟩ | ⟨host, rates, hok, hp⟩
    · rw [hp]
      exact ⟨horderly, fun hs => absurd rfl hs, fun hs => absurd rfl hs,
        fun hs => by (cases hs), h.hook⟩
    · rw [hok] at horderly ⊢
      rw [hp]
      exact ⟨horderly, fun _ => hl, fun _ => Journal.hasSong_loaded _,
        fun hs => by (cases hs), h.hook⟩

end

/-! ## Runs -/

section
variable [Engine ε] [Host η] {past : Journal} {p : Player (Recorded ε EngineEvent) η}

theorem Advances.happenings {o : Operation} (h : Advances past p (p.perform o).player)
    (ho : o.loadings (p.perform o).result = []) :
    (p.perform o).player.Accords (past ++ p.happenings o) := by
  obtain ⟨events, hlog, haccords⟩ := h
  rw [Player.happenings, ho, hlog, List.drop_left, List.append_nil]
  exact haccords

/-- **An operation** keeps the player in accord. -/
theorem Accords.perform (h : p.Accords past) (o : Operation) :
    (p.perform o).player.Accords (past ++ p.happenings o) := by
  cases o with
  | load target file data => exact h.load target file data
  | notifyReady => exact h.notifyReady.happenings rfl
  | applyPanning values => exact (h.applyPanning values).happenings rfl
  | enableScope on =>
    have hsame : Advances past p (p.enableScope on) := h.silent rfl rfl id rfl
    exact hsame.happenings rfl
  | start options => exact (h.start options).happenings rfl
  | startJson json =>
    refine Advances.happenings ?_ rfl
    rcases p.startJson_cases json with hp | ⟨options, hp⟩
    · rw [Player.perform, hp]; exact h.refl
    · rw [Player.perform, hp]; exact h.start options
  | step => exact h.step.happenings rfl
  | record destination limit =>
    refine Advances.happenings ?_ rfl
    obtain ⟨n, hn⟩ := p.record_steps destination limit
    rw [Player.perform, hn]; exact h.steps n
  | adjust control => exact (h.settings control.kind_calls).happenings rfl
  | setFilter curve =>
    have hset : Advances past p (p.setFilter curve).player :=
      h.after rfl (by simp [EngineCall.kind]) rfl id rfl
    exact hset.happenings rfl

theorem Accords.journal (h : p.Accords past) (operations : List Operation) :
    (p.run operations).Accords (past ++ p.journal operations) := by
  induction operations generalizing past p with
  | nil => rwa [Player.journal, List.append_nil]
  | cons o rest ih =>
    have hrest := ih (h.perform o)
    rwa [List.append_assoc] at hrest

/-- **Players keep to the protocol.** -/
theorem journal_orderly {engine : ε} {host : η} {roms : Rom.Bank}
    (made : Made (Recorded.fresh engine) host roms p)
    {hook : Recorded ε EngineEvent → Recorded ε EngineEvent} (restrained : Restrained hook)
    (operations : List Operation) :
    Journal.Orderly (p.engine.log.map .call ++ (p.setHook hook).journal operations) :=
  ((made.accords.setHook restrained).journal operations).orderly

end

/-- What is written down when a song is loaded. -/
def loadJournal : Journal :=
  (Staging.stagingCalls [[7]] [⟨4096⟩] ++
      ⟨.load ⟨isLegacySong "tune.sid", ⟨⟨4096⟩, 1⟩, 0, "tune.sid", none, none, none⟩,
        (0 : UInt32)⟩ :: Staging.freeingCalls [⟨4096⟩]).map .call ++ [.loaded (.ok ())]

theorem journal_orderly_short :
    let p := scripted ⟨none, none, none⟩
    let hook := Engine.after (.setRam 2 1)
    Made (Recorded.fresh Scripted.initial) ScriptedHost.initial ⟨none, none, none⟩ p ∧
      Restrained (ε := Scripted) hook ∧
      (p.setHook hook).journal [.load 44100 "tune.sid" [7], .start {}, .step] =
        loadJournal ++ [.call ⟨.play (-1) false 4096, (0 : UInt32)⟩, .call ⟨.setRam 2 1, ()⟩,
          .call ⟨.compute, (⟨0, .zero⟩ : FrameAnswer)⟩] ∧
      ((p.setHook hook).journal [.load 44100 "tune.sid" [7], .start {}, .step]).Orderly := by
  intro p hook
  have hmade : Made (Recorded.fresh Scripted.initial) ScriptedHost.initial
      ⟨none, none, none⟩ p := .create
  have hhook : Restrained (ε := Scripted) hook := makesOnly_after nofun
  let loaded := ((p.setHook hook).perform (.load 44100 "tune.sid" [7])).player
  let started := (loaded.perform (.start {})).player
  have hload : (p.setHook hook).happenings (.load 44100 "tune.sid" [7]) = loadJournal := rfl
  have hstart : loaded.happenings (.start {}) =
    [.call ⟨.play (-1) false 4096, (0 : UInt32)⟩] := rfl
  have hstep : started.happenings .step = [.call ⟨.setRam 2 1, ()⟩,
    .call ⟨.compute, (⟨0, .zero⟩ : FrameAnswer)⟩] := rfl
  have horderly := journal_orderly hmade hhook [.load 44100 "tune.sid" [7], .start {}, .step]
  have hnone : p.engine.log = [] := rfl
  rw [hnone] at horderly
  refine ⟨hmade, hhook, ?_, horderly⟩
  rw [journal, journal, journal, journal, hload, hstart, hstep]
  rfl

end Player
end SidPlayback
