/-
  The latencies that players measure.

  A step that yields a frame records one latency, and nothing else touches what was recorded: neither
  loading, nor starting, nor the end of a song.

  * `Player.stepsOf` is the number of the steps that an operation makes, and `Player.framesOf`
    of those that yield a frame;
  * `Player.Lived` relates a player to the number of frames that its steps have yielded in its life;
  * `Player.Lived.counts`: so many latencies were recorded;
  * `Player.latencies_averaged`: what the averages are, and how many windows a player has completed.
-/
import SidPlayback.Proofs.Latency
import SidPlayback.Proofs.Player.Consistency

namespace SidPlayback.Player

variable {ε η : Type} [Engine ε]

/-! ## Steps of an operation -/

/-- The number of steps that a recording makes: as many as there are frames to capture, or one more
    that ends the track. -/
def recordingSteps : ℕ → Wave.Capture → Player ε η → ℕ
  | 0, _, _ => 0
  | limit + 1, capture, p =>
    match p.step.result with
    | .ended => 1
    | .frame _ =>
      match capture.append (Engine.sound p.step.player.engine) with
      | .error _ => 1
      | .ok capture => recordingSteps limit capture p.step.player + 1

/-- The number of steps that an operation makes. -/
def stepsOf (p : Player ε η) : Operation → ℕ
  | .step => 1
  | .record destination limit =>
    match p.rates with
    | none => 0
    | some rates =>
      match Wave.Capture.create destination.medium rates.engine with
      | .error _ => 0
      | .ok capture => recordingSteps limit capture p
  | _ => 0

/-- The number of the first `n` steps that yield a frame. -/
def framesIn (p : Player ε η) (n : ℕ) : ℕ :=
  (List.range n).countP fun i => !(p.steps i).step.result.isEnd

/-- The number of steps of an operation that yield a frame. -/
def framesOf (p : Player ε η) (o : Operation) : ℕ := p.framesIn (p.stepsOf o)

theorem recordFrames_player (limit frames : ℕ) (capture : Wave.Capture) (p : Player ε η) :
    (recordFrames limit frames capture p).player = p.steps (recordingSteps limit capture p) := by
  induction limit generalizing frames capture p with
  | zero => rfl
  | succ limit ih =>
    cases hresult : p.step.result with
    | ended => simp only [recordFrames, recordingSteps, hresult, steps]
    | frame n =>
      cases happend : capture.append (Engine.sound p.step.player.engine) with
      | error fault => simp only [recordFrames, recordingSteps, hresult, happend, steps]
      | ok capture =>
        simp only [recordFrames, recordingSteps, hresult, happend]
        exact ih (frames + 1) capture p.step.player

/-- **A recording** makes so many steps, whether it succeeds or fails. -/
theorem record_player (p : Player ε η) (destination : Wave.Destination) (limit : ℕ) :
    (p.record destination limit).player = p.steps (p.stepsOf (.record destination limit)) := by
  cases hrates : p.rates with
  | none => simp only [record, stepsOf, hrates, steps]
  | some rates =>
    cases hcreate : Wave.Capture.create destination.medium rates.engine with
    | error fault => simp only [record, stepsOf, hrates, hcreate, steps]
    | ok capture =>
      simp only [record, stepsOf, hrates, hcreate]
      rw [← recordFrames_player limit 0 capture p]
      split
      case h_1 => rfl
      case h_2 => split <;> rfl

/-! ## Latencies -/

section
variable {p : Player ε η} {n : ℕ}

theorem latency_step (p : Player ε η) :
    (p.step.result.isEnd = true ∧ p.step.player.latency = p.latency) ∨
      (p.step.result.isEnd = false ∧ ∃ elapsed, p.step.player.latency = p.latency.record elapsed) := by
  unfold step
  split
  case h_1 =>
    dsimp only
    split
    case isTrue => exact .inl ⟨rfl, rfl⟩
    case isFalse => exact .inr ⟨rfl, _, rfl⟩
  case h_2 => exact .inl ⟨rfl, rfl⟩

/-- **A step** is counted if it yields a frame. -/
theorem counts_step (h : p.latency.Counts n) :
    p.step.player.latency.Counts (n + if p.step.result.isEnd then 0 else 1) := by
  rcases p.latency_step with ⟨hend, hsame⟩ | ⟨hframe, elapsed, hrecord⟩
  · rw [hend, hsame]; exact h
  · rw [hframe, hrecord]; exact h.record elapsed

theorem framesIn_succ (p : Player ε η) (m : ℕ) :
    p.framesIn (m + 1) = (if p.step.result.isEnd then 0 else 1) + p.step.player.framesIn m := by
  rw [framesIn, List.range_succ_eq_map, List.countP_cons, List.countP_map, Nat.add_comm]
  cases h : p.step.result.isEnd <;> simp [steps, h] <;> rfl

theorem counts_steps (h : p.latency.Counts n) (m : ℕ) :
    (p.steps m).latency.Counts (n + p.framesIn m) := by
  induction m generalizing p n with
  | zero => exact h
  | succ m ih =>
    rw [framesIn_succ, ← Nat.add_assoc]
    exact ih (counts_step h)

variable [Host η]

theorem latency_start (p : Player ε η) (options : TrackOptions) :
    (p.start options).player.latency = p.latency := by
  rcases p.start_cases options with
    hp | ⟨-, -, host, track, traced, bufferSize, status, engine, -, hp⟩ <;> rw [hp]

/-- **An operation** touches the latency by its steps, and not otherwise. -/
theorem latency_perform (p : Player ε η) (o : Operation) :
    (p.perform o).player.latency = (p.steps (p.stepsOf o)).latency := by
  cases o with
  | step | enableScope on | adjust control | setFilter curve => rfl
  | record destination limit => exact congrArg Player.latency (p.record_player destination limit)
  | notifyReady =>
    show p.notifyReady.player.latency = p.latency
    rcases p.notifyReady_cases with ⟨-, hp⟩ | ⟨-, ⟨-, hp⟩ | ⟨panning, -, hp⟩⟩ <;> rw [hp]
    rfl
  | applyPanning values =>
    show (p.applyPanning values).player.latency = p.latency
    rcases p.applyPanning_cases values with ⟨-, hp⟩ | ⟨-, panning, -, ⟨-, hp⟩ | ⟨-, hp⟩⟩ <;> rw [hp]
    rfl
  | load target file data =>
    show (p.load target file data).player.latency = p.latency
    rcases p.load_cases target file data with
      ⟨-, hp⟩ | ⟨-, engine, ⟨failure, -, hp⟩ | ⟨host, rates, -, hp⟩⟩ <;> rw [hp] <;> rfl
  | start options => exact p.latency_start options
  | startJson json =>
    show (p.startJson json).player.latency = p.latency
    rcases p.startJson_cases json with hp | ⟨options, hp⟩ <;> rw [hp]
    exact p.latency_start options

/-- An operation is counted by the frames that its steps yield. -/
theorem counts_perform (h : p.latency.Counts n) (o : Operation) :
    (p.perform o).player.latency.Counts (n + p.framesOf o) := by
  rw [latency_perform]
  exact counts_steps h _

/-- A player that can come about, whatever was done to it, to its engine and to its host, and the
    number of frames that its steps have yielded in its whole life. -/
inductive Lived : Player ε η → ℕ → Prop
  | made {engine : ε} {host : η} {roms : Rom.Bank} {p : Player ε η} :
    Made engine host roms p → Lived p 0
  | perform {p : Player ε η} {n : ℕ} (o : Operation) :
    Lived p n → Lived (p.perform o).player (n + p.framesOf o)
  | setHook {p : Player ε η} {n : ℕ} (hook : ε → ε) : Lived p n → Lived (p.setHook hook) n
  | outside {p : Player ε η} {n : ℕ} (engine : ε) (host : η) :
    Lived p n → Lived { p with engine := engine, host := host } n

theorem Made.latency_eq {engine : ε} {host : η} {roms : Rom.Bank} (made : Made engine host roms p) :
    p.latency = .empty :=
  made.induct (I := fun p => p.latency = .empty) rfl
    (fun p h => (p.latency_perform .notifyReady).trans h) (fun _ _ h => h)
    (fun p values h => (p.latency_perform (.applyPanning values)).trans h)

/-- **So many latencies were recorded** in the life of a player as its steps have yielded frames. -/
theorem Lived.counts (h : Lived p n) : p.latency.Counts n := by
  induction h with
  | made made => rw [made.latency_eq]; exact Latency.counts_empty
  | perform o _ ih => exact counts_perform ih o
  | setHook hook _ ih => exact ih
  | outside engine host _ ih => exact ih

/-- The number of frames that the steps of a run yield. -/
def framesDuring (p : Player ε η) : List Operation → ℕ
  | [] => 0
  | o :: rest => p.framesOf o + (p.perform o).player.framesDuring rest

theorem Lived.run (h : Lived p n) (operations : List Operation) :
    Lived (p.run operations) (n + p.framesDuring operations) := by
  induction operations generalizing p n with
  | nil => exact h
  | cons o rest ih =>
    rw [framesDuring, ← Nat.add_assoc]
    exact ih (h.perform o)

end

/-- **Latencies are averaged** in full blocks of a hundred since the last reset, and the averages of
    the blocks are averaged again; an open block tells nothing.  A player, which never resets, has
    completed one window for a hundred frames that its steps have yielded in its whole life; the
    windows of players are counted without a bound. -/
theorem latencies_averaged :
    (∀ inputs : List Latency.Input, (Latency.sinceReset inputs).length / 100 < 2 ^ 32 →
      (Latency.run inputs).Tells (Latency.sinceReset inputs)) ∧
    ∀ {ε η : Type} [Engine ε] [Host η] {p : Player ε η} {n : ℕ},
      Lived p n → p.latency.windows = n / 100 :=
  ⟨fun inputs hfew => (Latency.collects_run inputs).tells hfew, fun h => h.counts.windows_eq⟩

/-- Frames of two milliseconds, which are forgotten, and a block of one and a half and of two and a
    half milliseconds each. -/
def measurements : List Latency.Input :=
  List.replicate 150 (.measured ⟨0, 2000000⟩) ++ [.reset] ++
    List.replicate 100 (.measured ⟨0, 1500000⟩) ++ List.replicate 130 (.measured ⟨0, 2500000⟩)

/-- A track that is started again, recorded to its end, and stepped after it. -/
def longSession : List Operation :=
  [.load 44100 "tune.sid" [7], .start {}] ++ List.replicate 60 .step ++
    [.start {}, .record ⟨"out.wav", .file⟩ 50, .step, .load 44100 "tune.sid" [7]]

theorem latencies_averaged_twice :
    (Latency.sinceReset measurements).length / 100 < 2 ^ 32 ∧
      (Latency.run measurements).windows = 2 ∧
      (Latency.run measurements).windowAverage.map Float.toBits = some (2.5 : Float).toBits ∧
      (Latency.run measurements).longRunAverage.map Float.toBits = some (2.0 : Float).toBits ∧
      Lived ((scriptedFrames 105).run longSession) 105 ∧
      ((scriptedFrames 105).run longSession).latency.windows = 1 := by
  have hlength : (Latency.sinceReset measurements).length = 230 := by decide +kernel
  have hfew : (Latency.sinceReset measurements).length / 100 < 2 ^ 32 := by rw [hlength]; decide
  have htells := latencies_averaged.1 measurements hfew
  have hframes : (scriptedFrames 105).framesDuring longSession = 105 := by decide +kernel
  have hlived := (Lived.made (p := scriptedFrames 105) .create).run longSession
  rw [hframes] at hlived
  refine ⟨hfew, ?_, ?_, ?_, hlived, latencies_averaged.2 hlived⟩
  · rw [htells.windows, hlength]
  · rw [htells.windowAverage]; decide +kernel
  · rw [htells.longRunAverage]; decide +kernel

end SidPlayback.Player
