/-
  Stepping through a track.

  The frames of a track are a stream: what an engine would answer if it computed one
  frame after the other.  The track ends with the first frame that has no samples.

  * `Engine.counts` are the numbers of samples of the stream, and `leading` says how many
    of them are positive before one is not;
  * `Player.round` is what a step does to the engine while a track runs, and
    `Player.roundCalls` are the calls of so many rounds;
  * `Player.counts` is the stream that the player gets, with the doings of its hook, and
    `Player.counts_eq` says when it is that of the engine;
  * `Player.steps_playing` and `Player.steps_ended`: so many steps, before the end of the
    track and after it;
  * `Player.steps_of_started`: every number of steps after a start.
-/
import Mathlib.Data.ENat.Lattice
import SidPlayback.Engine.Scripted
import SidPlayback.Host.Scripted
import SidPlayback.Proofs.Player.Outcomes
import SidPlayback.Proofs.Player.Telemetry

namespace SidPlayback

/-! ## Streams -/

/-- The number of leading counts that are positive: the place of the first that is not. -/
noncomputable def leading (counts : ℕ → Int32) : ℕ∞ := ⨅ i, ⨅ _ : counts i ≤ 0, (i : ℕ∞)

/-- A positive count is returned as it is. -/
theorem toNat_toUInt32_of_pos {count : Int32} (h : 0 < count) :
    (count.toUInt32.toNat : ℤ) = count.toInt := by
  have hpos : 0 < count.toBitVec.toInt := Int32.lt_iff_toInt_lt.1 h
  show (count.toBitVec.toNat : ℤ) = count.toBitVec.toInt
  rw [BitVec.toInt_eq_toNat_cond] at hpos ⊢
  split at hpos
  case isTrue hhalf => rw [if_pos hhalf]
  case isFalse => omega

section
variable {counts : ℕ → Int32} {k : ℕ}

theorem le_leading_iff : (k : ℕ∞) ≤ leading counts ↔ ∀ i < k, 0 < counts i := by
  simp only [leading, le_iInf_iff, Nat.cast_le]
  constructor
  · intro h i hi
    by_contra hcount
    exact absurd (h i (Int32.not_lt.1 hcount)) (not_le.2 hi)
  · intro h i hcount
    by_contra hi
    exact absurd (h i (not_le.1 hi)) (Int32.not_lt.2 hcount)

theorem leading_eq (hpos : ∀ i < k, 0 < counts i) (hend : counts k ≤ 0) : leading counts = k :=
  le_antisymm (iInf₂_le k hend) (le_leading_iff.2 hpos)

/-- If the leading counts end before `k` the first that is not positive is there. -/
theorem exists_leading_eq (h : leading counts < k) :
    ∃ j < k, leading counts = j ∧ (∀ i < j, 0 < counts i) ∧ counts j ≤ 0 := by
  obtain ⟨j, hj⟩ := ENat.ne_top_iff_exists.1 h.ne_top
  rw [← hj] at h ⊢
  have hpos : ∀ i < j, 0 < counts i := le_leading_iff.1 hj.le
  refine ⟨j, Nat.cast_lt.1 h, rfl, hpos, ?_⟩
  -- if this count were positive there would be one more
  by_contra hcount
  have hmore : ((j + 1 : ℕ) : ℕ∞) ≤ leading counts := by
    refine le_leading_iff.2 fun i hi => ?_
    rcases Nat.lt_succ_iff_lt_or_eq.1 hi with hi | rfl
    · exact hpos i hi
    · exact Int32.not_le.1 hcount
  rw [← hj, Nat.cast_le] at hmore
  exact absurd hmore (Nat.not_succ_le_self j)

end

namespace Engine

variable {ε : Type} [Engine ε]

/-- The numbers of samples of the frames that the engine would compute now. -/
def counts (engine : ε) (i : ℕ) : Int32 :=
  (Engine.call .compute ((Engine.after .compute)^[i] engine)).1.samples

theorem counts_after (engine : ε) (i : ℕ) :
    counts (Engine.after .compute engine) i = counts engine (i + 1) := rfl

end Engine

/-! ## Steps -/

namespace Player

variable {ε η : Type} [Engine ε]

/-- What a step does to the engine while a track runs. -/
def round (p : Player ε η) (engine : ε) : ε := Engine.after .compute (p.hook engine)

/-- The numbers of samples of the frames that the player would have computed now. -/
def counts (p : Player ε η) (i : ℕ) : Int32 :=
  (Engine.call .compute (p.hook (p.round^[i] p.engine))).1.samples

/-- After `q` was reached from `p`, by so many rounds and with so many frames. -/
structure Advanced (p q : Player ε η) (session : Session) (rounds frames : ℕ) : Prop where
  session_eq : q.session = session
  engine_eq : q.engine = p.round^[rounds] p.engine
  frames_eq : q.frames = p.frames + frames
  hook_eq : q.hook = p.hook

section
variable {p q : Player ε η}

theorem step_of_not_playing (h : p.session ≠ .playing) : p.step = ⟨.ended, p, []⟩ := by
  unfold step
  split
  · contradiction
  · rfl

theorem step_of_call (h : p.session = .playing) {answer : FrameAnswer} {engine : ε}
    (hcall : Engine.call .compute (p.hook p.engine) = (answer, engine)) :
    p.step =
      if answer.samples ≤ 0 then
        ⟨.ended, { p with engine := engine, digi := .empty, session := .ended },
          [.songEnded p.frames]⟩
      else
        ⟨.frame answer.samples.toUInt32, ({ p with
          engine := engine
          latency := p.latency.record answer.elapsed
          frames := p.frames + 1 }).observeDigi, []⟩ := by
  simp only [step, h, hcall]

theorem steps_of_not_playing (h : p.session ≠ .playing) (n : ℕ) : p.steps n = p := by
  induction n with
  | zero => rfl
  | succ n ih => rw [steps, step_of_not_playing h, ih]

theorem steps_add (p : Player ε η) (n m : ℕ) : p.steps (n + m) = (p.steps n).steps m := by
  induction n generalizing p with
  | zero => rw [Nat.zero_add]; rfl
  | succ n ih => rw [Nat.succ_add]; exact ih p.step.player

theorem steps_succ (p : Player ε η) (n : ℕ) : p.steps (n + 1) = (p.steps n).step.player :=
  p.steps_add n 1

/-- The hook leaves the stream alone, so rounds take the frames off it one by one. -/
theorem counts_rounds (apart : ∀ engine, Engine.counts (p.hook engine) = Engine.counts engine)
    (engine : ε) (n i : ℕ) :
    Engine.counts (p.round^[n] engine) i = Engine.counts engine (n + i) := by
  induction n generalizing engine with
  | zero => rw [Nat.zero_add]; rfl
  | succ n ih =>
    rw [Function.iterate_succ_apply, ih, round, Engine.counts_after, apart, Nat.succ_add]

theorem counts_eq (apart : ∀ engine, Engine.counts (p.hook engine) = Engine.counts engine) :
    p.counts = Engine.counts p.engine := by
  funext i
  show Engine.counts (p.hook (p.round^[i] p.engine)) 0 = _
  rw [apart, counts_rounds apart]; rfl

theorem Advanced.step {k : ℕ} (h : Advanced p q .playing k k) :
    let count := p.counts k
    (0 < count → q.step.result = .frame count.toUInt32 ∧
      Advanced p q.step.player .playing (k + 1) (k + 1)) ∧
    (count ≤ 0 → q.step.result = .ended ∧ Advanced p q.step.player .ended (k + 1) k) := by
  intro count
  obtain ⟨answer, engine, hcall⟩ : ∃ answer engine,
    Engine.call .compute (q.hook q.engine) = (answer, engine) := ⟨_, _, rfl⟩
  have hround : engine = p.round^[k + 1] p.engine := by
    rw [Function.iterate_succ_apply', ← h.engine_eq, round, ← h.hook_eq, Engine.after, hcall]
  have hcount : count = answer.samples := by
    show (Engine.call .compute (p.hook (p.round^[k] p.engine))).1.samples = _
    rw [← h.engine_eq, ← h.hook_eq, hcall]
  rw [step_of_call h.session_eq hcall, ← hcount]
  constructor
  · intro hpos
    rw [if_neg (Int32.not_le.2 hpos)]
    exact ⟨rfl, h.session_eq, hround, congrArg (· + 1) h.frames_eq, h.hook_eq⟩
  · intro hend
    rw [if_pos hend]
    exact ⟨rfl, rfl, hround, h.frames_eq, h.hook_eq⟩

/-- **While there are frames** a step is a round. -/
theorem steps_playing (h : p.session = .playing) {k : ℕ}
    (hpos : ∀ i < k, 0 < p.counts i) : Advanced p (p.steps k) .playing k k := by
  induction k with
  | zero => exact ⟨h, rfl, rfl, rfl⟩
  | succ k ih =>
    rw [steps_succ]
    have hbefore := ih fun i hi => hpos i (Nat.lt_succ_of_lt hi)
    exact (hbefore.step.1 (hpos k (Nat.lt_succ_self k))).2

/-- **When there are none** the track ends, with one round more. -/
theorem steps_ended (h : p.session = .playing) {j k : ℕ}
    (hpos : ∀ i < j, 0 < p.counts i) (hend : p.counts j ≤ 0)
    (hk : j < k) : Advanced p (p.steps k) .ended (j + 1) j := by
  obtain ⟨m, rfl⟩ := Nat.exists_eq_add_of_lt hk
  have hlast : Advanced p (p.steps (j + 1)) .ended (j + 1) j := by
    rw [steps_succ]
    exact ((p.steps_playing h hpos).step.2 hend).2
  rw [Nat.add_right_comm, steps_add, steps_of_not_playing]
  · exact hlast
  · rw [hlast.session_eq]; decide

theorem steps_counts (h : p.session = .playing) (k : ℕ) :
    (k ≤ leading p.counts ∧ Advanced p (p.steps k) .playing k k) ∨
    ∃ j < k, leading p.counts = j ∧ Advanced p (p.steps k) .ended (j + 1) j := by
  by_cases hk : k ≤ leading p.counts
  · exact .inl ⟨hk, p.steps_playing h (le_leading_iff.1 hk)⟩
  · obtain ⟨j, hj, hleading, hpos, hend⟩ := exists_leading_eq (not_le.1 hk)
    exact .inr ⟨j, hj, hleading, p.steps_ended h hpos hend hj⟩

variable (apart : ∀ engine, Engine.counts (p.hook engine) = Engine.counts engine)
include apart

theorem steps_cases (h : p.session = .playing) (k : ℕ) :
    (k ≤ leading (Engine.counts p.engine) ∧ Advanced p (p.steps k) .playing k k) ∨
    ∃ j < k, leading (Engine.counts p.engine) = j ∧ Advanced p (p.steps k) .ended (j + 1) j :=
  counts_eq apart ▸ p.steps_counts h k

theorem step_of_lt_leading (h : p.session = .playing) {i : ℕ}
    (hi : i < leading (Engine.counts p.engine)) :
    ∃ n, (p.steps i).step.result = .frame n ∧
      (n.toNat : ℤ) = (Engine.counts p.engine i).toInt := by
  rw [← counts_eq apart] at hi ⊢
  have hmore : ((i + 1 : ℕ) : ℕ∞) ≤ leading p.counts := by
    rw [Nat.cast_succ]; exact Order.add_one_le_of_lt hi
  have hpos := le_leading_iff.1 hmore
  have hbefore := p.steps_playing h fun l hl => hpos l (Nat.lt_succ_of_lt hl)
  have hcount := hpos i (Nat.lt_succ_self i)
  exact ⟨_, (hbefore.step.1 hcount).1, toNat_toUInt32_of_pos hcount⟩

theorem step_of_leading_le (h : p.session = .playing) {i : ℕ}
    (hi : leading (Engine.counts p.engine) ≤ i) : (p.steps i).step.result = .ended := by
  rw [← counts_eq apart] at hi
  have hlt : leading p.counts < (i + 1 : ℕ) :=
    lt_of_le_of_lt hi (Nat.cast_lt.2 (Nat.lt_succ_self i))
  obtain ⟨j, hj, -, hpos, hend⟩ := exists_leading_eq hlt
  rcases Nat.lt_succ_iff_lt_or_eq.1 hj with hj | rfl
  · have hended := p.steps_ended h hpos hend hj
    rw [step_of_not_playing]
    rw [hended.session_eq]; decide
  · exact ((p.steps_playing h hpos).step.2 hend).1

end

/-! ## After the track -/

end Player

/-- Whether an operation starts a track, and succeeds. -/
def Operation.Begins : (o : Operation) → o.Result → Prop
  | .start _, result | .startJson _, result => result = .ok 0
  | _, _ => False

namespace Player

variable {ε η : Type} [Engine ε]

section
variable [Host η]

/-- No operation of the list starts a track successfully. -/
def NothingBegins (p : Player ε η) : List Operation → Prop
  | [] => True
  | o :: rest => ¬ o.Begins (p.perform o).result ∧ (p.perform o).player.NothingBegins rest

variable {p : Player ε η}

theorem start_not_playing (h : p.session ≠ .playing) {options : TrackOptions}
    (hbegins : (p.start options).result ≠ .ok 0) :
    (p.start options).player.session ≠ .playing := by
  rcases p.start_outcome options with ⟨failure, -, hp⟩ | ⟨status, engine, hresult, -, hp⟩
  · rw [hp]; exact h
  · have hne : status ≠ 0 := by
      rintro rfl
      exact hbegins hresult
    rw [hp]
    simp only [if_neg hne]
    exact nofun

theorem perform_not_playing (h : p.session ≠ .playing) {o : Operation}
    (hbegins : ¬ o.Begins (p.perform o).result) :
    (p.perform o).player.session ≠ .playing := by
  cases o with
  | enableScope on | adjust control | setFilter curve => exact h
  | notifyReady =>
    show p.notifyReady.player.session ≠ .playing
    rcases p.notifyReady_cases with ⟨-, hp⟩ | ⟨-, ⟨-, hp⟩ | ⟨panning, -, hp⟩⟩ <;>
      rw [hp] <;> exact h
  | applyPanning values =>
    show (p.applyPanning values).player.session ≠ .playing
    rcases p.applyPanning_cases values with ⟨-, hp⟩ | ⟨-, panning, -, ⟨-, hp⟩ | ⟨-, hp⟩⟩ <;>
      rw [hp] <;> exact h
  | load target file data =>
    show (p.load target file data).player.session ≠ .playing
    rcases p.load_cases target file data with
      ⟨-, hp⟩ | ⟨-, engine, ⟨failure, -, hp⟩ | ⟨host, rates, -, hp⟩⟩ <;> rw [hp]
    · exact h
    · exact nofun
    · exact nofun
  | start options => exact start_not_playing h hbegins
  | startJson json =>
    rcases p.startJson_cases json with hp | ⟨options, hp⟩
    · simp only [perform, hp]; exact h
    · have hother : (p.start options).result ≠ .ok 0 := hp ▸ hbegins
      simp only [perform, hp]
      exact start_not_playing h hother
  | step =>
    show p.step.player.session ≠ .playing
    rw [step_of_not_playing h]; exact h
  | record destination limit =>
    obtain ⟨n, hn⟩ := p.record_steps destination limit
    show (p.record destination limit).player.session ≠ .playing
    rw [hn, steps_of_not_playing h]; exact h

theorem run_not_playing (h : p.session ≠ .playing) {operations : List Operation}
    (hbegins : p.NothingBegins operations) : (p.run operations).session ≠ .playing := by
  induction operations generalizing p with
  | nil => exact h
  | cons o rest ih => exact ih (perform_not_playing h hbegins.1) hbegins.2

end

/-! ## A track from its start -/

/-- The calls of so many rounds, if `marks` are those of the hook. -/
def roundCalls (p : Player (Recorded ε EngineEvent) η)
    (marks : Recorded ε EngineEvent → List EngineEvent) (n : ℕ) : List EngineEvent :=
  (List.range n).flatMap fun i =>
    let engine := p.round^[i] p.engine
    marks engine ++ [⟨.compute, (Engine.call .compute (p.hook engine)).1⟩]

theorem roundCalls_succ (p : Player (Recorded ε EngineEvent) η)
    (marks : Recorded ε EngineEvent → List EngineEvent) (n : ℕ) :
    p.roundCalls marks (n + 1) = p.roundCalls marks n ++ (marks (p.round^[n] p.engine) ++
      [⟨.compute, (Engine.call .compute (p.hook (p.round^[n] p.engine))).1⟩]) := by
  simp [roundCalls, List.range_succ]

theorem log_rounds {p : Player (Recorded ε EngineEvent) η}
    {marks : Recorded ε EngineEvent → List EngineEvent}
    (logged : ∀ r, (p.hook r).log = r.log ++ marks r) (n : ℕ) :
    (p.round^[n] p.engine).log = p.engine.log ++ p.roundCalls marks n := by
  induction n with
  | zero => exact (List.append_nil _).symm
  | succ n ih =>
    rw [Function.iterate_succ_apply', round, Recorded.log_after, logged, ih, roundCalls_succ,
      List.append_assoc, List.append_assoc]

theorem playing_of_started [Host η] {p : Player ε η} {options : TrackOptions}
    (started : (p.start options).result = .ok 0) :
    (p.start options).player.session = .playing ∧ (p.start options).player.frames = 0 ∧
      (p.start options).player.hook = p.hook := by
  rcases p.start_outcome options with ⟨failure, hfailure, -⟩ | ⟨status, engine, hresult, -, hp⟩
  · cases hfailure.symm.trans started
  · obtain rfl : status = 0 := Except.ok.inj (hresult.symm.trans started)
    rw [hp]
    exact ⟨rfl, rfl, rfl⟩

/-- What `k` steps do with a track that was just started. -/
structure Stepped [Host η] (p : Player (Recorded ε EngineEvent) η)
    (marks : Recorded ε EngineEvent → List EngineEvent) (k : ℕ) : Prop where
  /-- As long as there are frames a step yields the next one. -/
  frame : ∀ i < k, i < leading (Engine.counts p.engine) →
    ∃ n, (p.steps i).step.result = .frame n ∧
      (n.toNat : ℤ) = (Engine.counts p.engine i).toInt
  ended : ∀ i < k, leading (Engine.counts p.engine) ≤ i → (p.steps i).step.result = .ended
  /-- Each frame is computed right after the calls of the hook, and one more at the end. -/
  calls : ∃ n : ℕ, (n : ℕ∞) = min (k : ℕ∞) (leading (Engine.counts p.engine) + 1) ∧
    (p.steps k).engine = p.round^[n] p.engine ∧
    (p.steps k).engine.log = p.engine.log ++ p.roundCalls marks n
  frames : ((p.steps k).frames : ℕ∞) = min (k : ℕ∞) (leading (Engine.counts p.engine))
  playing : k ≤ leading (Engine.counts p.engine) → (p.steps k).session = .playing
  /-- After the end steps do nothing at all, until a track is started. -/
  afterwards : leading (Engine.counts p.engine) < k → (p.steps k).session = .ended ∧
    ∀ operations, (p.steps k).NothingBegins operations →
      let q := (p.steps k).run operations
      q.step.result = .ended ∧ ∀ n, q.steps n = q

/-- **Stepping through a track.**  From a start that succeeds, with any hook that leaves
    the stream of frames alone, every number of steps yields the frames of the track, in
    order, and then its end. -/
theorem steps_of_started [Host η] {p₀ : Player (Recorded ε EngineEvent) η} {options : TrackOptions}
    (started : (p₀.start options).result = .ok 0)
    (apart : ∀ r, Engine.counts (p₀.hook r) = Engine.counts r)
    {marks : Recorded ε EngineEvent → List EngineEvent}
    (logged : ∀ r, (p₀.hook r).log = r.log ++ marks r) (k : ℕ) :
    (p₀.start options).player.Stepped marks k := by
  obtain ⟨hs, hframes, hhook⟩ := playing_of_started started
  generalize (p₀.start options).player = p at hs hframes hhook
  rw [← hhook] at apart logged
  have hcalls {n : ℕ} {session : Session} {frames : ℕ}
      (h : Advanced p (p.steps k) session n frames) :
      (p.steps k).engine = p.round^[n] p.engine ∧
        (p.steps k).engine.log = p.engine.log ++ p.roundCalls marks n :=
    ⟨h.engine_eq, by rw [h.engine_eq, log_rounds logged]⟩
  -- the track goes on, or has ended after `j` frames
  rcases steps_cases apart hs k with ⟨hk, hp⟩ | ⟨j, hjk, hj, hp⟩
  · have hmore : (k : ℕ∞) ≤ leading (Engine.counts p.engine) + 1 := le_trans hk le_self_add
    exact {
      frame := fun i _ => step_of_lt_leading apart hs
      ended := fun i _ => step_of_leading_le apart hs
      calls := ⟨k, (min_eq_left hmore).symm, hcalls hp⟩
      frames := by rw [hp.frames_eq, hframes, Nat.zero_add, min_eq_left hk]
      playing := fun _ => hp.session_eq
      afterwards := fun hlt => absurd hlt (not_lt.2 hk) }
  · have hlt : leading (Engine.counts p.engine) < k := by rw [hj]; exact Nat.cast_lt.2 hjk
    have hover : (p.steps k).session ≠ .playing := by rw [hp.session_eq]; decide
    refine {
      frame := fun i _ => step_of_lt_leading apart hs
      ended := fun i _ => step_of_leading_le apart hs
      calls := ⟨j + 1, ?_, hcalls hp⟩
      frames := by rw [hp.frames_eq, hframes, Nat.zero_add, min_eq_right hlt.le, hj]
      playing := fun hk => absurd hlt (not_lt.2 hk)
      afterwards := fun _ => ⟨hp.session_eq, fun operations hbegins => ?_⟩ }
    · rw [min_eq_right (Order.add_one_le_of_lt hlt), hj, Nat.cast_succ]
    · have hq := run_not_playing hover hbegins
      exact ⟨by rw [step_of_not_playing hq], steps_of_not_playing hq⟩

end Player

/-- The frames of a scripted engine are those of its script, and then silence. -/
theorem Scripted.counts_eq (r : Recorded Scripted EngineEvent) (i : ℕ) :
    Engine.counts r i = (r.state.script[i]?.map (·.samples)).getD 0 := by
  induction i generalizing r with
  | zero =>
    show r.state.compute.1.samples = _
    unfold compute
    split <;> rename_i hscript <;> rw [hscript] <;> rfl
  | succ i ih =>
    have hscript : (Engine.after .compute r).state.script = r.state.script.tail := by
      show r.state.compute.2.script = _
      unfold compute
      split <;> rename_i hscript <;> rw [hscript] <;> rfl
    rw [← Engine.counts_after, ih, hscript, List.getElem?_tail]

namespace Player

/-- A script of two frames, of which one more comes after the end. -/
def shortScript : List ScriptFrame :=
  [882, 441, -1, 882].map fun samples => ⟨samples, 0, 0, Scripted.field "NONE", none⟩

theorem steps_of_started_short :
    let hook : Recorded Scripted EngineEvent → Recorded Scripted EngineEvent :=
      Engine.after (.setRam 2 1)
    let p₀ := ((watched { Scripted.initial with script := shortScript }).setHook hook).run
      [.load 44100 "tune.sid" [7]]
    let p := (p₀.start {}).player
    (p₀.start {}).result = .ok 0 ∧ (∀ r, Engine.counts (hook r) = Engine.counts r) ∧
      (∀ r, (hook r).log = r.log ++ [⟨.setRam 2 1, ()⟩]) ∧
      leading (Engine.counts p.engine) = 2 ∧ (p.steps 4).session = .ended ∧
      (p.steps 4).frames = 2 := by
  intro hook p₀ p
  have hapart : ∀ r, Engine.counts (hook r) = Engine.counts r := by
    intro r
    funext i
    rw [Scripted.counts_eq, Scripted.counts_eq]; rfl
  have hlogged : ∀ r, (hook r).log = r.log ++ [⟨.setRam 2 1, ()⟩] :=
    fun r => Recorded.log_after (.setRam 2 1) r
  have hstarted : (p₀.start {}).result = .ok 0 := rfl
  have hcounts : ∀ i, Engine.counts p.engine i = (shortScript[i]?.map (·.samples)).getD 0 :=
    Scripted.counts_eq p.engine
  have hleading : leading (Engine.counts p.engine) = 2 := by
    refine le_antisymm (iInf₂_le 2 ?_) (le_leading_iff.2 fun i hi => ?_)
    · rw [hcounts]; decide
    · rw [hcounts]
      interval_cases i <;> decide
  have hstepped := steps_of_started hstarted hapart hlogged 4
  have hlt : leading (Engine.counts p.engine) < (4 : ℕ) := by
    rw [hleading]; exact Nat.cast_lt.2 (by decide : 2 < 4)
  have hframes : ((p.steps 4).frames : ℕ∞) = (2 : ℕ) :=
    hstepped.frames.trans (by rw [hleading]; rfl)
  exact ⟨hstarted, hapart, hlogged, hleading, (hstepped.afterwards hlt).1,
    Nat.cast_inj.1 hframes⟩

end Player
end SidPlayback
