/-
  Recordings of a track.

  Playing so many frames is stepping until they are there or the track has ended.  A recording
  plays, and its file holds the sound of the frames that were played.

  * `Player.play` plays, and `Player.play_add` says that it can be interrupted;
  * `Player.soundtrack` is the sound of the frames that the track has, and
    `Player.play_counts` says that these are what is played, from the first one on;
  * `Player.record_file`: a recording in a file that can be written is what is played;
  * `Player.recording_exact`: a recording holds exactly the frames of the track;
  * `Player.recording_splits`: two recordings, one after the other, are one.
-/
import SidPlayback.Proofs.Player.Frames
import SidPlayback.Proofs.Wave.Capture

namespace SidPlayback

/-! ## Playing -/

/-- Whether a call computes a frame. -/
def EngineCall.isCompute : EngineCall → Bool
  | compute => true
  | _ => false

/-- How often a frame was computed. -/
def Recorded.computed {ε : Type} (r : Recorded ε EngineEvent) : ℕ :=
  r.log.countP (·.call.isCompute)

/-- What was played: the sound of each frame, and the player afterwards. -/
structure Played (ε η : Type) where
  sounds : List (List Int16)
  player : Player ε η

/-- The samples of all frames, one frame after the other. -/
def Played.samples {ε η : Type} (played : Played ε η) : List Int16 := played.sounds.flatten

namespace Player

variable {ε η : Type} [Engine ε]

/-- Steps until `limit` frames are there or the track has ended. -/
def play (p : Player ε η) : ℕ → Played ε η
  | 0 => ⟨[], p⟩
  | limit + 1 =>
    match p.step.result with
    | .ended => ⟨[], p.step.player⟩
    | .frame _ =>
      let rest := p.step.player.play limit
      ⟨Engine.sound p.step.player.engine :: rest.sounds, rest.player⟩

section
variable {p : Player ε η}

theorem play_of_ended (h : p.step.result = .ended) (limit : ℕ) :
    p.play (limit + 1) = ⟨[], p.step.player⟩ := by
  rw [play, h]

theorem play_of_frame {n : UInt32} (h : p.step.result = .frame n) (limit : ℕ) :
    p.play (limit + 1) =
      ⟨Engine.sound p.step.player.engine :: (p.step.player.play limit).sounds,
        (p.step.player.play limit).player⟩ := by
  rw [play, h]

theorem play_of_not_playing (h : p.session ≠ .playing) (limit : ℕ) : p.play limit = ⟨[], p⟩ := by
  cases limit with
  | zero => rfl
  | succ limit => rw [play, step_of_not_playing h]

theorem not_playing_of_ended (h : p.step.result = .ended) : p.step.player.session ≠ .playing := by
  by_cases hs : p.session = .playing
  · rw [step_of_call hs rfl] at h ⊢
    split at h
    · rw [if_pos ‹_›]
      exact nofun
    · cases h
  · rw [step_of_not_playing hs]
    exact hs

/-- **Playing can be interrupted.** -/
theorem play_add (p : Player ε η) (m k : ℕ) :
    p.play (m + k) = ⟨(p.play m).sounds ++ ((p.play m).player.play k).sounds,
      ((p.play m).player.play k).player⟩ := by
  induction m generalizing p with
  | zero => rw [Nat.zero_add]; rfl
  | succ m ih =>
    rw [Nat.succ_add]
    cases h : p.step.result with
    | ended =>
      -- the second part finds a track that has ended, and does nothing
      rw [play_of_ended h, play_of_ended h, play_of_not_playing (not_playing_of_ended h)]
      rfl
    | frame n => rw [play_of_frame h, play_of_frame h, ih]; rfl

theorem play_player (p : Player ε η) (limit : ℕ) : (p.play limit).player = p.steps limit := by
  induction limit generalizing p with
  | zero => rfl
  | succ limit ih =>
    rw [steps]
    cases h : p.step.result with
    | ended => rw [play_of_ended h, steps_of_not_playing (not_playing_of_ended h)]
    | frame n => rw [play_of_frame h, ih]

/-! ### The frames of a track -/

/-- The sound of a frame of the track, as it is after so many rounds. -/
def frameSound (p : Player ε η) (i : ℕ) : List Int16 := Engine.sound (p.round^[i + 1] p.engine)

/-- The sound of the first `n` frames of the track, one after the other. -/
def soundtrack (p : Player ε η) (n : ℕ) : List Int16 := (List.range n).flatMap p.frameSound

theorem even_soundtrack {n : ℕ} (h : ∀ i < n, Even (p.frameSound i).length) :
    Even (p.soundtrack n).length := by
  induction n with
  | zero => exact Even.zero
  | succ n ih =>
    rw [soundtrack, List.range_succ, List.flatMap_append, List.flatMap_singleton,
      List.length_append]
    exact (ih fun i hi => h i (Nat.lt_succ_of_lt hi)).add (h n (Nat.lt_succ_self n))

theorem sounds_playing (h : p.session = .playing) {k : ℕ} (hpos : ∀ i < k, 0 < p.counts i) :
    (p.play k).sounds = (List.range k).map p.frameSound := by
  induction k with
  | zero => rfl
  | succ k ih =>
    have hbefore := p.steps_playing h fun i hi => hpos i (Nat.lt_succ_of_lt hi)
    obtain ⟨hframe, hafter⟩ := hbefore.step.1 (hpos k (Nat.lt_succ_self k))
    rw [play_add, ih fun i hi => hpos i (Nat.lt_succ_of_lt hi), play_player, play_of_frame hframe,
      hafter.engine_eq, List.range_succ, List.map_append]
    rfl

/-- **What is played are the frames of the track**, up to the first without samples. -/
theorem play_counts (h : p.session = .playing) (limit : ℕ) :
    ∃ j : ℕ, (j : ℕ∞) = min (limit : ℕ∞) (leading p.counts) ∧
      (p.play limit).sounds = (List.range j).map p.frameSound ∧
      Advanced p (p.play limit).player (if j = limit then .playing else .ended)
        (if j = limit then j else j + 1) j := by
  rw [play_player]
  rcases p.steps_counts h limit with ⟨hle, hp⟩ | ⟨j, hj, hleading, hp⟩
  · refine ⟨limit, (min_eq_left hle).symm, sounds_playing h (le_leading_iff.1 hle), ?_⟩
    rw [if_pos rfl, if_pos rfl]
    exact hp
  · have hlt : leading p.counts < limit := by rw [hleading]; exact Nat.cast_lt.2 hj
    refine ⟨j, by rw [min_eq_right hlt.le, hleading], ?_, ?_⟩
    · obtain ⟨m, rfl⟩ := Nat.exists_eq_add_of_lt hj
      obtain ⟨j', -, hj', hpos, hend⟩ := exists_leading_eq hlt
      obtain rfl : j' = j := Nat.cast_inj.1 (hj'.symm.trans hleading)
      have hended := ((p.steps_playing h hpos).step.2 hend).1
      rw [Nat.add_assoc, play_add, sounds_playing h hpos, play_player, play_of_ended hended]
      exact List.append_nil _
    · rw [if_neg hj.ne, if_neg hj.ne]
      exact hp

/-- Nothing is played, and nothing done, if no track runs. -/
theorem play_frames (p : Player ε η) (limit : ℕ) :
    ∃ j : ℕ, (j : ℕ∞) = (if p.session = .playing then min (limit : ℕ∞) (leading p.counts) else 0) ∧
      (p.play limit).sounds = (List.range j).map p.frameSound ∧
      (p.session = .playing → Advanced p (p.play limit).player
        (if j = limit then .playing else .ended) (if j = limit then j else j + 1) j) ∧
      (p.session ≠ .playing → (p.play limit).player = p) := by
  by_cases h : p.session = .playing
  · rw [if_pos h]
    obtain ⟨j, hj, hsounds, hadvanced⟩ := play_counts h limit
    exact ⟨j, hj, hsounds, fun _ => hadvanced, fun hs => absurd h hs⟩
  · rw [if_neg h, play_of_not_playing h]
    exact ⟨0, rfl, rfl, fun hs => absurd hs h, fun _ => rfl⟩

theorem samples_of_sounds {limit j : ℕ}
    (h : (p.play limit).sounds = (List.range j).map p.frameSound) :
    (p.play limit).samples = p.soundtrack j := by
  rw [Played.samples, h, soundtrack, List.flatMap_def]

theorem even_samples (h : ∀ i : ℕ, (i : ℕ∞) < leading p.counts → Even (p.frameSound i).length)
    (limit : ℕ) : Even (p.play limit).samples.length := by
  obtain ⟨j, hj, hsounds, -, -⟩ := p.play_frames limit
  rw [samples_of_sounds hsounds]
  have hle : (j : ℕ∞) ≤ leading p.counts := by
    rw [hj]
    split
    · exact min_le_right _ _
    · exact bot_le
  exact even_soundtrack fun i hi => h i (lt_of_lt_of_le (Nat.cast_lt.2 hi) hle)

theorem steps_rates (p : Player ε η) (n : ℕ) : (p.steps n).rates = p.rates := by
  induction n with
  | zero => rfl
  | succ n ih =>
    rw [steps_succ, ← ih]
    rcases (p.steps n).step_cases with
      ⟨-, hp⟩ | ⟨-, answer, engine, -, ⟨-, hp⟩ | ⟨-, rate, label, digiStatus, latency, hp⟩⟩ <;>
      rw [hp]

end

/-! ## Recording -/

theorem recordFrames_file (capture : Wave.Capture) (h : capture.medium = .file)
    (limit frames : ℕ) (p : Player ε η) :
    (recordFrames limit frames capture p).result = .ok (frames + (p.play limit).sounds.length,
        { capture with samples := capture.samples ++ (p.play limit).samples }) ∧
      (recordFrames limit frames capture p).player = (p.play limit).player := by
  induction limit generalizing frames capture p with
  | zero => exact ⟨by simp [recordFrames, play, Played.samples], rfl⟩
  | succ limit ih =>
    cases hresult : p.step.result with
    | ended =>
      rw [play_of_ended hresult]
      simp [recordFrames, hresult, Played.samples]
    | frame n =>
      let sound := Engine.sound p.step.player.engine
      obtain ⟨hframes, hplayer⟩ :=
        ih { capture with samples := capture.samples ++ sound } h (frames + 1) p.step.player
      rw [play_of_frame hresult]
      simp only [recordFrames, hresult, Wave.Capture.append_file h]
      refine ⟨hframes.trans ?_, hplayer⟩
      rw [Wave.Capture.samples_append, Nat.add_assoc, Nat.add_comm 1]
      rfl

/-- A recording in a file that can be written is what is played. -/
theorem record_file {p : Player ε η} {rates : Rates} (hrates : p.rates = some rates)
    {destination : Wave.Destination} (hmedium : destination.medium = .file) (limit : ℕ) :
    (p.record destination limit).result =
        (if Even (p.play limit).samples.length then
          .ok ⟨(p.play limit).sounds.length, Wave.encode rates.engine (p.play limit).samples⟩
        else .error Wave.Fault.oddSamples.failure) ∧
      (p.record destination limit).player = (p.play limit).player := by
  obtain ⟨hframes, hplayer⟩ := recordFrames_file ⟨.file, rates.engine, #[]⟩ rfl limit 0 p
  have hsamples : (#[] : Array Int16) ++ (p.play limit).samples = (p.play limit).samples.toArray :=
    by simp
  rw [Nat.zero_add, hsamples] at hframes
  simp only [record, hrates, hmedium, Wave.Capture.create, hframes]
  rw [Wave.Capture.finish_file rfl, List.size_toArray]
  by_cases heven : Even (p.play limit).samples.length
  · rw [if_pos heven, if_pos heven]
    exact ⟨rfl, hplayer⟩
  · rw [if_neg heven, if_neg heven]
    exact ⟨rfl, hplayer⟩

/-! ### What a recording holds -/

section
variable {p : Player (Recorded ε EngineEvent) η}

/-- One frame is computed in a round, if the hook computes none. -/
theorem computed_rounds (hhook : Recorded.MakesOnly (·.isCompute = false) p.hook) (n : ℕ)
    (r : Recorded ε EngineEvent) : (p.round^[n] r).computed = r.computed + n := by
  induction n with
  | zero => rfl
  | succ n ih =>
    obtain ⟨events, hlog, hother⟩ := hhook (p.round^[n] r)
    have hevents : events.countP (·.call.isCompute) = 0 :=
      List.countP_eq_zero.2 fun event he => by rw [hother event he]; exact Bool.false_ne_true
    rw [Function.iterate_succ_apply', round, Recorded.computed, Recorded.log_after, hlog,
      List.countP_append, List.countP_append, hevents, ← Nat.add_assoc, ← ih]
    rfl

/-- What a recording of at most `limit` frames holds, and what it does to the player. -/
structure RecordsFrames (p : Player (Recorded ε EngineEvent) η) (rates : Rates)
    (destination : Wave.Destination) (limit j : ℕ) : Prop where
  /-- While a track runs there are frames up to the first without samples. -/
  frames_eq : (j : ℕ∞) = if p.session = .playing then min (limit : ℕ∞) (leading p.counts) else 0
  /-- All samples of these frames are captured, and no others. -/
  captured : (recordFrames limit 0 ⟨.file, rates.engine, #[]⟩ p).result =
    .ok (j, ⟨.file, rates.engine, (p.soundtrack j).toArray⟩)
  file : Even (p.soundtrack j).length → 2 * (p.soundtrack j).length < 2 ^ 32 - 36 →
    ∃ file, (p.record destination limit).result = .ok ⟨j, file⟩ ∧
      Wave.read file = some ⟨2, rates.engine.toNat, p.soundtrack j⟩
  odd : ¬ Even (p.soundtrack j).length →
    (p.record destination limit).result = .error (.audioFile Wave.Fault.oddSamples.message)
  /-- The first frame without samples is computed, if it is met. -/
  computed : Recorded.MakesOnly (·.isCompute = false) p.hook →
    (p.record destination limit).player.engine.computed =
      p.engine.computed + if j = limit ∨ p.session ≠ .playing then j else j + 1
  playing : p.session = .playing → Advanced p (p.record destination limit).player
    (if j = limit then .playing else .ended) (if j = limit then j else j + 1) j
  unchanged : p.session ≠ .playing → (p.record destination limit).player = p

/-- **A recording holds exactly the frames of the track.** -/
theorem recording_exact {rates : Rates} (hrates : p.rates = some rates)
    (hrate : rates.engine.toNat ≤ 1073741823) (destination : Wave.Destination)
    (hmedium : destination.medium = .file) (limit : ℕ) :
    ∃ j, p.RecordsFrames rates destination limit j := by
  obtain ⟨hresult, hplayer⟩ := record_file hrates hmedium limit
  have hcaptured := (recordFrames_file ⟨.file, rates.engine, #[]⟩ rfl limit 0 p).1
  obtain ⟨j, hj, hsounds, hadvanced, hsame⟩ := p.play_frames limit
  rw [samples_of_sounds hsounds, hsounds, List.length_map, List.length_range] at hresult hcaptured
  rw [← hplayer] at hadvanced hsame
  refine ⟨j, {
    frames_eq := hj
    captured := ?_
    file := fun heven hsize => ?_
    odd := fun hodd => by rw [hresult, if_neg hodd]; rfl
    computed := fun hhook => ?_
    playing := hadvanced
    unchanged := hsame }⟩
  · rw [hcaptured, Nat.zero_add]
    simp
  · rw [hresult, if_pos heven]
    exact ⟨_, rfl, Wave.read_encode hrate heven hsize⟩
  · by_cases hs : p.session = .playing
    · rw [(hadvanced hs).engine_eq, computed_rounds hhook]
      simp only [hs, ne_eq, not_true_eq_false, or_false]
    · obtain rfl : j = 0 := Nat.cast_eq_zero.1 (hj.trans (if_neg hs))
      rw [hsame hs, if_pos (.inr hs)]
      rfl

/-- Two frames with sound; then the track ends, and one more frame would follow. -/
def soundScript : List ScriptFrame :=
  [(2, [1, -1]), (4, [2, -2, 32767, -32768]), (0, []), (2, [3, -3])].map fun (samples, sound) =>
    ⟨samples, 0, 0, Scripted.field "NONE", some sound⟩

/-- A player that plays them. -/
def sounding : Player (Recorded Scripted EngineEvent) (Recorded ScriptedHost HostCall) :=
  (watched { Scripted.initial with script := soundScript }).run
    [.load 44100 "tune.sid" [7], .start {}]

theorem leading_sounding : leading sounding.counts = 2 := by
  have hcounts : ∀ i, sounding.counts i = (soundScript[i]?.map (·.samples)).getD 0 := by
    intro i
    rw [counts_eq fun _ => rfl, Scripted.counts_eq]
    rfl
  refine leading_eq (fun i hi => ?_) ?_
  · rw [hcounts]
    interval_cases i <;> decide
  · rw [hcounts]
    decide

theorem recording_exact_short :
    sounding.rates = some ⟨48000, 44100⟩ ∧ (48000 : UInt32).toNat ≤ 1073741823 ∧
      sounding.RecordsFrames ⟨48000, 44100⟩ ⟨"out.wav", .file⟩ 9 2 ∧
      sounding.soundtrack 2 = [1, -1, 2, -2, 32767, -32768] := by
  have hrates : sounding.rates = some ⟨48000, 44100⟩ := rfl
  have hrate : (48000 : UInt32).toNat ≤ 1073741823 := by decide
  obtain ⟨j, h⟩ := recording_exact hrates hrate ⟨"out.wav", .file⟩ rfl 9
  have hplaying : sounding.session = .playing := rfl
  have hj := h.frames_eq
  rw [if_pos hplaying, leading_sounding] at hj
  obtain rfl : j = 2 := Nat.cast_inj.1 (hj.trans (by decide))
  exact ⟨hrates, hrate, h, rfl⟩

end

/-! ### Recordings in parts -/

section
variable {p : Player ε η} {rates : Rates}

/-- A recording of frames of even length succeeds, and is what is played. -/
theorem record_even (hrates : p.rates = some rates) (hrate : rates.engine.toNat ≤ 1073741823)
    {destination : Wave.Destination} (hmedium : destination.medium = .file) {limit : ℕ}
    (heven : Even (p.play limit).samples.length)
    (hsize : 2 * (p.play limit).samples.length < 2 ^ 32 - 36) :
    ∃ file, (p.record destination limit).result = .ok ⟨(p.play limit).sounds.length, file⟩ ∧
      Wave.read file = some ⟨2, rates.engine.toNat, (p.play limit).samples⟩ := by
  rw [(record_file hrates hmedium limit).1, if_pos heven]
  exact ⟨_, rfl, Wave.read_encode hrate heven hsize⟩

/-- **Recordings can be split.**  Two recordings, one after the other, hold what a single
    one holds, and leave the player as that does: as it is after as many steps as yield
    the frames, or after the end of the track. -/
theorem recording_splits (hrates : p.rates = some rates)
    (hrate : rates.engine.toNat ≤ 1073741823)
    (heven : ∀ i : ℕ, (i : ℕ∞) < leading p.counts → Even (p.frameSound i).length)
    (first second whole : Wave.Destination) (hfirst : first.medium = .file)
    (hsecond : second.medium = .file) (hwhole : whole.medium = .file) (m k : ℕ)
    (hsize : 2 * (p.play (m + k)).samples.length < 2 ^ 32 - 36) :
    let one := p.record first m
    let two := one.player.record second k
    let both := p.record whole (m + k)
    two.player = both.player ∧ both.player = (p.play (m + k)).player ∧
      ∃ r₁ r₂ r s₁ s₂, one.result = .ok r₁ ∧ two.result = .ok r₂ ∧ both.result = .ok r ∧
        r₁.frames + r₂.frames = r.frames ∧
        Wave.read r₁.file = some ⟨2, rates.engine.toNat, s₁⟩ ∧
        Wave.read r₂.file = some ⟨2, rates.engine.toNat, s₂⟩ ∧
        Wave.read r.file = some ⟨2, rates.engine.toNat, s₁ ++ s₂⟩ := by
  intro one two both
  have hone : one.player = (p.play m).player := (record_file hrates hfirst m).2
  have hboth : both.player = (p.play (m + k)).player := (record_file hrates hwhole (m + k)).2
  have hafter : one.player.rates = some rates := by rw [hone, play_player, steps_rates, hrates]
  have htwo : two.player = (one.player.play k).player := (record_file hafter hsecond k).2
  -- the second recording plays on from where the first one stopped
  have hplay := p.play_add m k
  rw [← hone] at hplay
  have hsamples : (p.play (m + k)).samples = (p.play m).samples ++ (one.player.play k).samples := by
    rw [hplay, Played.samples, List.flatten_append]
    rfl
  have heven₁ : Even (p.play m).samples.length := even_samples heven m
  have hevenBoth : Even (p.play (m + k)).samples.length := even_samples heven (m + k)
  have hlength := congrArg List.length hsamples
  rw [List.length_append] at hlength
  have heven₂ : Even (one.player.play k).samples.length := by
    rw [hlength, Nat.even_add] at hevenBoth
    exact hevenBoth.1 heven₁
  obtain ⟨file₁, hresult₁, hread₁⟩ := record_even hrates hrate hfirst heven₁ (by omega)
  obtain ⟨file₂, hresult₂, hread₂⟩ := record_even hafter hrate hsecond heven₂ (by omega)
  obtain ⟨file, hresult, hread⟩ := record_even hrates hrate hwhole hevenBoth hsize
  refine ⟨?_, hboth, _, _, _, _, _, hresult₁, hresult₂, hresult, ?_, hread₁, hread₂, ?_⟩
  · rw [htwo, hboth, hplay]
  · rw [hplay, List.length_append]
  · rw [hread, hsamples]

theorem recording_splits_short :
    let one := sounding.record ⟨"one.wav", .file⟩ 1
    let two := one.player.record ⟨"two.wav", .file⟩ 8
    let both := sounding.record ⟨"both.wav", .file⟩ 9
    two.player = both.player ∧
      ∃ r₁ r₂ r s₁ s₂, one.result = .ok r₁ ∧ two.result = .ok r₂ ∧ both.result = .ok r ∧
        r₁.frames + r₂.frames = r.frames ∧ Wave.read r₁.file = some ⟨2, 48000, s₁⟩ ∧
        Wave.read r₂.file = some ⟨2, 48000, s₂⟩ ∧ Wave.read r.file = some ⟨2, 48000, s₁ ++ s₂⟩ := by
  have hrates : sounding.rates = some ⟨48000, 44100⟩ := rfl
  have hrate : (48000 : UInt32).toNat ≤ 1073741823 := by decide
  have heven : ∀ i : ℕ, (i : ℕ∞) < leading sounding.counts →
      Even (sounding.frameSound i).length := by
    intro i hi
    rw [leading_sounding] at hi
    have hi : i < 2 := Nat.cast_lt.1 hi
    interval_cases i
    · exact ⟨1, rfl⟩
    · exact ⟨2, rfl⟩
  have hlength : (sounding.play 9).samples.length = 6 := rfl
  have hsize : 2 * (sounding.play (1 + 8)).samples.length < 2 ^ 32 - 36 := by
    rw [hlength]; decide
  obtain ⟨hplayer, -, hparts⟩ := recording_splits hrates hrate heven ⟨"one.wav", .file⟩
    ⟨"two.wav", .file⟩ ⟨"both.wav", .file⟩ rfl rfl rfl 1 8 hsize
  exact ⟨hplayer, hparts⟩

end

end Player
end SidPlayback
