/-
  What becomes of positions while the panning waits.

  A panning of all voices waits until the engine is ready, but the position of a
  single voice does not.  So the panning that waited replaces positions that were
  asked for after it.

  * `StoresPanning` are the engines that store what they are told of positions;
  * `written` is what operations make of the positions if nothing waits;
  * `Player.panning_deferred`: with a late engine the last panning that was accepted
    is all that counts, so the engine agrees with one that was ready if nothing was
    asked for single voices after it;
  * `Player.panning_replaced`: otherwise it may not.
-/
import SidPlayback.Proofs.Player.Delivery

namespace SidPlayback

/-! ## Engines that store positions -/

/-- An engine that stores positions as it is told, in a table with a place for each
    voice.  Voices may share a place, or have none. -/
class StoresPanning (ε : Type) [Engine ε] where
  positions : ε → List Float32
  place : UInt8 → UInt8 → Nat
  /-- What is read of a voice that has no place. -/
  outside : Float32
  panning_eq (engine : ε) (chip voice : UInt8) :
    Engine.panning engine chip voice = (positions engine).getD (place chip voice) outside
  initPanning (engine : ε) (panning : Panning) :
    positions (Engine.after (.initPanning panning) engine) = panning.values
  setPanning (engine : ε) (chip voice : UInt8) (position : Float32) :
    positions (Engine.after (.setPanning chip voice position) engine) =
      (positions engine).set (place chip voice) position

instance : StoresPanning Scripted where
  positions s := s.panning
  place := Scripted.voiceIndex
  outside := -1.0
  panning_eq _ _ _ := rfl
  initPanning _ _ := rfl
  setPanning _ _ _ _ := rfl

/-! ## Operations on positions -/

/-- Whether an operation asks for positions, of all voices or of a single one. -/
def Operation.isPlacement : Operation → Bool
  | .applyPanning _ | .adjust (.panning _ _ _) => true
  | _ => false

/-- The operations that a player performs on positions when it is made. -/
def Settings.placements (settings : Settings) : List Operation :=
  settings.panning.toList.map .applyPanning

/-- What an operation makes of the positions if it does not have to wait. -/
def written (place : UInt8 → UInt8 → Nat) (table : List Float32) : Operation → List Float32
  | .applyPanning values => if Panning.Accepted values then values else table
  | .adjust (.panning chip voice position) =>
    table.set (place chip voice) (clampPosition position)
  | _ => table

/-- Nothing is asked for single voices once a panning was accepted. -/
abbrev Settled (operations : List Operation) : Prop :=
  operations.Pairwise fun o later => accepted [o] = [] ∨ ∃ values, later = .applyPanning values

theorem Operation.placement_cases {o : Operation} (h : o.isPlacement = true) :
    (∃ values, o = .applyPanning values) ∨
      ∃ chip voice position, o = .adjust (.panning chip voice position) := by
  cases o with
  | applyPanning values => exact .inl ⟨values, rfl⟩
  | adjust control =>
    cases control with
    | panning chip voice position => exact .inr ⟨chip, voice, position, rfl⟩
    | _ => cases h
  | _ => cases h

theorem Settings.isPlacement_placements (settings : Settings) :
    ∀ o ∈ settings.placements, o.isPlacement = true := by
  intro o ho
  obtain ⟨values, -, rfl⟩ := List.mem_map.1 ho
  rfl

theorem accepted_cons (o : Operation) (rest : List Operation) :
    accepted (o :: rest) = accepted [o] ++ accepted rest := by
  rw [← accepted_append, List.singleton_append]

section
variable {place : UInt8 → UInt8 → Nat}

/-- When only whole pannings are asked for, the last accepted one is written. -/
theorem foldl_written_of_pannings {operations : List Operation}
    (h : ∀ o ∈ operations, ∃ values, o = .applyPanning values) (table : List Float32) :
    operations.foldl (written place) table = (accepted operations).getLast?.getD table := by
  induction operations generalizing table with
  | nil => rfl
  | cons o rest ih =>
    obtain ⟨values, rfl⟩ := h o List.mem_cons_self
    rw [List.foldl_cons, ih fun o ho => h o (List.mem_cons_of_mem _ ho), accepted_cons,
      accepted_applyPanning, List.getLast?_append]
    by_cases hok : Panning.Accepted values
    · simp only [written, if_pos hok]
      cases (accepted rest).getLast? <;> rfl
    · simp only [written, if_neg hok]
      cases (accepted rest).getLast? <;> rfl

/-- **In that order** the last panning that is accepted is what remains. -/
theorem Settled.foldl_written {operations : List Operation} (h : Settled operations)
    (table : List Float32) : operations.foldl (written place) table =
      (accepted operations).getLast?.getD (operations.foldl (written place) table) := by
  induction operations generalizing table with
  | nil => rfl
  | cons o rest ih =>
    obtain ⟨hfirst, hrest⟩ := List.pairwise_cons.1 h
    by_cases hnone : accepted [o] = []
    · rw [List.foldl_cons, accepted_cons, hnone, List.nil_append]
      exact ih hrest _
    · have hpannings : ∀ later ∈ rest, ∃ values, later = .applyPanning values :=
        fun later hlater => (hfirst later hlater).resolve_left hnone
      have ho : ∃ values, o = .applyPanning values := by
        rcases o.panning_cases with rfl | hvalues | ⟨-, hpanning⟩
        · exact absurd rfl hnone
        · exact hvalues
        · exact absurd (accepted_of_none hpanning) hnone
      have hall : ∀ o' ∈ o :: rest, ∃ values, o' = .applyPanning values :=
        List.forall_mem_cons.2 ⟨ho, hpannings⟩
      rw [foldl_written_of_pannings hall]
      cases (accepted (o :: rest)).getLast? <;> rfl

end

namespace Player

variable {ε η : Type} [Engine ε]

section
variable [Host η]

theorem run_append (p : Player ε η) (operations more : List Operation) :
    p.run (operations ++ more) = (p.run operations).run more := List.foldl_append

theorem createWith_player (engine : ε) (host : η) (roms : Rom.Bank) (settings : Settings) :
    (createWith engine host roms settings).player =
      ((create engine host roms).player.enableScope settings.scope).run settings.placements := by
  rcases settings with ⟨scope, panning⟩
  cases panning <;> rfl

end

section
variable [StoresPanning ε]
open StoresPanning

/-! ## An engine that is ready -/

theorem perform_written [Host η] {p : Player ε η} (hl : p.lifecycle = .ready) {o : Operation}
    (ho : o.isPlacement = true) :
    (p.perform o).player.lifecycle = .ready ∧
      positions (p.perform o).player.engine = written (place ε) (positions p.engine) o := by
  rcases Operation.placement_cases ho with ⟨values, rfl⟩ | ⟨chip, voice, position, rfl⟩
  · show (p.applyPanning values).player.lifecycle = _ ∧ positions (p.applyPanning values).player.engine
      = if Panning.Accepted values then values else positions p.engine
    rcases p.applyPanning_cases values with
      ⟨hno, hp⟩ | ⟨hok, panning, rfl, ⟨-, hp⟩ | ⟨hwaits, -⟩⟩
    · rw [hp, if_neg hno]; exact ⟨hl, rfl⟩
    · rw [hp, if_pos hok]; exact ⟨hl, initPanning _ _⟩
    · cases hl.symm.trans hwaits
  · exact ⟨hl, setPanning _ _ _ _⟩

/-- **An engine that is ready** is told of every position at once. -/
theorem run_written [Host η] {p : Player ε η} (hl : p.lifecycle = .ready)
    {operations : List Operation} (h : ∀ o ∈ operations, o.isPlacement = true) :
    positions (p.run operations).engine =
      operations.foldl (written (place ε)) (positions p.engine) := by
  induction operations generalizing p with
  | nil => rfl
  | cons o rest ih =>
    obtain ⟨hnext, hwritten⟩ := perform_written hl (h o List.mem_cons_self)
    refine (ih hnext fun o' ho' => h o' (List.mem_cons_of_mem o ho')).trans ?_
    rw [hwritten, List.foldl_cons]

/-! ## An engine that is not ready yet -/

/-- While operations lead from `p` to `q` the panning that was accepted last waits,
    and if there is none everything was written at once. -/
structure Defers (p q : Player ε η) (operations : List Operation) : Prop where
  lifecycle : q.lifecycle = .uninitialized
  pending : q.pendingPanning.map (·.values) =
    (accepted operations).getLast?.or (p.pendingPanning.map (·.values))
  positions_eq : accepted operations = [] →
    positions q.engine = operations.foldl (written (place ε)) (positions p.engine)

theorem perform_defers [Host η] {p : Player ε η} (hl : p.lifecycle = .uninitialized)
    {o : Operation} (ho : o.isPlacement = true) : Defers p (p.perform o).player [o] := by
  rcases Operation.placement_cases ho with ⟨values, rfl⟩ | ⟨chip, voice, position, rfl⟩
  · show Defers p (p.applyPanning values).player [.applyPanning values]
    rcases p.applyPanning_cases values with
      ⟨hno, hp⟩ | ⟨hok, panning, rfl, ⟨hready, -⟩ | ⟨-, hp⟩⟩
    · have haccepted : accepted [.applyPanning values] = [] := by
        rw [accepted_applyPanning, if_neg hno]
      rw [hp]
      exact ⟨hl, by rw [haccepted]; rfl, fun _ => (if_neg hno).symm⟩
    · cases hl.symm.trans hready
    · have haccepted : accepted [.applyPanning panning.values] = [panning.values] := by
        rw [accepted_applyPanning, if_pos hok]
      rw [hp]
      exact ⟨hl, by rw [haccepted]; rfl, fun h => by rw [haccepted] at h; cases h⟩
  · exact ⟨hl, by rw [accepted_of_none rfl]; rfl, fun _ => setPanning _ _ _ _⟩

theorem run_defers [Host η] {p : Player ε η} (hl : p.lifecycle = .uninitialized)
    {operations : List Operation} (h : ∀ o ∈ operations, o.isPlacement = true) :
    Defers p (p.run operations) operations := by
  induction operations generalizing p with
  | nil => exact ⟨hl, rfl, fun _ => rfl⟩
  | cons o rest ih =>
    have hfirst := perform_defers hl (h o List.mem_cons_self)
    have hrest := ih hfirst.lifecycle fun o' ho' => h o' (List.mem_cons_of_mem o ho')
    refine ⟨hrest.lifecycle, ?_, fun hnone => ?_⟩
    · rw [accepted_cons, List.getLast?_append, Option.or_assoc, ← hfirst.pending]
      exact hrest.pending
    · rw [accepted_cons, List.append_eq_nil_iff] at hnone
      refine (hrest.positions_eq hnone.2).trans ?_
      rw [hfirst.positions_eq hnone.1]; rfl

theorem positions_notifyReady {p : Player ε η} (hl : p.lifecycle = .uninitialized) :
    positions p.notifyReady.player.engine =
      (p.pendingPanning.map (·.values)).getD (positions p.engine) := by
  rcases p.notifyReady_cases with ⟨hready, -⟩ | ⟨-, ⟨hnone, hp⟩ | ⟨panning, hwaits, hp⟩⟩
  · cases hl.symm.trans hready
  · rw [hp, hnone]; rfl
  · rw [hp, hwaits]
    exact initPanning _ _

/-- **An engine that becomes ready** is given the panning that was accepted last, and
    knows of single voices only if there is none. -/
theorem run_deferred [Host η] {p : Player ε η} (hl : p.lifecycle = .uninitialized)
    (hnone : p.pendingPanning = none) {operations : List Operation}
    (h : ∀ o ∈ operations, o.isPlacement = true) :
    positions (p.run operations).notifyReady.player.engine =
      (accepted operations).getLast?.getD
        (operations.foldl (written (place ε)) (positions p.engine)) := by
  have hdefers := run_defers hl h
  rw [positions_notifyReady hdefers.lifecycle, hdefers.pending, hnone]
  cases hlast : (accepted operations).getLast? with
  | none => exact hdefers.positions_eq (List.getLast?_eq_none_iff.1 hlast)
  | some values => rfl

/-! ## Both together -/

variable [Host η]

/-- **An engine that becomes ready late** has the positions of the panning that was
    accepted last, whatever was asked for single voices after it.  So it agrees with
    an engine that was ready exactly if that one has these positions too, and it does
    agree with it if nothing was asked for single voices once a panning was
    accepted. -/
theorem panning_deferred {engine engine' : ε} (hready : Engine.isReady engine = true)
    (hlate : Engine.isReady engine' = false) (hsame : positions engine' = positions engine)
    (host host' : η) (roms roms' : Rom.Bank) (settings : Settings) {operations : List Operation}
    (h : ∀ o ∈ operations, o.isPlacement = true) :
    let direct := ((createWith engine host roms settings).player.run operations).engine
    let late := ((createWith engine' host' roms' settings).player.run
      operations).notifyReady.player.engine
    let last := (accepted (settings.placements ++ operations)).getLast?
    positions direct =
        (settings.placements ++ operations).foldl (written (place ε)) (positions engine) ∧
      positions late = last.getD (positions direct) ∧
      ((∀ chip voice, Engine.panning late chip voice = Engine.panning direct chip voice) ↔
        ∀ values ∈ last, ∀ chip voice,
          values.getD (place ε chip voice) (outside ε) = Engine.panning direct chip voice) ∧
      (Settled (settings.placements ++ operations) →
        ∀ chip voice, Engine.panning late chip voice = Engine.panning direct chip voice) := by
  intro direct late last
  have hall : ∀ o ∈ settings.placements ++ operations, o.isPlacement = true :=
    List.forall_mem_append.2 ⟨settings.isPlacement_placements, h⟩
  have hdirect : positions direct =
      (settings.placements ++ operations).foldl (written (place ε)) (positions engine) := by
    have hcreate : (create engine host roms).player.lifecycle = .ready ∧
        (create engine host roms).player.engine = engine := by
      simp [create, hready, notifyReady, initial]
    simp only [direct, createWith_player, ← run_append]
    rw [run_written (p := (create engine host roms).player.enableScope settings.scope)
      hcreate.1 hall]
    show List.foldl _ (positions (create engine host roms).player.engine) _ = _
    rw [hcreate.2]
  have hdeferred : positions late = last.getD (positions direct) := by
    have hcreate : (create engine' host' roms').player = initial engine' host' roms' := by
      simp [create, hlate]
    simp only [late, createWith_player, ← run_append, hcreate]
    rw [run_deferred (p := (initial engine' host' roms').enableScope settings.scope) rfl rfl hall,
      hdirect, ← hsame]
    rfl
  -- both engines hold tables now, and voices are read from these
  refine ⟨hdirect, hdeferred, ?_, fun hsettled chip voice => ?_⟩
  · simp only [panning_eq, hdeferred]
    cases last with
    | none => exact iff_of_true (fun _ _ => rfl) fun values h => by cases h
    | some values => simp
  · rw [panning_eq, panning_eq, hdeferred, hdirect, ← hsettled.foldl_written]

end

theorem panning_deferred_settled :
    let late := { Scripted.initial with ready := false }
    let settings : Settings := ⟨false, some [2.0]⟩
    let operations : List Operation := [.adjust (.panning 0 1 2.0),
      .applyPanning (List.replicate 30 0.25), .applyPanning []]
    let p := ((createWith late ScriptedHost.initial ⟨none, none, none⟩ settings).player.run
      operations).notifyReady.player
    Engine.isReady Scripted.initial = true ∧ Engine.isReady late = false ∧
      StoresPanning.positions late = StoresPanning.positions Scripted.initial ∧
      (∀ o ∈ operations, o.isPlacement = true) ∧ Settled (settings.placements ++ operations) ∧
      ∀ chip voice, Engine.panning p.engine chip voice = Engine.panning
        ((createWith Scripted.initial ScriptedHost.initial ⟨none, none, none⟩ settings).player.run
          operations).engine chip voice := by
  intro late settings operations p
  have hplacement : ∀ o ∈ operations, o.isPlacement = true := by decide
  have hsettled : Settled (settings.placements ++ operations) := by
    have hrefused : accepted [.applyPanning [2.0]] = [] := by decide
    refine .cons (fun _ _ => .inl hrefused) (.cons (fun _ _ => .inl rfl) (.cons ?_ (.cons nofun .nil)))
    exact fun later hlater => .inr ⟨[], List.mem_singleton.1 hlater⟩
  have hready : Engine.isReady Scripted.initial = true := rfl
  have hlate : Engine.isReady late = false := rfl
  obtain ⟨-, -, -, hsame⟩ := panning_deferred hready hlate rfl ScriptedHost.initial
    ScriptedHost.initial ⟨none, none, none⟩ ⟨none, none, none⟩ settings hplacement
  exact ⟨hready, hlate, rfl, hplacement, hsettled, hsame hsettled⟩

/-- The panning that waited replaces a position that was asked for after it. -/
theorem panning_replaced :
    let operations : List Operation :=
      [.applyPanning (List.replicate 30 0.0), .adjust (.panning 0 0 1.0)]
    let direct := (create Scripted.initial ScriptedHost.initial ⟨none, none, none⟩).player
    let late := (create { Scripted.initial with ready := false } ScriptedHost.initial
      ⟨none, none, none⟩).player
    (∀ o ∈ operations, o.isPlacement = true) ∧
      StoresPanning.positions late.engine = StoresPanning.positions direct.engine ∧
      Engine.panning (direct.run operations).engine 0 0 = 1.0 ∧
      Engine.panning (late.run operations).notifyReady.player.engine 0 0 = 0.0 := by
  refine ⟨by decide, rfl, by rfl, by rfl⟩

end Player
end SidPlayback
