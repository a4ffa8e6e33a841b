/-
  What staging tells the engine.

  A computation with a staging area ends with a result or with a failure.  What
  holds then is stated by two postconditions (`Staging.Ends`), which are
  composed along the computation.

  * `Staging.keeps_stage` and `Staging.keeps_freeAll`: what calls for memory keep is
    kept by staging, and by giving back;
  * `Staging.stagingCalls` and `Staging.freeingCalls` are the calls by which
    buffers are placed at addresses, and by which these are given back;
  * `Staging.Placed` says that so many buffers are placed, and nothing else was
    done; `Staging.Refused` that there was no room for one more;
  * `Staging.Placed.stage` and `Staging.Placed.stageOptional`: staging places one
    buffer more, or is refused;
  * `Staging.log_placed` and `Staging.log_freeAll`: placing a buffer is two calls, giving
    back is one for each address.
-/
import SidPlayback.Engine.Staging
import SidPlayback.Proofs.Recorded

namespace SidPlayback.Staging

/-! ## Postconditions -/

section
variable {ε α β : Type} {s : Staging × ε}

/-- The computation ends with a result for which `ok` holds, or with a failure
    for which `failed` holds. -/
def Ends (body : StagingM ε α) (s : Staging × ε) (ok : α → Staging × ε → Prop)
    (failed : Failure → Staging × ε → Prop) : Prop :=
  match body.run s with
  | (.ok a, s') => ok a s'
  | (.error failure, s') => failed failure s'

variable {ok ok' : α → Staging × ε → Prop} {failed failed' : Failure → Staging × ε → Prop}

theorem ends_pure {a : α} (h : ok a s) : Ends (pure a) s ok failed := h

theorem ends_throw {failure : Failure} (h : failed failure s) :
    Ends (throw failure) s ok failed := h

theorem ends_modify {f : Staging × ε → Staging × ε} {ok : PUnit → Staging × ε → Prop}
    (h : ok () (f s)) : Ends (modify f) s ok failed := h

theorem ends_call [Engine ε] (c : EngineCall) {ok : c.Answer → Staging × ε → Prop}
    (h : ok (Engine.call c s.2).1 (s.1, Engine.after c s.2)) : Ends (call c) s ok failed := h

theorem run_bind (body : StagingM ε β) (next : β → StagingM ε α) (s : Staging × ε) :
    (body >>= next).run s = match body.run s with
      | (.ok b, s') => (next b).run s'
      | (.error failure, s') => (.error failure, s') := by
  show StateT.bind body.run (ExceptT.bindCont next) s = _
  simp only [StateT.bind, bind]
  rcases body.run s with ⟨b | b, s'⟩ <;> rfl

theorem ends_bind {body : StagingM ε β} {next : β → StagingM ε α}
    (h : Ends body s (fun b s' => Ends (next b) s' ok failed) failed) :
    Ends (body >>= next) s ok failed := by
  unfold Ends at h ⊢
  rw [run_bind]
  rcases hb : body.run s with ⟨b | b, s'⟩ <;> rw [hb] at h <;> exact h

theorem Ends.imp {body : StagingM ε α} (h : Ends body s ok failed)
    (hok : ∀ a s', ok a s' → ok' a s') (hfailed : ∀ e s', failed e s' → failed' e s') :
    Ends body s ok' failed' := by
  unfold Ends at h ⊢
  split <;> simp_all

/-- What staging does, by the engine's answer to the allocation. -/
theorem ends_stage [Engine ε] {data : List UInt8} {ok : Buffer → Staging × ε → Prop}
    (hok : ∀ address, (Engine.call (.malloc data.length) s.2).1 = some address →
      ok ⟨address, data.length⟩ (⟨address :: s.1.blocks⟩,
        Engine.after (.writeHeap address data) (Engine.after (.malloc data.length) s.2)))
    (hfailed : (Engine.call (.malloc data.length) s.2).1 = none →
      failed (.noRoom data.length) (s.1, Engine.after (.malloc data.length) s.2)) :
    Ends (stage data) s ok failed := by
  refine ends_bind (ends_call _ ?_)
  cases h : (Engine.call (.malloc data.length) s.2).1 with
  | none => exact ends_throw (hfailed h)
  | some address =>
    refine ends_bind (ends_modify (ends_bind (ends_call _ (ends_pure ?_))))
    exact hok address h

/-- What holds after a computation, whether it succeeds or not. -/
theorem of_ends {body : StagingM ε α} (holds : Except Failure α → Staging × ε → Prop)
    (h : Ends body s (fun a => holds (.ok a)) (fun failure => holds (.error failure))) :
    holds (body.run s).1 (body.run s).2 := by
  unfold Ends at h
  split at h <;> rename_i heq <;> rw [heq] <;> exact h

/-- What holds after a computation with an area of its own, which is released. -/
theorem within_of_ends [Engine ε] {body : StagingM ε α} {engine : ε}
    (holds : Except Failure α → ε → Prop)
    (h : Ends body (empty, engine) (fun a s => holds (.ok a) (freeAll s.1.blocks s.2))
      (fun failure s => holds (.error failure) (freeAll s.1.blocks s.2))) :
    holds (within body engine).1 (within body engine).2.1 :=
  of_ends (fun result s => holds result (freeAll s.1.blocks s.2)) h

end

/-! ## What calls keep -/

section
variable {ε : Type} [Engine ε] {K : ε → Prop}
  (hK : ∀ c e, c.kind = .memory → K e → K (Engine.after c e))
include hK

theorem keeps_freeAll {addresses : List Address} {engine : ε} (h : K engine) :
    K (freeAll addresses engine) := by
  induction addresses generalizing engine with
  | nil => exact h
  | cons address rest ih => exact ih (hK (.free address) engine rfl h)

variable {s : Staging × ε} (h : K s.2)
include h

theorem keeps_stage (data : List UInt8) :
    Ends (stage data) s (fun _ s => K s.2) (fun _ s => K s.2) := by
  have hroom : K (Engine.after (.malloc data.length) s.2) := hK _ _ rfl h
  exact ends_stage (fun address _ => hK (.writeHeap address data) _ rfl hroom) (fun _ => hroom)

theorem keeps_stageOptional (image : Option (List UInt8)) :
    Ends (stageOptional image) s (fun _ s => K s.2) (fun _ s => K s.2) := by
  cases image with
  | none => exact ends_pure h
  | some data =>
    exact ends_bind ((keeps_stage hK h data).imp (fun _ _ hnext => ends_pure hnext)
      (fun _ _ hnext => hnext))

end

/-! ## The calls -/

/-- The calls by which buffers are placed at addresses, one after the other. -/
def stagingCalls : List (List UInt8) → List Address → List EngineEvent
  | data :: buffers, address :: taken =>
    ⟨.malloc data.length, some address⟩ :: ⟨.writeHeap address data, ()⟩ ::
      stagingCalls buffers taken
  | _, _ => []

/-- The calls by which addresses are given back, in their order. -/
def freeingCalls (addresses : List Address) : List EngineEvent :=
  addresses.map fun address => ⟨.free address, ()⟩

@[simp] theorem stagingCalls_nil (buffers : List (List UInt8)) : stagingCalls buffers [] = [] := by
  cases buffers <;> rfl

theorem stagingCalls_append {done : List (List UInt8)} {taken : List Address}
    (h : taken.length = done.length) (rest : List (List UInt8)) (more : List Address) :
    stagingCalls (done ++ rest) (taken ++ more) =
      stagingCalls done taken ++ stagingCalls rest more := by
  induction done generalizing taken with
  | nil => rw [List.length_eq_zero_iff.1 h]; rfl
  | cons data done ih =>
    cases taken with
    | nil => cases h
    | cons address taken =>
      simp only [List.cons_append, stagingCalls, ih (Nat.succ.inj h)]

theorem kind_stagingCalls {buffers : List (List UInt8)} {taken : List Address}
    {event : EngineEvent} (h : event ∈ stagingCalls buffers taken) :
    event.call.kind = .memory := by
  induction buffers generalizing taken with
  | nil => cases h
  | cons data buffers ih =>
    cases taken with
    | nil => cases h
    | cons address taken =>
      rcases List.mem_cons.1 h with rfl | h
      · rfl
      rcases List.mem_cons.1 h with rfl | h
      · rfl
      · exact ih h

theorem kind_freeingCalls {addresses : List Address} {event : EngineEvent}
    (h : event ∈ freeingCalls addresses) : event.call.kind = .memory := by
  obtain ⟨address, -, rfl⟩ := List.mem_map.1 h
  rfl

theorem log_freeAll {ε : Type} [Engine ε] (addresses : List Address)
    (r : Recorded ε EngineEvent) :
    (freeAll addresses r).log = r.log ++ freeingCalls addresses := by
  induction addresses generalizing r with
  | nil => exact (List.append_nil _).symm
  | cons address rest ih => simp [freeAll, freeingCalls, ih]

theorem log_placed {ε : Type} [Engine ε] {r : Recorded ε EngineEvent} {data : List UInt8}
    {address : Address} (h : (Engine.call (.malloc data.length) r).1 = some address) :
    (Engine.after (.writeHeap address data) (Engine.after (.malloc data.length) r)).log =
      r.log ++ stagingCalls [data] [address] := by
  rw [Recorded.log_after, Recorded.log_after, h, List.append_assoc]
  rfl

/-! ## Placing buffers -/

section
variable {ε : Type}

/-- After the calls `log` the buffers `done` were placed at the addresses
    `taken`, and nothing else was done. -/
structure Placed (log : List EngineEvent) (done : List (List UInt8)) (taken : List Address)
    (s : Staging × Recorded ε EngineEvent) : Prop where
  length_eq : taken.length = done.length
  blocks_eq : s.1.blocks = taken.reverse
  log_eq : s.2.log = log ++ stagingCalls done taken

/-- After the calls `log` the buffers `done` were placed at the addresses
    `taken`, and then there was no room for the buffer `next`. -/
structure Refused (log : List EngineEvent) (done : List (List UInt8)) (taken : List Address)
    (next : List UInt8) (s : Staging × Recorded ε EngineEvent) : Prop where
  length_eq : taken.length = done.length
  blocks_eq : s.1.blocks = taken.reverse
  log_eq : s.2.log = log ++ stagingCalls done taken ++ [⟨.malloc next.length, none⟩]

theorem Placed.empty (r : Recorded ε EngineEvent) : Placed r.log [] [] (empty, r) :=
  ⟨rfl, rfl, (List.append_nil _).symm⟩

variable [Engine ε] {log : List EngineEvent} {done : List (List UInt8)} {taken : List Address}
  {s : Staging × Recorded ε EngineEvent}

/-- **Staging** places the buffer, or is refused. -/
theorem Placed.stage (h : Placed log done taken s) (data : List UInt8) :
    Ends (stage data) s
      (fun b s' => b.size = data.length ∧ Placed log (done ++ [data]) (taken ++ [b.address]) s')
      (fun failure s' => failure = .noRoom data.length ∧ Refused log done taken data s') := by
  refine ends_stage (fun address ha => ⟨rfl, ?_, ?_, ?_⟩)
    (fun ha => ⟨rfl, h.length_eq, h.blocks_eq, ?_⟩)
  · simp [h.length_eq]
  · simp [h.blocks_eq]
  · rw [stagingCalls_append h.length_eq, log_placed ha, h.log_eq, List.append_assoc]
  · rw [Recorded.log_after, h.log_eq, ha]

/-- Staging a buffer that may be absent places it if it is there. -/
theorem Placed.stageOptional (h : Placed log done taken s) (image : Option (List UInt8)) :
    Ends (stageOptional image) s
      (fun slot s' => slot.isSome = image.isSome ∧
        Placed log (done ++ image.toList) (taken ++ slot.toList) s')
      (fun failure s' => ∃ data ∈ image, failure = .noRoom data.length ∧
        Refused log done taken data s') := by
  cases image with
  | none => exact ends_pure ⟨rfl, by simpa using h⟩
  | some data =>
    refine ends_bind ((h.stage data).imp ?_ ?_)
    · intro b s' hb
      exact ends_pure ⟨rfl, hb.2⟩
    · intro failure s' hf
      exact ⟨data, rfl, hf⟩

end

end SidPlayback.Staging
