/-
  The memory of an engine, as its history shows it.

  Whoever reads the calls made to an engine knows which blocks of its memory are
  in use, and what was written to them.

  * `Heap` is what is known, and `Heap.replay` reads calls;
  * `Heap.Fresh` says that the allocator never hands out memory in use;
  * `Heap.Holds` says that a buffer is in use, and unchanged;
  * `Heap.holds_replay`: buffers that were placed are held, whatever is placed
    after them;
  * `Heap.blocks_given_back`: once all placed buffers are given back, the blocks
    in use are those from before.
-/
import Mathlib.Data.List.Basic
import SidPlayback.Proofs.Staging

namespace SidPlayback

namespace Buffer

/-- Whether a place in memory belongs to a buffer. -/
def Covers (b : Buffer) (place : Nat) : Prop :=
  b.address.val.toNat ≤ place ∧ place < b.address.val.toNat + b.size

/-- Two buffers have different addresses, and no place in common. -/
def Apart (b c : Buffer) : Prop :=
  b.address ≠ c.address ∧ ∀ place, b.Covers place → ¬ c.Covers place

end Buffer

/-- The block that a call allocates. -/
def EngineEvent.allocated : EngineEvent → Option Buffer
  | ⟨.malloc size, some address⟩ => some ⟨address, size⟩
  | _ => none

/-- What is known about an engine's memory. -/
structure Heap where
  /-- The blocks in use, the newest first. -/
  blocks : List Buffer
  /-- The byte at a place. -/
  byte : Nat → UInt8

namespace Heap

/-- Memory of which nothing is in use. -/
def empty : Heap := ⟨[], fun _ => 0⟩

/-- The bytes after `data` was written from `start` on. -/
def overwrite (byte : Nat → UInt8) (start : Nat) (data : List UInt8) (place : Nat) : UInt8 :=
  if start ≤ place then (data[place - start]?).getD (byte place) else byte place

/-- The memory after a call. -/
def after (m : Heap) : EngineEvent → Heap
  | ⟨.malloc size, some address⟩ => { m with blocks := ⟨address, size⟩ :: m.blocks }
  | ⟨.writeHeap address data, _⟩ => { m with byte := overwrite m.byte address.val.toNat data }
  | ⟨.free address, _⟩ => { m with blocks := m.blocks.filter (·.address ≠ address) }
  | _ => m

/-- The memory after a list of calls. -/
def replay (m : Heap) (events : List EngineEvent) : Heap := events.foldl after m

/-- Memory that is handed out lies apart from all blocks in use. -/
def Fresh : Heap → List EngineEvent → Prop
  | _, [] => True
  | m, event :: rest =>
    (∀ new ∈ event.allocated, ∀ b ∈ m.blocks, b.Apart new) ∧ (m.after event).Fresh rest

/-- A buffer is in use and holds its data. -/
def Holds (m : Heap) (address : Address) (data : List UInt8) : Prop :=
  ⟨address, data.length⟩ ∈ m.blocks ∧
    ∀ i (h : i < data.length), m.byte (address.val.toNat + i) = data[i]

@[simp] theorem replay_nil (m : Heap) : m.replay [] = m := rfl

@[simp] theorem replay_cons (m : Heap) (event : EngineEvent) (rest : List EngineEvent) :
    m.replay (event :: rest) = (m.after event).replay rest := rfl

@[simp] theorem replay_append (m : Heap) (events more : List EngineEvent) :
    m.replay (events ++ more) = (m.replay events).replay more := List.foldl_append

theorem Fresh.left {events more : List EngineEvent} {m : Heap} (h : m.Fresh (events ++ more)) :
    m.Fresh events := by
  induction events generalizing m with
  | nil => trivial
  | cons event rest ih => exact ⟨h.1, ih h.2⟩

/-! ## Writing -/

theorem overwrite_inside (byte : Nat → UInt8) (start : Nat) {data : List UInt8} {i : Nat}
    (h : i < data.length) : overwrite byte start data (start + i) = data[i] := by
  simp [overwrite, h]

theorem overwrite_outside (byte : Nat → UInt8) {b : Buffer} {data : List UInt8} {place : Nat}
    (hsize : b.size = data.length) (h : ¬ b.Covers place) :
    overwrite byte b.address.val.toNat data place = byte place := by
  unfold overwrite
  split_ifs with hle
  · have hge : data.length ≤ place - b.address.val.toNat := by
      by_contra hlt
      exact h ⟨hle, by omega⟩
    rw [List.getElem?_eq_none hge, Option.getD_none]
  · rfl

/-! ## Placing buffers -/

section
variable {m : Heap}

/-- The memory after a buffer was placed at an address. -/
def place (m : Heap) (address : Address) (data : List UInt8) : Heap :=
  ⟨⟨address, data.length⟩ :: m.blocks, overwrite m.byte address.val.toNat data⟩

theorem holds_place (m : Heap) (address : Address) (data : List UInt8) :
    (m.place address data).Holds address data :=
  ⟨List.mem_cons_self, fun _ h => overwrite_inside _ _ h⟩

/-- A buffer is not touched when another one is placed apart from it. -/
theorem Holds.place {address other : Address} {data more : List UInt8} (h : m.Holds address data)
    (hapart : ∀ b ∈ m.blocks, b.Apart ⟨other, more.length⟩) :
    (m.place other more).Holds address data := by
  obtain ⟨hmem, hbyte⟩ := h
  refine ⟨List.mem_cons_of_mem _ hmem, fun i hi => ?_⟩
  have hcovers : Buffer.Covers ⟨address, data.length⟩ (address.val.toNat + i) :=
    ⟨by simp, by simpa using hi⟩
  have hout := (hapart _ hmem).2 _ hcovers
  rw [← hbyte i hi]
  exact overwrite_outside m.byte (b := ⟨other, more.length⟩) rfl hout

theorem replay_stagingCalls_cons (m : Heap) (data : List UInt8) (buffers : List (List UInt8))
    (address : Address) (taken : List Address) :
    m.replay (Staging.stagingCalls (data :: buffers) (address :: taken)) =
      (m.place address data).replay (Staging.stagingCalls buffers taken) := rfl

theorem fresh_stagingCalls_cons {data : List UInt8} {buffers : List (List UInt8)}
    {address : Address} {taken : List Address}
    (h : m.Fresh (Staging.stagingCalls (data :: buffers) (address :: taken))) :
    (∀ b ∈ m.blocks, b.Apart ⟨address, data.length⟩) ∧
      (m.place address data).Fresh (Staging.stagingCalls buffers taken) :=
  ⟨h.1 _ rfl, h.2.2⟩

variable {buffers : List (List UInt8)} {taken : List Address}

theorem Holds.replay {address : Address} {data : List UInt8} (h : m.Holds address data)
    (hfresh : m.Fresh (Staging.stagingCalls buffers taken)) :
    (m.replay (Staging.stagingCalls buffers taken)).Holds address data := by
  induction buffers generalizing m taken with
  | nil => exact h
  | cons next buffers ih =>
    cases taken with
    | nil => exact h
    | cons other taken =>
      obtain ⟨hapart, hrest⟩ := fresh_stagingCalls_cons hfresh
      exact ih (h.place hapart) hrest

/-- **Placed buffers are held**, each at its own address. -/
theorem holds_replay (hlen : taken.length = buffers.length)
    (hfresh : m.Fresh (Staging.stagingCalls buffers taken)) :
    List.Forall₂ (m.replay (Staging.stagingCalls buffers taken)).Holds taken buffers := by
  induction buffers generalizing m taken with
  | nil => rw [List.length_eq_zero_iff.1 hlen]; exact .nil
  | cons data buffers ih =>
    cases taken with
    | nil => cases hlen
    | cons address taken =>
      obtain ⟨-, hrest⟩ := fresh_stagingCalls_cons hfresh
      rw [replay_stagingCalls_cons]
      exact .cons ((holds_place m address data).replay hrest) (ih (Nat.succ.inj hlen) hrest)

/-! ## Giving back -/

theorem blocks_freeingCalls (m : Heap) (addresses : List Address) :
    (m.replay (Staging.freeingCalls addresses)).blocks =
      m.blocks.filter (·.address ∉ addresses) := by
  induction addresses generalizing m with
  | nil => simp [Staging.freeingCalls]
  | cons address rest ih =>
    show ((m.after ⟨.free address, ()⟩).replay (Staging.freeingCalls rest)).blocks = _
    rw [ih]
    simp only [after, List.filter_filter, List.mem_cons, not_or, Bool.decide_and]
    congr 1
    funext b
    rw [Bool.and_comm]

theorem blocks_stagingCalls (m : Heap) (buffers : List (List UInt8)) (taken : List Address) :
    ∃ new, (m.replay (Staging.stagingCalls buffers taken)).blocks = new ++ m.blocks ∧
      ∀ b ∈ new, b.address ∈ taken := by
  induction buffers generalizing m taken with
  | nil => exact ⟨[], rfl, by simp⟩
  | cons data buffers ih =>
    cases taken with
    | nil => exact ⟨[], rfl, by simp⟩
    | cons address taken =>
      obtain ⟨new, hnew, hmem⟩ := ih (m.place address data) taken
      refine ⟨new ++ [⟨address, data.length⟩], ?_, fun b hb => ?_⟩
      · rw [replay_stagingCalls_cons, hnew]
        simp [place]
      · rcases List.mem_append.1 hb with hb | hb
        · exact List.mem_cons_of_mem _ (hmem b hb)
        · rw [List.mem_singleton.1 hb]; exact List.mem_cons_self

/-- No address that is handed out belongs to a block in use before. -/
theorem address_notMem_taken (hlen : taken.length ≤ buffers.length)
    (hfresh : m.Fresh (Staging.stagingCalls buffers taken)) :
    ∀ b ∈ m.blocks, b.address ∉ taken := by
  induction buffers generalizing m taken with
  | nil => simp [List.length_eq_zero_iff.1 (Nat.le_zero.1 hlen)]
  | cons data buffers ih =>
    cases taken with
    | nil => simp
    | cons address taken =>
      obtain ⟨hapart, hrest⟩ := fresh_stagingCalls_cons hfresh
      intro b hb
      rw [List.mem_cons, not_or]
      exact ⟨(hapart b hb).1, ih (Nat.le_of_succ_le_succ hlen) hrest b (List.mem_cons_of_mem _ hb)⟩

/-- **Nothing stays in use.**  Once all placed buffers are given back, the blocks
    in use are those from before. -/
theorem blocks_given_back (hlen : taken.length ≤ buffers.length)
    (hfresh : m.Fresh (Staging.stagingCalls buffers taken)) :
    ((m.replay (Staging.stagingCalls buffers taken)).replay
      (Staging.freeingCalls taken.reverse)).blocks = m.blocks := by
  obtain ⟨new, hnew, hmem⟩ := blocks_stagingCalls m buffers taken
  have hold := address_notMem_taken hlen hfresh
  rw [blocks_freeingCalls, hnew, List.filter_append]
  have hleft : new.filter (·.address ∉ taken.reverse) = [] := by
    simpa [List.filter_eq_nil_iff] using hmem
  have hright : m.blocks.filter (·.address ∉ taken.reverse) = m.blocks := by
    simpa [List.filter_eq_self] using hold
  rw [hleft, hright, List.nil_append]

end

end Heap
end SidPlayback
