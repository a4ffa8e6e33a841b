/-
  Loading, as the engine sees it.

  The buffers are placed one after the other, the engine is asked to load the
  song, and all that was placed is given back, the newest first.  If there is no
  room for a buffer the engine is not asked.

  * `LoadLog` describes the calls that loading makes, and how it ends;
  * `LoadRequest.Describes` says what the engine is asked, and
    `LoadRequest.InPlace` that the buffers are where the request says;
  * `Player.load_calls`: loading makes such calls, the buffers are in place when
    the engine is asked, and no block stays in use;
  * `Player.keeps_load`: what the calls of loading keep of an engine, loading keeps.
-/
import SidPlayback.Engine.Scripted
import SidPlayback.Host.Scripted
import SidPlayback.Player.Session
import SidPlayback.Proofs.Heap

namespace SidPlayback

/-- The buffers that are placed to load a song: the song itself, and the ROM
    images that there are. -/
def Rom.Bank.buffers (roms : Rom.Bank) (data : List UInt8) : List (List UInt8) :=
  [data] ++ (roms.basic.map (·.bytes)).toList ++ (roms.character.map (·.bytes)).toList ++
    (roms.kernal.map (·.bytes)).toList

namespace LoadRequest

/-- The addresses in a request, in the order of the buffers. -/
def addresses (request : LoadRequest) : List Address :=
  [request.song.address] ++ request.basic.toList ++ request.character.toList ++
    request.kernal.toList

/-- What a request says about a song and the ROM images, wherever they are. -/
structure Describes (request : LoadRequest) (roms : Rom.Bank) (rate : UInt32) (file : String)
    (data : List UInt8) : Prop where
  legacy_iff : request.legacy = true ↔
    ".mus".toList <:+ file.toList ∨ ".str".toList <:+ file.toList
  size_eq : request.song.size = data.length
  rate_eq : request.rate = rate
  file_eq : request.file = file
  basic_isSome : request.basic.isSome = roms.basic.isSome
  character_isSome : request.character.isSome = roms.character.isSome
  kernal_isSome : request.kernal.isSome = roms.kernal.isSome

/-- The song and the ROM images are in use where a request says, each complete. -/
structure InPlace (request : LoadRequest) (m : Heap) (roms : Rom.Bank) (data : List UInt8) :
    Prop where
  song : m.Holds request.song.address data
  basic : ∀ image ∈ roms.basic, ∃ address ∈ request.basic, m.Holds address image.bytes
  character : ∀ image ∈ roms.character, ∃ address ∈ request.character, m.Holds address image.bytes
  kernal : ∀ image ∈ roms.kernal, ∃ address ∈ request.kernal, m.Holds address image.bytes

end LoadRequest

open Staging in
/-- How loading ends, and the calls that it makes. -/
inductive LoadLog (roms : Rom.Bank) (rate : UInt32) (file : String) (data : List UInt8) :
    Except Failure UInt32 → List EngineEvent → Prop
  /-- There is no room for the buffer `next`. -/
  | refused {taken : List Address} {next : List UInt8} :
    (roms.buffers data)[taken.length]? = some next →
    LoadLog roms rate file data (.error (.noRoom next.length))
      (stagingCalls (roms.buffers data) taken ++ [⟨.malloc next.length, none⟩] ++
        freeingCalls taken.reverse)
  /-- The engine is asked, and answers. -/
  | answered {request : LoadRequest} {status : UInt32} :
    request.Describes roms rate file data →
    LoadLog roms rate file data (.ok status)
      (stagingCalls (roms.buffers data) request.addresses ++ [⟨.load request, status⟩] ++
        freeingCalls request.addresses.reverse)

theorem isLegacySong_iff (file : String) : isLegacySong file = true ↔
    ".mus".toList <:+ file.toList ∨ ".str".toList <:+ file.toList := by
  simp only [isLegacySong, Bool.or_eq_true, String.endsWith, String.Slice.endsWith_string_iff,
    String.copy_toSlice]

section
variable {ε : Type} {roms : Rom.Bank} {rate : UInt32} {file : String} {data : List UInt8}

/-! ## The calls -/

open Staging

/-- The calls made so far are those of a loading that ends like this, once the
    staged buffers are given back. -/
def LoadLog.Opens (roms : Rom.Bank) (rate : UInt32) (file : String) (data : List UInt8)
    (r : Recorded ε EngineEvent) (outcome : Except Failure UInt32)
    (s : Staging × Recorded ε EngineEvent) : Prop :=
  ∃ events, s.2.log = r.log ++ events ∧
    LoadLog roms rate file data outcome (events ++ freeingCalls s.1.blocks)

theorem Staging.Refused.opens {r : Recorded ε EngineEvent} {done : List (List UInt8)}
    {taken : List Address} {next : List UInt8} {s : Staging × Recorded ε EngineEvent}
    (h : Refused r.log done taken next s) (rest : List (List UInt8))
    (hbuffers : roms.buffers data = done ++ next :: rest) :
    LoadLog.Opens roms rate file data r (.error (.noRoom next.length)) s := by
  have hcalls : stagingCalls (roms.buffers data) taken = stagingCalls done taken := by
    have := stagingCalls_append h.length_eq (next :: rest) []
    rwa [List.append_nil, stagingCalls_nil, List.append_nil, ← hbuffers] at this
  have hnext : (roms.buffers data)[taken.length]? = some next := by
    rw [hbuffers, h.length_eq, List.getElem?_append_right (Nat.le_refl _), Nat.sub_self]; rfl
  refine ⟨stagingCalls done taken ++ [⟨.malloc next.length, none⟩], ?_, ?_⟩
  · rw [h.log_eq, List.append_assoc]
  · rw [h.blocks_eq, ← hcalls]
    exact .refused hnext

variable [Engine ε] (roms rate file data)

/-- Staging a song and having the engine load it makes the calls of a loading. -/
theorem ends_stageSong (r : Recorded ε EngineEvent) :
    Ends (stageSong roms rate file data) (Staging.empty, r)
      (fun status s => LoadLog.Opens roms rate file data r (.ok status) s)
      (fun failure s => LoadLog.Opens roms rate file data r (.error failure) s) := by
  refine ends_bind (((Placed.empty r).stage data).imp ?_ ?_)
  case refine_2 =>
    rintro _ s ⟨rfl, hs⟩
    exact hs.opens _ (List.append_assoc _ _ _ |>.trans (List.append_assoc _ _ _))
  rintro song s ⟨hsong, hs⟩
  refine ends_bind ((hs.stageOptional _).imp ?_ ?_)
  case refine_2 =>
    rintro _ s ⟨image, himage, rfl, hs⟩
    refine hs.opens ((roms.character.map (·.bytes)).toList ++ (roms.kernal.map (·.bytes)).toList) ?_
    simp [Rom.Bank.buffers, Option.mem_def.1 himage]
  rintro basic s ⟨hbasic, hs⟩
  refine ends_bind ((hs.stageOptional _).imp ?_ ?_)
  case refine_2 =>
    rintro _ s ⟨image, himage, rfl, hs⟩
    refine hs.opens (roms.kernal.map (·.bytes)).toList ?_
    simp [Rom.Bank.buffers, Option.mem_def.1 himage]
  rintro character s ⟨hcharacter, hs⟩
  refine ends_bind ((hs.stageOptional _).imp ?_ ?_)
  case refine_2 =>
    rintro _ s ⟨image, himage, rfl, hs⟩
    exact hs.opens [] (by simp [Rom.Bank.buffers, Option.mem_def.1 himage])
  rintro kernal s ⟨hkernal, hs⟩
  let request : LoadRequest := ⟨isLegacySong file, song, rate, file, basic, character, kernal⟩
  let status := (Engine.call (.load request) s.2).1
  refine ends_call _
    ⟨stagingCalls (roms.buffers data) request.addresses ++ [⟨.load request, status⟩], ?_, ?_⟩
  · rw [Recorded.log_after, hs.log_eq, List.append_assoc]; rfl
  · rw [hs.blocks_eq]
    show LoadLog roms rate file data (.ok status)
      (stagingCalls (roms.buffers data) request.addresses ++ [⟨.load request, status⟩] ++
        freeingCalls request.addresses.reverse)
    refine .answered ⟨isLegacySong_iff file, hsong, rfl, rfl, ?_, ?_, ?_⟩
    · rw [hbasic, Option.isSome_map]
    · rw [hcharacter, Option.isSome_map]
    · rw [hkernal, Option.isSome_map]

theorem log_within_stageSong (r : Recorded ε EngineEvent) :
    ∃ events, (within (stageSong roms rate file data) r).2.1.log = r.log ++ events ∧
      LoadLog roms rate file data (within (stageSong roms rate file data) r).1 events := by
  refine within_of_ends (fun outcome r' => ∃ events, r'.log = r.log ++ events ∧
    LoadLog roms rate file data outcome events) ((ends_stageSong roms rate file data r).imp ?_ ?_)
  all_goals
    rintro _ s ⟨events, hevents, hlog⟩
    exact ⟨_, by rw [log_freeAll, hevents, List.append_assoc], hlog⟩

theorem keeps_within_stageSong {K : ε → Prop}
    (hK : ∀ c e, c.kind = .memory ∨ c.kind = .loading → K e → K (Engine.after c e)) {engine : ε}
    (h : K engine) : K (within (stageSong roms rate file data) engine).2.1 := by
  have hmemory : ∀ c e, c.kind = .memory → K e → K (Engine.after c e) :=
    fun c e hc => hK c e (.inl hc)
  have hends : Ends (stageSong roms rate file data) (Staging.empty, engine) (fun _ s => K s.2)
      (fun _ s => K s.2) := by
    refine ends_bind ((keeps_stage hmemory h data).imp (fun song s hs => ?_) fun _ _ hs => hs)
    refine ends_bind ((keeps_stageOptional hmemory hs _).imp (fun basic s hs => ?_) fun _ _ hs => hs)
    refine ends_bind ((keeps_stageOptional hmemory hs _).imp (fun character s hs => ?_)
      fun _ _ hs => hs)
    refine ends_bind ((keeps_stageOptional hmemory hs _).imp (fun kernal s hs => ?_)
      fun _ _ hs => hs)
    exact ends_call _ (hK _ _ (.inr rfl) hs)
  exact within_of_ends (fun _ e => K e) (hends.imp (fun _ _ hs => keeps_freeAll hmemory hs)
    fun _ _ hs => keeps_freeAll hmemory hs)

end

/-! ## The memory -/

section
variable {roms : Rom.Bank} {rate : UInt32} {file : String} {data : List UInt8}
  {request : LoadRequest} {m : Heap}

open Staging

/-- What is related slot by slot is related, if the same slots are filled. -/
theorem forall₂_slot {α β : Type} {R : α → β → Prop} {a : Option α} {b : Option β} {as : List α}
    {bs : List β} (hslot : a.isSome = b.isSome)
    (h : List.Forall₂ R (a.toList ++ as) (b.toList ++ bs)) :
    (∀ y ∈ b, ∃ x ∈ a, R x y) ∧ List.Forall₂ R as bs := by
  cases a with
  | none => cases b with
    | none => exact ⟨by simp, h⟩
    | some y => cases hslot
  | some x => cases b with
    | none => cases hslot
    | some y =>
      obtain ⟨hxy, hrest⟩ := List.forall₂_cons.1 h
      exact ⟨fun _ hy => ⟨x, rfl, Option.some.inj hy ▸ hxy⟩, hrest⟩

namespace LoadRequest.Describes
variable (h : request.Describes roms rate file data)
include h

theorem length_addresses : request.addresses.length = (roms.buffers data).length := by
  have hslot {α β : Type} {a : Option α} {b : Option β} (hs : a.isSome = b.isSome) :
      a.toList.length = b.toList.length := by
    cases a <;> cases b <;> first | rfl | cases hs
  simp only [addresses, Rom.Bank.buffers, List.length_append, List.length_singleton]
  rw [hslot (h.basic_isSome.trans Option.isSome_map.symm),
    hslot (h.character_isSome.trans Option.isSome_map.symm),
    hslot (h.kernal_isSome.trans Option.isSome_map.symm)]

/-- If the buffers are held at the addresses, in order, they are in place. -/
theorem inPlace (hheld : List.Forall₂ m.Holds request.addresses (roms.buffers data)) :
    request.InPlace m roms data := by
  simp only [addresses, Rom.Bank.buffers, List.append_assoc, List.singleton_append] at hheld
  obtain ⟨hsong, hroms⟩ := List.forall₂_cons.1 hheld
  obtain ⟨hbasic, hroms⟩ := forall₂_slot (h.basic_isSome.trans Option.isSome_map.symm) hroms
  obtain ⟨hcharacter, hroms⟩ :=
    forall₂_slot (h.character_isSome.trans Option.isSome_map.symm) hroms
  rw [← List.append_nil request.kernal.toList,
    ← List.append_nil (roms.kernal.map (·.bytes)).toList] at hroms
  obtain ⟨hkernal, -⟩ := forall₂_slot (h.kernal_isSome.trans Option.isSome_map.symm) hroms
  exact ⟨hsong, fun image hi => hbasic _ (Option.mem_map_of_mem _ hi),
    fun image hi => hcharacter _ (Option.mem_map_of_mem _ hi),
    fun image hi => hkernal _ (Option.mem_map_of_mem _ hi)⟩

end LoadRequest.Describes

namespace LoadLog
variable {outcome : Except Failure UInt32} {events : List EngineEvent}

theorem kind_eq (h : LoadLog roms rate file data outcome events) {event : EngineEvent}
    (hmem : event ∈ events) :
    event.call.kind = .memory ∨ event.call.kind = .loading := by
  cases h with
  | refused _ | answered _ =>
    simp only [List.mem_append, List.mem_singleton] at hmem
    rcases hmem with (hmem | rfl) | hmem
    · exact .inl (kind_stagingCalls hmem)
    · first | exact .inl rfl | exact .inr rfl
    · exact .inl (kind_freeingCalls hmem)

theorem blocks_eq (h : LoadLog roms rate file data outcome events) (hfresh : m.Fresh events) :
    (m.replay events).blocks = m.blocks := by
  cases h with
  | @refused taken next hnext =>
    have hlen : taken.length ≤ (roms.buffers data).length :=
      Nat.le_of_lt (List.getElem?_eq_some_iff.1 hnext).1
    rw [Heap.replay_append, Heap.replay_append]
    exact Heap.blocks_given_back hlen hfresh.left.left
  | answered hd =>
    rw [Heap.replay_append, Heap.replay_append]
    exact Heap.blocks_given_back (Nat.le_of_eq hd.length_addresses) hfresh.left.left

/-- When the engine is asked to load, the buffers are in place. -/
theorem inPlace (h : LoadLog roms rate file data outcome events) (hfresh : m.Fresh events)
    {before after : List EngineEvent} {status : UInt32}
    (hevents : events = before ++ ⟨.load request, status⟩ :: after) :
    request.InPlace (m.replay before) roms data := by
  have hload : ∀ e : EngineEvent, e.call.kind = .memory → e ≠ ⟨.load request, status⟩ := by
    rintro e he rfl
    cases he
  cases h with
  | refused _ =>
    have hmem : (⟨.load request, status⟩ : EngineEvent) ∈
        before ++ ⟨.load request, status⟩ :: after := List.mem_append_right _ List.mem_cons_self
    rw [← hevents, List.mem_append, List.mem_append, List.mem_singleton] at hmem
    rcases hmem with (hmem | hmem) | hmem
    · exact absurd rfl (hload _ (kind_stagingCalls hmem))
    · cases hmem
    · exact absurd rfl (hload _ (kind_freeingCalls hmem))
  | @answered request' status' hd =>
    rw [List.append_assoc, List.singleton_append] at hevents
    obtain ⟨hbefore, hsame, -⟩ := (List.append_cons_inj_of_notMem
      (fun hm => hload _ (kind_stagingCalls hm) rfl)
      (fun hm => hload _ (kind_freeingCalls hm) rfl)).1 hevents
    cases hsame
    rw [← hbefore]
    exact hd.inPlace (Heap.holds_replay hd.length_addresses hfresh.left.left)

end LoadLog

end

/-! ## Loading -/

namespace Player
variable {ε η : Type} [Engine ε] [Host η]

/-- What loading returns, by how the staging of the song ended. -/
def loadResult : Except Failure UInt32 → Except Failure Unit
  | .error failure => .error failure
  | .ok status => if status = 0 then .ok () else .error (.loadFailed status)

/-- Loading changes the engine as staging the song does, and ends as that does. -/
theorem load_of_ready (p : Player ε η) (ready : p.lifecycle = .ready) (target : UInt32)
    (file : String) (data : List UInt8) :
    let staged :=
      Staging.within (stageSong p.roms ((Host.nativeRate? p.host).getD 0) file data) p.engine
    (p.load target file data).player.engine = staged.2.1 ∧
      (p.load target file data).result = loadResult staged.1 := by
  simp only [load, ready]
  rcases Staging.within _ _ with ⟨_ | status, engine, buffers⟩
  · exact ⟨rfl, rfl⟩
  · by_cases h : status = 0
    · simp [h, loadResult]
    · simp [h, loadResult]

/-- What calls for memory and for loading keep is kept by loading. -/
theorem keeps_load {K : ε → Prop}
    (hK : ∀ c e, c.kind = .memory ∨ c.kind = .loading → K e → K (Engine.after c e))
    {p : Player ε η} (h : K p.engine) (target : UInt32) (file : String) (data : List UInt8) :
    K (p.load target file data).player.engine := by
  cases hl : p.lifecycle with
  | uninitialized => simp only [load, hl]; exact h
  | ready =>
    rw [(load_of_ready p hl target file data).1]
    exact keeps_within_stageSong p.roms _ file data hK h

/-- Loading manages the engine's memory and has it load, nothing else. -/
theorem log_load (p : Player (Recorded ε EngineEvent) η) (ready : p.lifecycle = .ready)
    (target : UInt32) (file : String) (data : List UInt8) :
    ∃ events, (p.load target file data).player.engine.log = p.engine.log ++ events ∧
      ∀ event ∈ events, event.call.kind = .memory ∨ event.call.kind = .loading := by
  obtain ⟨events, hlog, hload⟩ := log_within_stageSong p.roms
    ((Host.nativeRate? p.host).getD 0) file data p.engine
  exact ⟨events, by rw [(load_of_ready p ready target file data).1, hlog],
    fun _ he => hload.kind_eq he⟩

/-- **What loading tells the engine.**  The calls are those of `LoadLog`.  If the
    allocator never hands out memory in use, the song and the ROM images are in
    place when the engine is asked, and no block stays in use. -/
theorem load_calls (p : Player (Recorded ε EngineEvent) η) (ready : p.lifecycle = .ready)
    (target : UInt32) (file : String) (data : List UInt8) :
    ∃ outcome events, (p.load target file data).player.engine.log = p.engine.log ++ events ∧
      (p.load target file data).result = loadResult outcome ∧
      LoadLog p.roms ((Host.nativeRate? p.host).getD 0) file data outcome events ∧
      ∀ m : Heap, m.Fresh events →
        (∀ before request status after, events = before ++ ⟨.load request, status⟩ :: after →
          request.InPlace (m.replay before) p.roms data) ∧
        (m.replay events).blocks = m.blocks := by
  obtain ⟨hengine, hresult⟩ := load_of_ready p ready target file data
  obtain ⟨events, hevents, hlog⟩ := log_within_stageSong p.roms
    ((Host.nativeRate? p.host).getD 0) file data p.engine
  refine ⟨_, events, ?_, hresult, hlog, fun m hfresh => ⟨?_, hlog.blocks_eq hfresh⟩⟩
  · rw [hengine, hevents]
  · intro before request status after h
    exact hlog.inPlace hfresh h

/-- A new player with a scripted engine that keeps a history. -/
def scripted (roms : Rom.Bank) : Player (Recorded Scripted EngineEvent) ScriptedHost :=
  (create (Recorded.fresh Scripted.initial) ScriptedHost.initial roms).player

/-- The calls by which a song is loaded that needs two ROM images. -/
def tuneCalls : List EngineEvent :=
  Staging.stagingCalls [[7], [1], [2, 3]] [⟨4096⟩, ⟨4113⟩, ⟨4130⟩] ++
    [⟨.load ⟨isLegacySong "tune.mus", ⟨⟨4096⟩, 1⟩, 0, "tune.mus", some ⟨4113⟩, none, some ⟨4130⟩⟩,
      (0 : UInt32)⟩] ++ Staging.freeingCalls [⟨4130⟩, ⟨4113⟩, ⟨4096⟩]

theorem fresh_tuneCalls : Heap.empty.Fresh tuneCalls := by
  simp [tuneCalls, Staging.stagingCalls, Staging.freeingCalls, Heap.Fresh, Heap.after,
    EngineEvent.allocated, Heap.empty, Buffer.Apart, Buffer.Covers]
  refine ⟨fun place => ?_, fun place => ?_, fun place => ?_⟩ <;> omega

theorem load_calls_tune :
    let p := scripted ⟨some ⟨[1]⟩, none, some ⟨[2, 3]⟩⟩
    p.lifecycle = .ready ∧ Heap.empty.Fresh tuneCalls ∧
      (p.load 44100 "tune.mus" [7]).player.engine.log = p.engine.log ++ tuneCalls ∧
      (∃ outcome, LoadLog p.roms 0 "tune.mus" [7] outcome tuneCalls) ∧
      (Heap.empty.replay tuneCalls).blocks = [] := by
  intro p
  have hcalls : (p.load 44100 "tune.mus" [7]).player.engine.log = p.engine.log ++ tuneCalls := rfl
  obtain ⟨outcome, events, hevents, -, hlog, hheap⟩ := load_calls p rfl 44100 "tune.mus" [7]
  have hsame : tuneCalls = events := List.append_cancel_left (hcalls.symm.trans hevents)
  subst hsame
  exact ⟨rfl, fresh_tuneCalls, hcalls, ⟨outcome, hlog⟩, (hheap _ fresh_tuneCalls).2⟩

end Player
end SidPlayback
