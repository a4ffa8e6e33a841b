/-
  An engine that plays a script instead of emulating a machine.

  Its answers are settings: statuses, rates, and a list of frames that are
  handed out one by one.  Beside that it stores what it is told, and hands out
  memory that is never reused.

  * `Scripted` is the state of the engine;
  * `Scripted.Change` collects new settings, and `Scripted.change` makes them;
  * `countingHook` is a hook whose effect on an engine is easy to see.
-/
import SidPlayback.Engine.Basic

namespace SidPlayback

/-- A frame of a script. -/
structure ScriptFrame where
  samples : Int32
  rate : UInt16
  kind : UInt8
  label : List UInt8
  /-- The samples, if they change. -/
  sound : Option (List Int16)

/-- The state of a scripted engine. -/
structure Scripted where
  ready : Bool
  /-- How many allocations may succeed; `none` is no limit. -/
  budget : Option Nat
  /-- How many allocations have succeeded, where the next one goes, and which
      were not given back. -/
  allocations : Nat
  nextAddress : UInt32
  live : List Address
  loadStatus : UInt32
  rate : UInt32
  playStatus : UInt32
  /-- The frames to come, and the last one. -/
  script : List ScriptFrame
  frame : ScriptFrame
  sound : List Int16
  song : Song.Raw
  panning : List Float32
  stereo : Int32
  reverb : UInt16
  speaker : UInt8
  filter : FilterCurve
  filterStatus : Int32
  cutoffs : List (Int32 × List Float)
  chip : ChipModel
  video : VideoStandard
  chips : UInt8
  ram : Array UInt8
  traces : List (List Int16)
  /-- The number of traces, if it is not that of the traces there are. -/
  traceCount : Option Nat

namespace Scripted

/-- The bytes of an ASCII text and a terminator. -/
def field (text : String) : List UInt8 := text.toList.map (fun c => UInt8.ofNat c.toNat) ++ [0]

/-- The frame before any other: silence. -/
def silence : ScriptFrame := ⟨0, 0, 0, field "NONE", none⟩

/-- An engine with the usual settings. -/
def initial : Scripted where
  ready := true
  budget := none
  allocations := 0
  nextAddress := 4096
  live := []
  loadStatus := 0
  rate := 48000
  playStatus := 0
  script := []
  frame := silence
  sound := []
  song := ⟨4096, 0, 19, 1, field "Commando", field "Rob Hubbard", field "1985 Elite"⟩
  panning := Panning.centered.values
  stereo := 0
  reverb := 0
  speaker := 0
  filter := .zero
  filterStatus := 0
  cutoffs := []
  chip := .mos6581
  video := .pal
  chips := 1
  ram := Array.replicate 65536 0
  traces := []
  traceCount := none

/-! ## Settings -/

/-- New settings; what is left out stays as it is. -/
structure Change where
  ready : Option Bool := none
  budget : Option (Option Nat) := none
  loadStatus : Option UInt32 := none
  rate : Option UInt32 := none
  playStatus : Option UInt32 := none
  /-- Frames to append to the script. -/
  script : List ScriptFrame := []
  sound : Option (List Int16) := none
  loadAddress : Option Int32 := none
  playSpeed : Option Int32 := none
  subsongs : Option Int8 := none
  subsong : Option Int8 := none
  name : Option (List UInt8) := none
  author : Option (List UInt8) := none
  released : Option (List UInt8) := none
  stereo : Option Int32 := none
  reverb : Option UInt16 := none
  speaker : Option UInt8 := none
  filterStatus : Option Int32 := none
  /-- Levels that get a cutoff table, and the sizes of the tables. -/
  cutoffs : List (Int32 × Nat) := []
  chips : Option UInt8 := none
  traces : Option (List (List Int16)) := none
  traceCount : Option (Option Nat) := none

/-- The cutoff table of a level. -/
def cutoffTable (level : Int32) (size : Nat) : List Float :=
  (List.range size).map fun i => Float.ofInt (level.toInt * 10000) + Float.ofNat i * 0.5

/-- The engine with new settings. -/
def change (s : Scripted) (c : Change) : Scripted :=
  { s with
    ready := c.ready.getD s.ready
    budget := c.budget.getD s.budget
    loadStatus := c.loadStatus.getD s.loadStatus
    rate := c.rate.getD s.rate
    playStatus := c.playStatus.getD s.playStatus
    script := s.script ++ c.script
    sound := c.sound.getD s.sound
    song :=
      { loadAddress := c.loadAddress.getD s.song.loadAddress
        playSpeed := c.playSpeed.getD s.song.playSpeed
        subsongs := c.subsongs.getD s.song.subsongs
        subsong := c.subsong.getD s.song.subsong
        name := c.name.getD s.song.name
        author := c.author.getD s.song.author
        released := c.released.getD s.song.released }
    stereo := c.stereo.getD s.stereo
    reverb := c.reverb.getD s.reverb
    speaker := c.speaker.getD s.speaker
    filterStatus := c.filterStatus.getD s.filterStatus
    cutoffs := (c.cutoffs.map fun (level, size) => (level, cutoffTable level size)).reverse
      ++ s.cutoffs
    chips := c.chips.getD s.chips
    traces := c.traces.getD s.traces
    traceCount := c.traceCount.getD s.traceCount }

/-! ## Calls -/

/-- Hands out the next block of memory, unless the budget is used up. -/
def malloc (s : Scripted) (size : Nat) : Option Address × Scripted :=
  if (s.budget.map fun budget => decide (budget ≤ s.allocations)).getD false then (none, s)
  else
    (some ⟨s.nextAddress⟩,
      { s with
        allocations := s.allocations + 1
        nextAddress := s.nextAddress + UInt32.ofNat (size + 16)
        live := ⟨s.nextAddress⟩ :: s.live })

/-- Hands out the next frame of the script; none is left at the end of the song. -/
def compute (s : Scripted) : FrameAnswer × Scripted :=
  match s.script with
  | [] => (⟨0, .zero⟩, s)
  | frame :: rest =>
    (⟨frame.samples, .zero⟩,
      { s with script := rest, frame := frame, sound := frame.sound.getD s.sound })

/-- The place of a voice in a panning table. -/
def voiceIndex (chip voice : UInt8) : Nat := chip.toNat * chipVoices + voice.toNat

/-- The engine's answer to a call. -/
def answer (s : Scripted) : (c : EngineCall) → c.Answer × Scripted
  | .malloc size => s.malloc size
  | .writeHeap _ _ => ((), s)
  | .free address => ((), { s with live := s.live.filter (· != address) })
  | .load request =>
    (s.loadStatus, if request.rate = 0 then s else { s with rate := request.rate })
  | .play _ _ _ => (s.playStatus, s)
  | .compute => s.compute
  | .initPanning panning => ((), { s with panning := panning.values })
  | .setPanning chip voice position =>
    ((), { s with panning := s.panning.set (voiceIndex chip voice) position })
  | .setStereo level => ((), { s with stereo := level })
  | .setReverb level => ((), { s with reverb := level })
  | .setSpeaker code => ((), { s with speaker := code })
  | .setFilter curve => (s.filterStatus, { s with filter := curve })
  | .setChip model => ((), { s with chip := model })
  | .setVideo standard => ((), { s with video := standard })
  | .setRegister _ _ _ => ((), s)
  | .enableVoice _ _ _ => ((), s)
  | .setRam address value =>
    ((), { s with ram := s.ram.setIfInBounds address.toNat value })

/-- A word that tells apart chips, buffers, ticks and a small offset. -/
def signature (chip : UInt8) (position : Cursor) (offset : Nat) : UInt16 :=
  UInt16.ofNat
    (chip.toNat * 10000 + position.buffer.toNat * 1000 + position.tick.toNat * 10 + offset)

instance : Engine Scripted where
  call c s := s.answer c
  isReady s := s.ready
  sampleRate s := s.rate
  sound s := s.sound
  song s := s.song
  digiType s := s.frame.kind
  digiLabel s := s.frame.label
  digiRate s := s.frame.rate
  panning s chip voice := s.panning.getD (voiceIndex chip voice) (-1.0)
  stereo s := s.stereo
  reverb s := s.reverb
  speaker s := s.speaker
  filter s := s.filter
  cutoffs s level := (s.cutoffs.lookup level).getD []
  chip s := s.chip
  video s := s.video
  chips s := s.chips
  baseAddress _ chip := UInt16.ofNat (0xd400 + chip.toNat * 0x20)
  register _ chip register position := signature chip position register.toNat
  voiceLevel _ chip voice position := signature chip position (voice.toNat + 5)
  ram s address := s.ram.getD address.toNat 0
  traceCount s := s.traceCount.getD s.traces.length
  trace? s index := s.traces[index]?

end Scripted

/-! ## Hooks -/

/-- A hook that counts frames in a byte of RAM, and then writes to a register. -/
def countingHook {ε : Type} [Engine ε] (address : UInt16)
    (write : Option (UInt8 × UInt16 × UInt8)) (engine : ε) : ε :=
  let counted := Engine.after (.setRam address (Engine.ram engine address + 1)) engine
  match write with
  | some (chip, register, value) => Engine.after (.setRegister chip register value) counted
  | none => counted

end SidPlayback
