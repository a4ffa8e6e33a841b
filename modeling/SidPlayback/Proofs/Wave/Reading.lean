/-
  Reading WAV files.

  * `Wave.read` reads a file of 16 bit samples, if all that its header says is consistent:
    the sizes with the length of the file, the alignment and the byte rate with the format;
  * `Wave.read_encode`: what is read from an encoded file is what it was encoded from, as long
    as its sizes can be written in four bytes.
-/
import Mathlib.Algebra.Group.Nat.Even
import SidPlayback.Wave.Format

namespace SidPlayback.Wave

/-! ## Readers -/

/-- The number that bytes write, the lowest first. -/
def number : List UInt8 → ℕ
  | [] => 0
  | b :: rest => b.toNat + 256 * number rest

/-- The samples that bytes write, two for each, in two's complement. -/
def samples : List UInt8 → List Int16
  | low :: high :: rest => (UInt16.ofNat (number [low, high])).toInt16 :: samples rest
  | _ => []

/-- The bytes at a place of a file. -/
def part (file : List UInt8) (place size : ℕ) : List UInt8 := (file.drop place).take size

/-- The number at a place of a file. -/
def field (file : List UInt8) (place size : ℕ) : ℕ := number (part file place size)

/-- What a file holds. -/
structure Contents where
  channels : ℕ
  rate : ℕ
  /-- The samples of all channels, in turn. -/
  samples : List Int16
deriving DecidableEq

/-- A file is the header of uncompressed samples of 16 bits, and nothing but samples after
    it.  Its parts are named `RIFF`, `WAVE`, `fmt ` and `data`, its sizes are right, and the
    bytes of a frame (at place 32) and of a second (28) agree with the channels (22) and the
    rate (24). -/
def Consistent (file : List UInt8) : Prop :=
  part file 0 4 = [0x52, 0x49, 0x46, 0x46] ∧ field file 4 4 + 8 = file.length ∧
  part file 8 4 = [0x57, 0x41, 0x56, 0x45] ∧ part file 12 4 = [0x66, 0x6d, 0x74, 0x20] ∧
  field file 16 4 = 16 ∧ field file 20 2 = 1 ∧
  field file 34 2 = 16 ∧ field file 32 2 = field file 22 2 * 2 ∧
  field file 28 4 = field file 24 4 * field file 32 2 ∧
  part file 36 4 = [0x64, 0x61, 0x74, 0x61] ∧ field file 40 4 + 44 = file.length ∧
  field file 40 4 % field file 32 2 = 0

instance (file : List UInt8) : Decidable (Consistent file) := inferInstanceAs (Decidable (_ ∧ _))

/-- Reads a file. -/
def read (file : List UInt8) : Option Contents :=
  if Consistent file then some ⟨field file 22 2, field file 24 4, samples (file.drop 44)⟩
  else none

/-! ## Encoded files -/

theorem number_littleEndian (width n : ℕ) : number (littleEndian width n) = n % 256 ^ width := by
  induction width generalizing n with
  | zero => rw [pow_zero, Nat.mod_one]; rfl
  | succ width ih =>
    rw [littleEndian, number, ih, Nat.pow_succ', Nat.mod_mul, UInt8.toNat_ofNat']

theorem number_of_lt {width n : ℕ} (h : n < 256 ^ width) : number (littleEndian width n) = n := by
  rw [number_littleEndian, Nat.mod_eq_of_lt h]

theorem samples_sampleBytes (s : Int16) (rest : List UInt8) :
    samples (sampleBytes s ++ rest) = s :: samples rest := by
  have hnumber : number (sampleBytes s) = s.toUInt16.toNat := number_of_lt s.toUInt16.toNat_lt
  show (UInt16.ofNat (number (sampleBytes s))).toInt16 :: samples rest = _
  rw [hnumber, UInt16.ofNat_toNat, Int16.toInt16_toUInt16]

theorem samples_flatMap (sound : List Int16) : samples (sound.flatMap sampleBytes) = sound := by
  induction sound with
  | nil => rfl
  | cons s rest ih => rw [List.flatMap_cons, samples_sampleBytes, ih]

theorem field_eq {file : List UInt8} {place size n : ℕ}
    (h : part file place size = littleEndian size n) (hn : n < 256 ^ size) :
    field file place size = n := by
  rw [field, h, number_of_lt hn]

section
variable (rate : UInt32) (sound : List Int16)

/-- A file with the tags in plain bytes, so that its parts can be looked up. -/
theorem encode_eq : encode rate sound =
    [0x52, 0x49, 0x46, 0x46] ++ littleEndian 4 (36 + sound.length * 2) ++ [0x57, 0x41, 0x56, 0x45]
      ++ [0x66, 0x6d, 0x74, 0x20] ++ littleEndian 4 16 ++ littleEndian 2 1 ++ littleEndian 2 2
      ++ littleEndian 4 rate.toNat ++ littleEndian 4 (rate.toNat * 2 * 2) ++ littleEndian 2 4
      ++ littleEndian 2 16 ++ [0x64, 0x61, 0x74, 0x61] ++ littleEndian 4 (sound.length * 2)
      ++ sound.flatMap sampleBytes := by
  have hriff : tag "RIFF" = [0x52, 0x49, 0x46, 0x46] := by decide
  have hwave : tag "WAVE" = [0x57, 0x41, 0x56, 0x45] := by decide
  have hformat : tag "fmt " = [0x66, 0x6d, 0x74, 0x20] := by decide
  have hdata : tag "data" = [0x64, 0x61, 0x74, 0x61] := by decide
  rw [encode, header, hriff, hwave, hformat, hdata]
  rfl

theorem length_encode : (encode rate sound).length = 44 + 2 * sound.length := by
  have hbody : (sound.flatMap sampleBytes).length = 2 * sound.length := by
    induction sound with
    | nil => rfl
    | cons s rest ih =>
      have hs : (sampleBytes s).length = 2 := rfl
      rw [List.flatMap_cons, List.length_append, hs, ih, List.length_cons, Nat.mul_succ,
        Nat.add_comm]
  rw [encode_eq]
  simp [littleEndian, hbody]
  omega

theorem drop_encode : (encode rate sound).drop 44 = sound.flatMap sampleBytes := by
  rw [encode_eq]
  simp [littleEndian]

theorem field_format : field (encode rate sound) 16 4 = 16 ∧ field (encode rate sound) 20 2 = 1 ∧
    field (encode rate sound) 22 2 = 2 ∧ field (encode rate sound) 32 2 = 4 ∧
    field (encode rate sound) 34 2 = 16 := by
  rw [encode_eq]
  refine ⟨?_, ?_, ?_, ?_, ?_⟩ <;> simp [field, part, littleEndian, number]

theorem part_tags : part (encode rate sound) 0 4 = [0x52, 0x49, 0x46, 0x46] ∧
    part (encode rate sound) 8 4 = [0x57, 0x41, 0x56, 0x45] ∧
    part (encode rate sound) 12 4 = [0x66, 0x6d, 0x74, 0x20] ∧
    part (encode rate sound) 36 4 = [0x64, 0x61, 0x74, 0x61] := by
  rw [encode_eq]
  refine ⟨?_, ?_, ?_, ?_⟩ <;> simp [part, littleEndian]

theorem field_rate : field (encode rate sound) 24 4 = rate.toNat := by
  refine field_eq ?_ rate.toNat_lt
  rw [encode_eq]
  simp [part, littleEndian]

theorem field_byteRate (h : rate.toNat ≤ 1073741823) :
    field (encode rate sound) 28 4 = rate.toNat * 2 * 2 := by
  refine field_eq ?_ (by omega)
  rw [encode_eq]
  simp [part, littleEndian]

variable {sound} (hsize : 2 * sound.length < 2 ^ 32 - 36)
include hsize

theorem field_riffSize : field (encode rate sound) 4 4 = 36 + sound.length * 2 := by
  refine field_eq ?_ (by omega)
  rw [encode_eq]
  simp [part, littleEndian]

theorem field_dataSize : field (encode rate sound) 40 4 = sound.length * 2 := by
  refine field_eq ?_ (by omega)
  rw [encode_eq]
  simp [part, littleEndian]

end

/-- **An encoded file is read as it was meant.** -/
theorem read_encode {rate : UInt32} {sound : List Int16} (hrate : rate.toNat ≤ 1073741823)
    (heven : Even sound.length) (hsize : 2 * sound.length < 2 ^ 32 - 36) :
    read (encode rate sound) = some ⟨2, rate.toNat, sound⟩ := by
  obtain ⟨hformat, hpcm, hchannels, halign, hdepth⟩ := field_format rate sound
  obtain ⟨hriff, hwave, hfmt, hdata⟩ := part_tags rate sound
  have hconsistent : Consistent (encode rate sound) := by
    refine ⟨hriff, ?_, hwave, hfmt, hformat, hpcm, hdepth, ?_, ?_, hdata, ?_, ?_⟩
    · rw [field_riffSize rate hsize, length_encode]
      omega
    · rw [halign, hchannels]
    · rw [field_byteRate rate sound hrate, field_rate, halign, Nat.mul_assoc]
    · rw [field_dataSize rate hsize, length_encode]
      omega
    · obtain ⟨n, hn⟩ := heven
      rw [field_dataSize rate hsize, halign]
      omega
  rw [read, if_pos hconsistent, hchannels, field_rate, drop_encode, samples_flatMap]

end SidPlayback.Wave
