/-
  The WAV format, for stereo samples of sixteen bits.

  A file is a header of 44 bytes, with all sizes in little-endian order, and the
  samples, left and right in turn.

  * `header` is the header for a rate and a data size;
  * `encode` is a complete file.
-/

namespace SidPlayback.Wave

/-- The number of channels. -/
def channels : Nat := 2

/-- The number of bytes of a sample. -/
def sampleSize : Nat := 2

/-- The number of bytes of a header. -/
def headerSize : Nat := 44

/-- A number as bytes, the lowest first. -/
def littleEndian : Nat → Nat → List UInt8
  | 0, _ => []
  | width + 1, n => UInt8.ofNat n :: littleEndian width (n / 256)

/-- The four bytes that name a part of a file. -/
def tag (name : String) : List UInt8 := name.toList.map fun c => UInt8.ofNat c.toNat

/-- The header of a file with `dataSize` bytes of samples. -/
def header (rate dataSize : Nat) : List UInt8 :=
  tag "RIFF" ++ littleEndian 4 (headerSize - 8 + dataSize) ++ tag "WAVE"
    ++ tag "fmt " ++ littleEndian 4 16 ++ littleEndian 2 1 ++ littleEndian 2 channels
    ++ littleEndian 4 rate ++ littleEndian 4 (rate * channels * sampleSize)
    ++ littleEndian 2 (channels * sampleSize) ++ littleEndian 2 (8 * sampleSize)
    ++ tag "data" ++ littleEndian 4 dataSize

/-- A sample as bytes, in two's complement. -/
def sampleBytes (s : Int16) : List UInt8 := littleEndian sampleSize s.toUInt16.toNat

/-- A file with the given samples. -/
def encode (rate : UInt32) (samples : List Int16) : List UInt8 :=
  header rate.toNat (samples.length * sampleSize) ++ samples.flatMap sampleBytes

end SidPlayback.Wave
