/-
  The ROM images of a machine.

  Images are supplied as base64 texts.  A text that does not decode to exactly
  the size of its ROM counts as not supplied, since songs that do not need a ROM
  play without it.

  * `Image.decode` decodes one text, `Bank.decode` the three of a machine;
  * `Bank.count` is the number of images present.
-/
import SidPlayback.Rom.Base64
import SidPlayback.Notice

namespace SidPlayback.Rom

/-- The contents of a ROM. -/
structure Image where
  bytes : List UInt8
deriving DecidableEq

namespace Image

/-- The number of bytes of an image. -/
def size (image : Image) : Nat := image.bytes.length

/-- Whether an image has no bytes. -/
def isEmpty (image : Image) : Bool := image.bytes.isEmpty

/-- The image that a text encodes, if it has `expected` bytes. -/
def decode (text : String) (expected : Nat) : Option Image :=
  match Base64.decode (Base64.decodable text.toList) with
  | none => none
  | some bytes => if bytes.length = expected then some ⟨bytes⟩ else none

/-- What there is to report on decoding a text: that it is refused, or an image of
    another size. -/
def decodingNotices (text : String) (expected : Nat) : List Notice :=
  match Base64.decode (Base64.decodable text.toList) with
  | none => [.romRejected]
  | some bytes => if bytes.length = expected then [] else [.romSize bytes.length expected]

end Image

/-- The size of the BASIC and of the KERNAL ROM. -/
def programSize : Nat := 8192

/-- The size of the character ROM. -/
def characterSize : Nat := 4096

/-- The three ROMs that a program may depend on. -/
structure Bank where
  /-- The BASIC interpreter, at `$A000`. -/
  basic : Option Image
  /-- The character generator, at `$D000`. -/
  character : Option Image
  /-- The KERNAL, at `$E000`. -/
  kernal : Option Image

/-- The texts that a bank is decoded from. -/
structure Texts where
  basic : Option String
  character : Option String
  kernal : Option String

namespace Bank

/-- The images that the texts hold, each of the size of its ROM. -/
def decode (texts : Texts) : Bank where
  basic := texts.basic.bind (Image.decode · programSize)
  character := texts.character.bind (Image.decode · characterSize)
  kernal := texts.kernal.bind (Image.decode · programSize)

/-- What there is to report on decoding the texts, in the order of the ROMs. -/
def decodingNotices (texts : Texts) : List Notice :=
  let notices (text : Option String) (size : Nat) :=
    (text.map (Image.decodingNotices · size)).getD []
  notices texts.basic programSize ++ notices texts.character characterSize
    ++ notices texts.kernal programSize

/-- The number of images present. -/
def count (bank : Bank) : Nat :=
  ([bank.basic, bank.character, bank.kernal].filter (·.isSome)).length

end Bank
end SidPlayback.Rom
