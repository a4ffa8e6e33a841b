/-
  What is known about a song.

  The engine keeps this information with raw text fields (`Raw`); `Info.ofRaw`
  decodes them.

  * `Info.record` describes the information in JSON.
-/
import SidPlayback.Json.Record
import SidPlayback.Text.Extended

namespace SidPlayback.Song

/-- The information as the engine keeps it: texts in extended ASCII. -/
structure Raw where
  loadAddress : Int32
  playSpeed : Int32
  subsongs : Int8
  subsong : Int8
  name : List UInt8
  author : List UInt8
  released : List UInt8

/-- The information on a song. -/
structure Info where
  /-- Where the song is loaded. -/
  loadAddress : Int32
  /-- The play speed flags. -/
  playSpeed : Int32
  /-- The number of subsongs. -/
  subsongs : Int8
  /-- The active subsong. -/
  subsong : Int8
  name : String
  author : String
  released : String
deriving DecidableEq

namespace Info

/-- The information with its texts decoded. -/
def ofRaw (raw : Raw) : Info where
  loadAddress := raw.loadAddress
  playSpeed := raw.playSpeed
  subsongs := raw.subsongs
  subsong := raw.subsong
  name := Text.Extended.decode raw.name
  author := Text.Extended.decode raw.author
  released := Text.Extended.decode raw.released

/-- The information on no song. -/
def blank : Info := ⟨0, 0, 0, 0, "", "", ""⟩

open Json in
/-- The information in JSON. -/
def record : Record Info where
  name := "struct SongInfo"
  blank := blank
  lenient := false
  fields := [
    .of "loadAddr" .int32 loadAddress fun v info => { info with loadAddress := v },
    .of "playSpeed" .int32 playSpeed fun v info => { info with playSpeed := v },
    .of "maxSubsong" .int8 subsongs fun v info => { info with subsongs := v },
    .of "actualSubsong" .int8 subsong fun v info => { info with subsong := v },
    .of "songName" .text name fun v info => { info with name := v },
    .of "songAuthor" .text author fun v info => { info with author := v },
    .of "songReleased" .text released fun v info => { info with released := v }]

end Info
end SidPlayback.Song
