/-
  Records in JSON that are read back as they were written.

  A record writes its fields in order.  Reading it changes the record before any field was read,
  field by field, and each field is written once: so what was read is the record, if the changes
  make it so.

  * `Json.Field.Faithful` says that a field reads back what it writes of a record;
  * `Json.Record.yields_entries`: the entries of an object are read one by one;
  * `Json.Record.yields_read`: a record is read back if its fields are;
  * `records_read_back`: the records without floating point that players read and write.
-/
import SidPlayback.Digi.Status
import SidPlayback.Proofs.Json.Codec
import SidPlayback.Settings
import SidPlayback.Song.Info
import SidPlayback.TrackOptions
import Mathlib.Data.List.Forall2

namespace SidPlayback.Json

variable {α β : Type}

/-- A field reads back what it writes of a record, as a change of records. -/
def Field.Faithful (field : Field α) (a : α) (change : α → α) : Prop :=
  ∀ rest, Ends rest → Yields field.read (field.write a ++ rest) change rest

theorem Codec.Returns.field {codec : Codec β} {get : α → β} {a : α} {b : β} (name : String)
    (set : β → α → α) (h : codec.Returns (get a) b) : (Field.of name codec get set).Faithful a (set b) :=
  fun rest hrest => (h rest hrest).map set

theorem Codec.Faithful.field {codec : Codec β} {get : α → β} {a : α} (name : String)
    (set : β → α → α) (h : codec.Faithful (get a)) :
    (Field.of name codec get set).Faithful a (set (get a)) :=
  Returns.field name set h

namespace Record

/-! ## Entries -/

/-- The text of an entry. -/
def entry (a : α) (field : Field α) : List Char := Text.write field.name ++ [':'] ++ field.write a

/-- What stands before an entry. -/
def separator (first : Bool) : List Char := if first then [] else [',']

/-- The text of entries. -/
def written (a : α) : Bool → List (Field α) → List Char
  | _, [] => []
  | first, field :: rest => separator first ++ entry a field ++ written a false rest

theorem intercalate_entries (a : α) (fields : List (Field α)) :
    [','].intercalate (fields.map (entry a)) = written a true fields := by
  cases fields with
  | nil => rfl
  | cons field fields =>
    induction fields generalizing field with
    | nil => simp [written, separator]
    | cons next fields ih =>
      rw [List.map_cons, List.map_cons, List.intercalate_cons_cons, ← List.map_cons, ih]
      simp [written, separator]

theorem length_le_written (a : α) (first : Bool) (fields : List (Field α)) :
    fields.length ≤ (written a first fields).length := by
  induction fields generalizing first with
  | nil => exact Nat.zero_le _
  | cons field rest ih =>
    have := ih false
    simp only [written, entry, Text.write, List.length_append, List.length_cons]
    omega

theorem ends_written (a : α) (fields : List (Field α)) (rest : List Char) :
    Ends (written a false fields ++ '\x7d' :: rest) := by
  cases fields with
  | nil => exact fun c hc => .inr (Option.some_inj.1 hc).symm
  | cons field fields => exact fun c hc => .inl (Option.some_inj.1 hc).symm

theorem yields_nextName (first : Bool) (text : List Char) :
    Yields (nextName first) (separator first ++ '"' :: text) true text := by
  cases first with
  | true => exact (yields_look_cons '"' _ rfl).bind ((yields_take '"' text).bind (.pure true _))
  | false =>
    exact (yields_look_cons ',' _ rfl).bind ((yields_take ',' _).bind
      ((yields_look_cons '"' _ rfl).bind ((yields_take '"' text).bind (.pure true _))))

theorem yields_noName (first : Bool) (text : List Char) :
    Yields (nextName first) ('\x7d' :: text) false ('\x7d' :: text) :=
  (yields_look_cons '\x7d' text rfl).bind (.pure false _)

theorem yields_colon (text : List Char) : Yields colon (':' :: text) () text :=
  (yields_look_cons ':' _ rfl).bind (yields_take ':' text)

theorem find?_name {fields : List (Field α)} (hnames : (fields.map (·.name)).Nodup) {field : Field α}
    (h : field ∈ fields) : fields.find? (·.name == field.name) = some field := by
  induction fields with
  | nil => cases h
  | cons other fields ih =>
    rw [List.map_cons, List.nodup_cons] at hnames
    obtain rfl | hmem := List.mem_cons.1 h
    · exact List.find?_cons_of_pos (by simp)
    · have hne : other.name ≠ field.name := fun heq =>
        hnames.1 (heq ▸ List.mem_map_of_mem hmem)
      rw [List.find?_cons_of_neg (by simpa using hne), ih hnames.2 hmem]

section
variable {fields : List (Field α)} (hnames : (fields.map (·.name)).Nodup) (a : α)
include hnames

/-- One entry is read, and then the others. -/
theorem yields_entry {field : Field α} {change : α → α} {steps : Nat} {first : Bool}
    {seen : List String} {b : α} {text rest : List Char} {result : List String × α}
    (hmem : field ∈ fields) (hnew : field.name ∉ seen) (hfield : field.Faithful a change)
    (hends : Ends text)
    (h : Yields (entries fields steps false (field.name :: seen) (change b)) text result rest) :
    Yields (entries fields (steps + 1) first seen b)
      (separator first ++ entry a field ++ text) result rest := by
  have hentry : separator first ++ entry a field ++ text = separator first ++
      '"' :: (field.name.toList.flatMap Text.escape ++ '"' :: (':' :: (field.write a ++ text))) := by
    simp [entry, Text.write]
  rw [hentry]
  refine (yields_nextName first _).bind ((Text.yields_read field.name _).bind ?_)
  simp only [find?_name hnames hmem, List.contains_iff_mem, hnew, if_false]
  exact (yields_colon _).bind ((hfield _ hends).bind h)

/-- **The entries of an object** are read one by one, up to the closing brace. -/
theorem yields_entries {more : List (Field α)} {changes : List (α → α)}
    (hmore : List.Forall₂ (fun field change => field.Faithful a change) more changes)
    {steps : Nat} (first : Bool) (seen : List String) (b : α) (rest : List Char)
    (hsteps : more.length < steps) (hmem : ∀ field ∈ more, field ∈ fields)
    (hapart : (more.map (·.name)).Nodup) (hnew : ∀ field ∈ more, field.name ∉ seen) :
    Yields (entries fields steps first seen b) (written a first more ++ '\x7d' :: rest)
      ((more.map (·.name)).reverse ++ seen, changes.foldl (fun b change => change b) b) rest := by
  -- On the fields that are still to be read: their names are apart from those that were seen.
  induction hmore generalizing steps first seen b with
  | nil =>
    obtain _ | steps := steps
    · cases hsteps
    · exact (yields_noName first rest).bind ((yields_take '\x7d' rest).bind (.pure _ rest))
  | @cons field change more changes hfield _ ih =>
    obtain _ | steps := steps
    · cases hsteps
    · rw [List.map_cons, List.nodup_cons] at hapart
      rw [List.forall_mem_cons] at hmem hnew
      have hlater : ∀ other ∈ more, other.name ∉ field.name :: seen := fun other hother => by
        rw [List.mem_cons, not_or]
        exact ⟨fun heq => hapart.1 (heq ▸ List.mem_map_of_mem hother), hnew.2 other hother⟩
      have hothers := ih false (field.name :: seen) (change b) (Nat.lt_of_succ_lt_succ hsteps)
        hmem.2 hapart.2 hlater
      rw [written, List.append_assoc, List.map_cons, List.reverse_cons,
        List.append_assoc (List.reverse _)]
      exact yields_entry hnames a hmem.1 hnew.1 hfield (ends_written a more rest) hothers

end

/-! ## Records -/

/-- Nothing is missing if all names were seen. -/
theorem find?_missing {fields : List (Field α)} {seen : List String} (lenient : Bool)
    (h : ∀ field ∈ fields, field.name ∈ seen) :
    fields.find? (fun field => !lenient && !seen.contains field.name) = none := by
  rw [List.find?_eq_none]
  intro field hfield
  rw [List.contains_iff_mem.2 (h field hfield), Bool.not_true, Bool.and_false]
  exact Bool.false_ne_true

section
variable {r : Record α} {a b : α} {changes : List (α → α)}
  (hnames : (r.fields.map (·.name)).Nodup)
  (hfields : List.Forall₂ (fun field change => field.Faithful a change) r.fields changes)
  (hresult : changes.foldl (fun sofar change => change sofar) r.blank = b)
include hnames hfields hresult

theorem yields_fromObject (rest : List Char) :
    Yields r.fromObject (written a true r.fields ++ '\x7d' :: rest) b rest := by
  have hsteps : r.fields.length < (written a true r.fields ++ '\x7d' :: rest).length + 1 := by
    have := length_le_written a true r.fields
    rw [List.length_append]
    omega
  have hentries := yields_entries hnames a hfields true [] r.blank rest hsteps (fun _ h => h) hnames
    (fun _ _ => List.not_mem_nil)
  rw [hresult, List.append_nil] at hentries
  have hread : Yields (fun i => entries r.fields (i.rest.length + 1) true [] r.blank i) _ _ _ :=
    hentries
  refine hread.bind ?_
  have hseen : ∀ field ∈ r.fields, field.name ∈ (r.fields.map (·.name)).reverse :=
    fun field hfield => List.mem_reverse.2 (List.mem_map_of_mem hfield)
  simp only [find?_missing r.lenient hseen]
  exact .pure b rest

/-- **A record is read back** if its fields are: as the record that their changes make of the one
    before any field was read. -/
theorem yields_read (rest : List Char) : Yields r.read (r.write a ++ rest) b rest := by
  have hwrite : r.write a ++ rest = '\x7b' :: (written a true r.fields ++ '\x7d' :: rest) := by
    change ['\x7b'] ++ [','].intercalate (r.fields.map (entry a)) ++ ['\x7d'] ++ rest = _
    rw [intercalate_entries]
    simp
  rw [hwrite]
  exact (yields_look_cons '\x7b' _ rfl).bind
    ((yields_take '\x7b' _).bind (yields_fromObject hnames hfields hresult rest))

theorem parse_render : r.parse (r.render a) = .ok b := by
  refine whole_of_yields ?_
  have hread := yields_read hnames hfields hresult []
  rw [List.append_nil] at hread
  rw [render, String.toList_ofList]
  exact hread

end
end Record
end SidPlayback.Json

namespace SidPlayback

open Json.Codec

/-! ## The records of players -/

theorem Song.Info.parse_render (info : Song.Info) :
    Song.Info.record.parse (Song.Info.record.render info) = .ok info :=
  Json.Record.parse_render (by decide)
    (.cons ((int32_faithful info.loadAddress).field _ _) <|
      .cons ((int32_faithful info.playSpeed).field _ _) <|
      .cons ((int8_faithful info.subsongs).field _ _) <|
      .cons ((int8_faithful info.subsong).field _ _) <|
      .cons ((text_faithful info.name).field _ _) <|
      .cons ((text_faithful info.author).field _ _) <|
      .cons ((text_faithful info.released).field _ _) .nil) rfl

theorem Digi.Status.parse_render (status : Digi.Status) :
    Digi.Status.record.parse (Digi.Status.record.render status) = .ok status :=
  Json.Record.parse_render (by decide)
    (.cons ((uint32_faithful status.rate).field _ _) <|
      .cons ((text_faithful status.label).field _ _) .nil) rfl

theorem TrackOptions.parse_render {o : TrackOptions} (h : o.timeout = none) :
    TrackOptions.record.parse (TrackOptions.record.render o) = .ok o := by
  have htimeout : (real.optional).Faithful o.timeout := by
    rw [h]
    exact optional_none real
  exact Json.Record.parse_render (by decide)
    (.cons ((optional_int32 o.track).field _ _) <|
      .cons ((optional_boolean o.traced).field _ _) <|
      .cons (htimeout.field _ _) .nil) rfl

theorem Settings.parse_render {s : Settings} (h : s.panning = none) :
    Settings.record.parse (Settings.record.render s) = .ok s := by
  have hpanning : (single.list.optional).Faithful s.panning := by
    rw [h]
    exact optional_none single.list
  exact Json.Record.parse_render (by decide)
    (.cons ((boolean_faithful s.scope).field _ _) <|
      .cons (hpanning.field _ _) .nil) rfl

/-- **Records without floating point are read back**: the information on every song, whatever
    characters its texts hold, every digi status, all options without a timeout, and all settings
    without a panning. -/
theorem records_read_back :
    (∀ info : Song.Info, Song.Info.record.parse (Song.Info.record.render info) = .ok info) ∧
    (∀ status : Digi.Status, Digi.Status.record.parse (Digi.Status.record.render status) = .ok status) ∧
    (∀ o : TrackOptions, o.timeout = none →
      TrackOptions.parse (TrackOptions.record.render o) = .ok o) ∧
    (∀ s : Settings, s.panning = none → Settings.parse (Settings.record.render s) = .ok s) := by
  refine ⟨Song.Info.parse_render, Digi.Status.parse_render, fun o h => ?_, fun s h => ?_⟩
  · have hread : TrackOptions.record.decode (TrackOptions.record.render o) = .ok o := by
      rw [Json.Record.decode, TrackOptions.parse_render h]
      rfl
    have hcheck : o.check = .ok () := by rw [TrackOptions.check, h]
    rw [TrackOptions.parse, hread]
    change (o.check >>= fun _ => pure o) = _
    rw [hcheck]
    rfl
  · rw [Settings.parse, Json.Record.decode, Settings.parse_render h]
    rfl

theorem records_read_back_nulls :
    let options : TrackOptions := { track := some 3, traced := some true }
    let settings : Settings := { scope := true }
    let song : Song.Info := ⟨-1, 50, -128, 1, "\"\\", "\x01\n", ""⟩
    let optionsText := "\x7b\"track\":3,\"traceSID\":true,\"timeout\":null\x7d"
    let settingsText := "\x7b\"scopeEnabled\":true,\"panning\":null\x7d"
    options.timeout = none ∧ TrackOptions.record.render options = optionsText ∧
      TrackOptions.parse optionsText = .ok options ∧
      settings.panning = none ∧ Settings.record.render settings = settingsText ∧
      Settings.parse settingsText = .ok settings ∧
      Song.Info.record.parse (Song.Info.record.render song) = .ok song := by
  intro options settings song optionsText settingsText
  obtain ⟨hsong, -, hoptions, hsettings⟩ := records_read_back
  have hoptionsText : TrackOptions.record.render options = optionsText := by decide +kernel
  have hsettingsText : Settings.record.render settings = settingsText := by decide +kernel
  have hoptionsRead := hoptions options rfl
  have hsettingsRead := hsettings settings rfl
  rw [hoptionsText] at hoptionsRead
  rw [hsettingsText] at hsettingsRead
  exact ⟨rfl, hoptionsText, hoptionsRead, rfl, hsettingsText, hsettingsRead, hsong song⟩

end SidPlayback
