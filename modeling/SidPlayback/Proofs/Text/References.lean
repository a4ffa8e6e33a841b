/-
  What the text of a field says about its bytes.

  A text in extended ASCII stands for the bytes before the terminator, and for all of them: a
  reference ends with a semicolon, so it does not run together with what follows.  Only an
  ampersand of its own may be taken for the beginning of one.

  * `Text.Extended.Kept` says which bytes of a field count;
  * `Text.Extended.resolve` reads bytes from a text, references included;
  * `Text.Extended.resolve_rendering`: the text of a byte is read back, whatever follows;
  * `Text.Extended.decode_faithful`: what texts look like, and that two fields have the same
    text only if the same bytes count.
-/
import SidPlayback.Proofs.Decimal.Digits
import SidPlayback.Text.Extended
import Mathlib.Data.List.TakeWhile

namespace SidPlayback.Text.Extended

/-! ## The bytes that count -/

/-- The longest beginning of a field that is no longer than a field may be, without a zero
    byte. -/
structure Kept (bytes kept : List UInt8) : Prop where
  begins : kept <+: bytes
  short : kept.length ≤ 32
  nonzero : 0 ∉ kept
  longest : ∀ other, other <+: bytes → other.length ≤ 32 → 0 ∉ other → other <+: kept

theorem Kept.unique {bytes kept kept' : List UInt8} (h : Kept bytes kept)
    (h' : Kept bytes kept') : kept' = kept :=
  (h.longest kept' h'.begins h'.short h'.nonzero).eq_of_length_le
    (h'.longest kept h.begins h.short h.nonzero).length_le

theorem zero_notMem_significant (bytes : List UInt8) : 0 ∉ significant bytes := fun h => by
  have := List.mem_takeWhile_imp h
  cases this

theorem length_significant_le (bytes : List UInt8) : (significant bytes).length ≤ 32 :=
  (List.takeWhile_prefix _).length_le.trans (List.length_take_le 32 bytes)

theorem kept_significant (bytes : List UInt8) : Kept bytes (significant bytes) where
  begins := (List.takeWhile_prefix _).trans (List.take_prefix 32 bytes)
  short := length_significant_le bytes
  nonzero := zero_notMem_significant bytes
  longest other hbegins hshort hnonzero := by
    obtain ⟨rest, hrest⟩ : other <+: bytes.take 32 := List.prefix_take_iff.2 ⟨hbegins, hshort⟩
    have hall : ∀ b ∈ other, (b != 0) = true := fun b hb => by
      rw [bne_iff_ne]
      exact fun h0 => hnonzero (h0 ▸ hb)
    exact ⟨rest.takeWhile (· != 0), by
      rw [significant, fieldLength, ← hrest, List.takeWhile_append_of_pos hall]⟩

/-! ## The text of a byte -/

theorem toNat_ascii {n : Nat} (h : n < 128) : (Char.ofNat n).toNat = n := by
  rw [Char.ofNat, dif_pos (.inl (by omega))]
  rfl

theorem rendering_cases (b : UInt8) :
    (b.toNat < 128 ∧ rendering b = [Char.ofNat b.toNat] ∧ (Char.ofNat b.toNat).toNat = b.toNat) ∨
    (128 ≤ b.toNat ∧ rendering b = '&' :: '#' :: (Nat.toDigits 10 b.toNat ++ [';'])) := by
  rcases lt_or_ge b.toNat 128 with h | h
  · exact .inl ⟨h, if_pos (UInt8.lt_iff_toNat_lt.2 h), toNat_ascii h⟩
  · refine .inr ⟨h, ?_⟩
    rw [rendering, if_neg (by rw [UInt8.lt_iff_toNat_lt]; exact not_lt.2 h)]
    simp

theorem length_rendering_le (b : UInt8) : (rendering b).length ≤ 6 := by
  obtain ⟨-, h, -⟩ | ⟨-, h⟩ := rendering_cases b
  · simp [h]
  · have hdigits : (Nat.toDigits 10 b.toNat).length ≤ 3 :=
      (Nat.length_toDigits_le_iff (by decide) (by decide)).2 (b.toNat_lt.trans (by decide))
    rw [h]
    simp
    omega

/-- Every character is in ASCII, and none is zero. -/
theorem toNat_of_mem_rendering {b : UInt8} (hb : b ≠ 0) {c : Char} (hc : c ∈ rendering b) :
    1 ≤ c.toNat ∧ c.toNat ≤ 127 := by
  obtain ⟨hlow, h, hvalue⟩ | ⟨-, h⟩ := rendering_cases b
  · rw [h, List.mem_singleton] at hc
    have hpos : b.toNat ≠ 0 := fun h0 => hb (UInt8.toNat_inj.1 h0)
    rw [hc, hvalue]
    omega
  · simp only [h, List.mem_cons, List.mem_append, List.not_mem_nil, or_false] at hc
    obtain rfl | rfl | hdigit | rfl := hc
    · decide
    · decide
    · have := Decimal.isDigit_of_mem hdigit
      simp only [Char.isDigit, Bool.and_eq_true, decide_eq_true_eq, UInt32.le_iff_toNat_le] at this
      exact ⟨le_trans (by decide) this.1, this.2.trans (by decide)⟩
    · decide

/-! ## Reading -/

/-- The byte of the reference at the beginning of a text, behind its ampersand, and the text
    behind it; `none` if there is no reference. -/
def reference? : List Char → Option (UInt8 × List Char)
  | '#' :: rest =>
    let digits := rest.takeWhile Char.isDigit
    let n := Nat.ofDigitChars 10 digits 0
    match rest.dropWhile Char.isDigit with
    | ';' :: rest => if digits ≠ [] ∧ n < 256 then some (UInt8.ofNat n, rest) else none
    | _ => none
  | _ => none

theorem length_of_reference? {text rest : List Char} {b : UInt8}
    (h : reference? text = some (b, rest)) : rest.length < text.length := by
  unfold reference? at h
  split at h
  case h_1 behind =>
    split at h
    case h_1 tail htail =>
      dsimp only at h
      split at h
      · cases h
        have := (List.dropWhile_suffix Char.isDigit (l := behind)).length_le
        rw [htail] at this
        simp only [List.length_cons] at this ⊢
        omega
      · cases h
    case h_2 => cases h
  case h_2 => cases h

/-- The byte at the beginning of a text, and the text behind it: of a reference the byte that it
    names, of any other character the one with its code. -/
def first (c : Char) (rest : List Char) : UInt8 × List Char :=
  if c = '&' then (reference? rest).getD (38, rest) else (UInt8.ofNat c.toNat, rest)

theorem length_first_le (c : Char) (rest : List Char) : (first c rest).2.length ≤ rest.length := by
  unfold first
  split
  · cases h : reference? rest with
    | none => exact le_rfl
    | some found => exact (length_of_reference? h).le
  · exact le_rfl

/-- The bytes that a text stands for. -/
def resolve : List Char → List UInt8
  | [] => []
  | c :: rest =>
    have := length_first_le c rest
    (first c rest).1 :: resolve (first c rest).2
termination_by text => text.length

theorem resolve_nil : resolve [] = [] := by rw [resolve]

theorem resolve_cons {c : Char} {rest behind : List Char} {b : UInt8}
    (h : first c rest = (b, behind)) : resolve (c :: rest) = b :: resolve behind := by
  rw [resolve, h]

theorem reference?_digits (b : UInt8) (rest : List Char) :
    reference? ('#' :: (Nat.toDigits 10 b.toNat ++ ';' :: rest)) = some (b, rest) := by
  have hbare : Decimal.Bare (';' :: rest) := fun c hc => by
    cases hc
    rfl
  have hdigits : ∀ c ∈ Nat.toDigits 10 b.toNat, c.isDigit = true := fun _ => Decimal.isDigit_of_mem
  simp only [reference?, Decimal.takeWhile_digits hdigits hbare, Decimal.dropWhile_digits hdigits hbare,
    Nat.ofDigitChars_ten_toDigits]
  rw [if_pos ⟨Nat.toDigits_ne_nil, b.toNat_lt⟩, UInt8.ofNat_toNat]

/-- **The text of a byte** is read back, whatever follows, except for the ampersand. -/
theorem resolve_rendering {b : UInt8} (h : b ≠ 38) (rest : List Char) :
    resolve (rendering b ++ rest) = b :: resolve rest := by
  obtain ⟨-, htext, hvalue⟩ | ⟨-, htext⟩ := rendering_cases b
  · have hne : Char.ofNat b.toNat ≠ '&' := fun hand => by
      rw [hand] at hvalue
      exact h (UInt8.toNat_inj.1 hvalue.symm)
    rw [htext, List.singleton_append]
    exact resolve_cons (by rw [first, if_neg hne, hvalue, UInt8.ofNat_toNat])
  · rw [htext, List.cons_append, List.cons_append, List.append_assoc, List.singleton_append]
    exact resolve_cons (by rw [first, if_pos rfl, reference?_digits]; rfl)

theorem resolve_renderings {kept : List UInt8} (h : 38 ∉ kept) :
    resolve (kept.flatMap rendering) = kept := by
  induction kept with
  | nil => exact resolve_nil
  | cons b kept ih =>
    rw [List.mem_cons, not_or] at h
    rw [List.flatMap_cons, resolve_rendering (Ne.symm h.1), ih h.2]

/-! ## Texts of fields -/

theorem length_renderings_le (kept : List UInt8) :
    (kept.flatMap rendering).length ≤ 6 * kept.length := by
  induction kept with
  | nil => exact le_rfl
  | cons b kept ih =>
    have := length_rendering_le b
    rw [List.flatMap_cons, List.length_append, List.length_cons]
    omega

/-- How a byte is spelled: as a character, or as a reference by its number. -/
def spelling (b : UInt8) : String :=
  if b.toNat < 128 then String.singleton (Char.ofNat b.toNat) else "&#" ++ toString b.toNat ++ ";"

theorem toList_spelling (b : UInt8) : (spelling b).toList = rendering b := by
  obtain ⟨hlow, h, -⟩ | ⟨hhigh, h⟩ := rendering_cases b
  · rw [h, spelling, if_pos hlow, String.toList_singleton]
  · rw [h, spelling, if_neg (not_lt.2 hhigh), String.toList_append, String.toList_append,
      Nat.toString_eq_ofList_toDigits, String.toList_ofList]
    simp

section
variable {bytes kept : List UInt8}

theorem Kept.toList_decode (h : Kept bytes kept) :
    (decode bytes).toList = kept.flatMap rendering := by
  rw [(kept_significant bytes).unique h]
  exact String.toList_ofList

theorem Kept.decode_eq (h : Kept bytes kept) : decode bytes = String.join (kept.map spelling) := by
  rw [← String.toList_inj, h.toList_decode, String.toList_join, List.flatMap_map]
  simp only [toList_spelling]

theorem Kept.resolve_decode (h : Kept bytes kept) (hand : 38 ∉ kept) :
    resolve (decode bytes).toList = kept := by
  rw [h.toList_decode, resolve_renderings hand]

end

/-- **Texts lose nothing but the tail.**  The text of a field spells the bytes that count, one by
    one, in at most 192 characters of ASCII, none of them zero.  It depends on no other bytes,
    and these are read back from it unless there is an ampersand among them. -/
theorem decode_faithful (bytes : List UInt8) :
    ∃ kept, Kept bytes kept ∧ (∀ other, Kept bytes other → other = kept) ∧
      decode bytes = String.join (kept.map spelling) ∧
      (∀ c ∈ (decode bytes).toList, 1 ≤ c.toNat ∧ c.toNat ≤ 127) ∧
      (decode bytes).length ≤ 192 ∧
      (38 ∉ kept → resolve (decode bytes).toList = kept) ∧
      ∀ bytes' kept', Kept bytes' kept' →
        (kept' = kept → decode bytes' = decode bytes) ∧
        (38 ∉ kept → 38 ∉ kept' → decode bytes' = decode bytes → kept' = kept) := by
  have hkept := kept_significant bytes
  refine ⟨significant bytes, hkept, fun _ => hkept.unique, hkept.decode_eq, fun c hc => ?_, ?_,
    hkept.resolve_decode, fun bytes' kept' hkept' => ⟨fun heq => ?_, fun hand hand' htext => ?_⟩⟩
  · rw [hkept.toList_decode, List.mem_flatMap] at hc
    obtain ⟨b, hb, hc⟩ := hc
    exact toNat_of_mem_rendering (fun h0 => hkept.nonzero (h0 ▸ hb)) hc
  · rw [← String.length_toList, hkept.toList_decode]
    have := length_renderings_le (significant bytes)
    have := hkept.short
    omega
  · rw [hkept'.decode_eq, hkept.decode_eq, heq]
  · rw [← hkept'.resolve_decode hand', htext, hkept.resolve_decode hand]

/-- An ampersand may be taken for the beginning of a reference: these fields have one text. -/
example : decode [38, 35, 50, 51, 51, 59] = decode [233] := by decide

end SidPlayback.Text.Extended
