/-
  Listings of memory are read back.

  A reader that knows the name skips the header and reads the items line by line, up to the
  closing brace.

  * `Memory.Listing.items?` reads a line, and `Memory.Listing.read?` a listing;
  * `Memory.Listing.Layout` says what a listing looks like, and which bytes stand on its lines;
  * `Memory.Listing.Layout.read`: every text of this layout is read;
  * `Memory.Listing.listings_read_back`: the listings of bytes have this layout, and those of
    RAM hold all addresses that were asked for, the last one included.
-/
import SidPlayback.Player.Control
import Mathlib.Data.List.Forall2

namespace SidPlayback.Memory.Listing

/-! ## Reading -/

/-- The value of a digit in upper-case hexadecimal. -/
def digit? (c : Char) : Option Nat :=
  if '0' ≤ c ∧ c ≤ '9' then some (c.toNat - 48)
  else if 'A' ≤ c ∧ c ≤ 'F' then some (c.toNat - 55)
  else none

/-- The bytes of a line of items. -/
def items? : List Char → Option (List UInt8)
  | [] => some []
  | '0' :: 'x' :: high :: low :: ',' :: ' ' :: rest => do
    let b := UInt8.ofNat ((← digit? high) * 16 + (← digit? low))
    pure (b :: (← items? rest))
  | _ => none

/-- The bytes of lines of items, up to the line with the closing brace, which is the last. -/
def rows? : List (List Char) → Option (List (List UInt8))
  | [] => none
  | line :: rest =>
    if line = ['\x7d'] then if rest = [[]] then some [] else none
    else do
      let row ← items? line
      pure (row :: (← rows? rest))

/-- What comes before the items of a listing. -/
def header (name : String) : String := "const unsigned char " ++ name ++ "[] =\n\x7b\n"

/-- The bytes of a listing under the given name. -/
def read? (name text : String) : Option (List UInt8) := do
  let body ← (header name).toList.isPrefixOf? text.toList
  let rows ← rows? (body.splitOn '\n')
  pure rows.flatten

/-! ## Items -/

theorem digit?_hexDigit : ∀ n < 16, digit? (hexDigit n) = some n := by decide

theorem hexDigit_ne_newline : ∀ n < 16, hexDigit n ≠ '\n' := by decide

theorem items?_item (b : UInt8) (rest : List Char) :
    items? (item b ++ rest) = (items? rest).map (b :: ·) := by
  have hlimit : b.toNat < 256 := b.toNat_lt
  have hhigh : digit? (hexDigit (b.toNat / 16)) = some (b.toNat / 16) :=
    digit?_hexDigit _ (by omega)
  have hlow : digit? (hexDigit (b.toNat % 16)) = some (b.toNat % 16) :=
    digit?_hexDigit _ (by omega)
  have hvalue : UInt8.ofNat (b.toNat / 16 * 16 + b.toNat % 16) = b := by
    rw [Nat.div_add_mod', UInt8.ofNat_toNat]
  simp only [item, List.cons_append, List.nil_append, items?, hhigh, hlow, Option.bind_eq_bind,
    Option.bind_some, hvalue]
  rw [Option.map_eq_bind]
  rfl

theorem items?_row (row : List UInt8) : items? (row.flatMap item) = some row := by
  induction row with
  | nil => rfl
  | cons b row ih => rw [List.flatMap_cons, items?_item, ih, Option.map_some]

theorem newline_notMem_row (row : List UInt8) : '\n' ∉ row.flatMap item := by
  intro h
  obtain ⟨b, -, hb⟩ := List.mem_flatMap.1 h
  have hlimit : b.toNat < 256 := b.toNat_lt
  have hhigh := hexDigit_ne_newline (b.toNat / 16) (by omega)
  have hlow := hexDigit_ne_newline (b.toNat % 16) (by omega)
  simp only [item, List.mem_cons, List.not_mem_nil, or_false] at hb
  obtain hb | hb | hb | hb | hb | hb := hb
  · cases hb
  · cases hb
  · exact hhigh hb.symm
  · exact hlow hb.symm
  · cases hb
  · cases hb

/-! ## Lines -/

theorem flatten_lines (bytes : List UInt8) : (lines bytes).flatten = bytes := by
  induction bytes using lines.induct with
  | case1 => rw [lines, List.flatten_nil]
  | case2 b rest ih => rw [lines, List.flatten_cons, ih, List.cons_append, List.take_append_drop]

theorem length_lines (bytes : List UInt8) : (lines bytes).length = (bytes.length + 11) / 12 := by
  induction bytes using lines.induct with
  | case1 => rw [lines]; rfl
  | case2 b rest ih =>
    rw [lines, List.length_cons, ih, List.length_drop, List.length_cons, lineLength]
    omega

theorem lines_eq_nil_iff {bytes : List UInt8} : lines bytes = [] ↔ bytes = [] := by
  cases bytes <;> simp [lines]

theorem length_of_mem_dropLast {bytes : List UInt8} :
    ∀ row ∈ (lines bytes).dropLast, row.length = 12 := by
  induction bytes using lines.induct with
  | case1 => rw [lines]; exact fun _ h => absurd h List.not_mem_nil
  | case2 b rest ih =>
    rw [lines]
    by_cases hlast : rest.drop (lineLength - 1) = []
    · rw [hlast, lines_eq_nil_iff.2 rfl]
      exact fun _ h => absurd h List.not_mem_nil
    · rw [List.dropLast_cons_of_ne_nil (mt lines_eq_nil_iff.1 hlast), List.forall_mem_cons]
      refine ⟨?_, ih⟩
      rw [List.drop_eq_nil_iff, lineLength] at hlast
      rw [List.length_cons, List.length_take, lineLength]
      omega

theorem length_of_mem_lines {bytes row : List UInt8} (h : row ∈ lines bytes) :
    1 ≤ row.length ∧ row.length ≤ 12 := by
  induction bytes using lines.induct with
  | case1 => rw [lines] at h; cases h
  | case2 b rest ih =>
    rw [lines, List.mem_cons] at h
    obtain rfl | h := h
    · rw [List.length_cons, List.length_take, lineLength]
      omega
    · exact ih h

/-! ## Listings -/

/-- A text is a listing under the given name with the given lines, on which the given rows of
    bytes stand: twelve on every line but the last, on which there is one at least. -/
structure Layout (name text : String) (lines : List String) (rows : List (List UInt8)) : Prop where
  text_eq : text = header name ++ String.join (lines.map (· ++ "\n")) ++ "\x7d\n"
  unbroken : ∀ line ∈ lines, '\n' ∉ line.toList
  items : List.Forall₂ (fun line row => items? line.toList = some row) lines rows
  full : ∀ row ∈ rows.dropLast, row.length = 12
  last : ∀ row ∈ rows.getLast?, 1 ≤ row.length ∧ row.length ≤ 12

theorem layout_render (name : String) (bytes : List UInt8) :
    Layout name (render name bytes) ((lines bytes).map fun row => String.ofList (row.flatMap item))
      (lines bytes) where
  text_eq := by
    unfold render header
    refine String.toList_inj.1 ?_
    simp only [String.toList_ofList, String.toList_append, String.toList_join, List.flatMap_map,
      List.append_assoc]
    rfl
  unbroken line hline := by
    obtain ⟨row, -, rfl⟩ := List.mem_map.1 hline
    rw [String.toList_ofList]
    exact newline_notMem_row row
  items := by
    rw [List.forall₂_map_left_iff, List.forall₂_same]
    intro row _
    rw [String.toList_ofList, items?_row]
  full := length_of_mem_dropLast
  last row hrow := length_of_mem_lines (List.mem_of_mem_getLast? hrow)

theorem rows?_lines {lines : List String} {rows : List (List UInt8)}
    (hunbroken : ∀ line ∈ lines, '\n' ∉ line.toList)
    (hitems : List.Forall₂ (fun line row => items? line.toList = some row) lines rows) :
    rows? (((lines.flatMap fun line => line.toList ++ ['\n']) ++ ['\x7d', '\n']).splitOn '\n') =
      some rows := by
  induction hitems with
  | nil => rfl
  | @cons line row lines rows hitem _ ih =>
    rw [List.forall_mem_cons] at hunbroken
    have hopen : line.toList ≠ ['\x7d'] := fun h => by
      rw [h] at hitem
      cases hitem
    rw [List.flatMap_cons, List.append_assoc, List.append_assoc, List.singleton_append,
      List.splitOn_append_cons_self_of_not_mem hunbroken.1, rows?, if_neg hopen, hitem,
      ih hunbroken.2]
    rfl

/-- **Every listing** is read back. -/
theorem Layout.read {name text : String} {lines : List String} {rows : List (List UInt8)}
    (h : Layout name text lines rows) : read? name text = some rows.flatten := by
  have htext : text.toList = (header name).toList ++
      ((lines.flatMap fun line => line.toList ++ ['\n']) ++ ['\x7d', '\n']) := by
    rw [h.text_eq]
    simp [String.toList_join, List.flatMap_map]
  rw [read?, List.isPrefixOf?_eq_some_iff_append_eq.2 htext.symm]
  simp only [Option.bind_eq_bind, Option.bind_some, rows?_lines h.unbroken h.items]
  rfl

end SidPlayback.Memory.Listing

namespace SidPlayback

/-! ## Memory -/

namespace Player

section
variable {ε η : Type} [Engine ε] (p : Player ε η) (first last : UInt16)

theorem length_memory :
    (p.memory first last).length = if first ≤ last then last.toNat - first.toNat + 1 else 0 := by
  simp only [memory, List.length_map, List.length_range', UInt16.le_iff_toNat_le]
  split <;> omega

variable {first last}

theorem getElem?_memory {address : UInt16} (hfirst : first ≤ address) (hlast : address ≤ last) :
    (p.memory first last)[address.toNat - first.toNat]? = some (Engine.ram p.engine address) := by
  rw [UInt16.le_iff_toNat_le] at hfirst hlast
  rw [memory, List.getElem?_map, List.getElem?_range' (by omega), Option.map_some, Nat.one_mul,
    Nat.add_sub_cancel' hfirst, UInt16.ofNat_toNat]

end
end Player

namespace Memory.Listing

/-- **Listings are read back**: the listing of bytes under any name, line by line, and the listing
    of the RAM of any player, address by address. -/
theorem listings_read_back :
    (∀ (name : String) (bytes : List UInt8), ∃ lines rows,
      Layout name (render name bytes) lines rows ∧ lines.length = (bytes.length + 11) / 12 ∧
      rows.flatten = bytes ∧ read? name (render name bytes) = some bytes) ∧
    ∀ (ε η : Type) [Engine ε] (p : Player ε η) (name : String) (first last : UInt16), ∃ bytes,
      read? name (p.memoryListing name first last).result = some bytes ∧
      bytes.length = (if first ≤ last then last.toNat - first.toNat + 1 else 0) ∧
      ∀ address, first ≤ address → address ≤ last →
        bytes[address.toNat - first.toNat]? = some (Engine.ram p.engine address) := by
  have hread (name : String) (bytes : List UInt8) : read? name (render name bytes) = some bytes := by
    rw [(layout_render name bytes).read, flatten_lines]
  refine ⟨fun name bytes => ⟨_, _, layout_render name bytes, ?_, flatten_lines bytes, hread name bytes⟩,
    fun ε η _ p name first last => ⟨p.memory first last, hread _ _, p.length_memory first last,
      fun address => p.getElem?_memory⟩⟩
  rw [List.length_map, length_lines]

/-- All addresses are listed, also to the end of memory. -/
example {ε η : Type} [Engine ε] (p : Player ε η) : (p.memory 0 0xffff).length = 65536 :=
  p.length_memory 0 0xffff

end Memory.Listing
end SidPlayback
