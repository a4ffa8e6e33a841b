/-
  Values in JSON that are read back as they were written.

  * `Json.Codec.Returns` says what a codec reads where it writes a value, and `Json.Codec.Faithful`
    that this is the value;
  * `Json.yields_number`: integers of 64 bits are read digit by digit;
  * `Json.Codec.int32_faithful` and its siblings: the scalars without floating point;
  * `Json.Codec.optional_none` and `Json.Codec.optional_some`: values that may be missing.
-/
import SidPlayback.Json.Codec
import SidPlayback.Proofs.Json.Spelling

namespace SidPlayback.Json

/-! ## Integers -/

/-- The digits of an integer. -/
def spelled (n : Int) : Spelling := ⟨Nat.toDigits 10 n.natAbs, none, none⟩

theorem leading_toDigits {n : Nat} (h : (Nat.toDigits 10 n).head? = some '0') :
    Nat.toDigits 10 n = ['0'] := by
  obtain rfl | hpos := Decidable.em (n = 0)
  · rfl
  · obtain ⟨c, cs, hdigits, hc⟩ := Decimal.toDigits_eq_cons hpos
    rw [hdigits] at h
    exact absurd (Option.some.inj h) hc

theorem spelled_wellFormed (n : Int) : (spelled n).WellFormed :=
  ⟨digits_toDigits _, leading_toDigits, nofun, nofun⟩

theorem writeInteger_eq (n : Int) :
    writeInteger n = (if decide (n < 0) then ['-'] else []) ++ (spelled n).text := by
  have htext : (spelled n).text = Nat.toDigits 10 n.natAbs := by
    simp [Spelling.text, Spelling.fractionText, Spelling.exponentText, spelled]
  rw [htext]
  by_cases hneg : n < 0 <;> simp [writeInteger, hneg]

/-- A number of 64 bits is evaluated exactly. -/
theorem value_spelled {n : Int} (hlow : -(UInt64.size / 2) ≤ n) (hhigh : n < UInt64.size) :
    ((spelled n).lexeme (decide (n < 0))).value =
      .ok (if n < 0 then .negative n.natAbs else .natural n.natAbs) := by
  simp only [UInt64.size] at hlow hhigh
  have hcollect : collect (UInt64.size - 1) 0 (figures (Nat.toDigits 10 n.natAbs)) = (n.natAbs, []) := by
    rw [collect_eq (by rw [numeral_figures, UInt64.size]; omega), numeral_figures]
  simp only [spelled, Spelling.lexeme, Lexeme.value, hcollect, Option.map_none, List.isEmpty_nil, if_true]
  by_cases hneg : n < 0
  · have hsize : 0 < n.natAbs ∧ n.natAbs ≤ UInt64.size / 2 := by
      rw [UInt64.size]
      omega
    simp only [hneg, hsize, decide_true]
    rfl
  · simp [hneg]

/-- **Integers** of 64 bits are read back. -/
theorem yields_number {n : Int} {rest : List Char} (hlow : -(UInt64.size / 2) ≤ n)
    (hhigh : n < UInt64.size) (h : Ends rest) :
    Yields Number.read (writeInteger n ++ rest)
      (if n < 0 then .negative n.natAbs else .natural n.natAbs) rest := by
  rw [writeInteger_eq]
  refine ((spelled_wellFormed n).yields_read _ _ h).bind ?_
  rw [value_spelled hlow hhigh]
  exact .pure _ _

/-! ## Codecs -/

/-- A written integer begins with its sign, or with a digit. -/
theorem head?_writeInteger (n : Int) (rest : List Char) :
    ∃ c, (writeInteger n ++ rest).head? = some c ∧ (c = '-' ∨ c.isDigit = true) ∧
      Input.isBlank c = false := by
  rw [writeInteger_eq]
  exact (spelled_wellFormed n).head? _ rest

namespace Codec

variable {α : Type}

/-- Where the codec writes the first value it reads the second one, in front of what may follow a
    value. -/
def Returns (codec : Codec α) (a b : α) : Prop :=
  ∀ rest, Ends rest → Yields codec.read (codec.write a ++ rest) b rest

/-- The codec reads back what it writes for a value. -/
def Faithful (codec : Codec α) (a : α) : Prop := codec.Returns a a

theorem yields_bounded (expected : String) {low high n : Int} {rest : List Char} (hlow : low ≤ n)
    (hhigh : n ≤ high) (hleast : -(UInt64.size / 2) ≤ low) (hmost : high < UInt64.size)
    (h : Ends rest) :
    Yields (bounded expected low high) (writeInteger n ++ rest) n rest := by
  obtain ⟨c, hc, hnumber, hblank⟩ := head?_writeInteger n rest
  have hinteger : (if n < 0 then Number.negative n.natAbs else .natural n.natAbs).integer? = some n := by
    split <;> simp only [Number.integer?] <;> congr 1 <;> omega
  refine (yields_look hc hblank).bind ?_
  simp only [if_pos hnumber]
  refine (yields_number (by omega) (by omega) h).bind ?_
  simp only [hinteger, if_pos (And.intro hlow hhigh)]
  exact .pure n rest

/-- A codec for the integers of a type is faithful if they are within the bounds. -/
theorem bounded_faithful {codec : Codec α} {convert : Int → α} {expected : String} {low high n : Int}
    {a : α} (hread : codec.read = convert <$> bounded expected low high)
    (hwrite : codec.write a = writeInteger n) (hconvert : convert n = a) (hlow : low ≤ n)
    (hhigh : n ≤ high) (hleast : -(UInt64.size / 2) ≤ low) (hmost : high < UInt64.size) :
    codec.Faithful a := fun rest h => by
  rw [hread, hwrite, ← hconvert]
  exact (yields_bounded expected hlow hhigh hleast hmost h).map convert

theorem int32_faithful (n : Int32) : int32.Faithful n :=
  bounded_faithful rfl rfl (Int32.ofInt_toInt n) (Int32.le_iff_toInt_le.1 (Int32.minValue_le n))
    (Int32.le_iff_toInt_le.1 (Int32.le_maxValue n)) (by decide) (by decide)

theorem int8_faithful (n : Int8) : int8.Faithful n :=
  bounded_faithful rfl rfl (Int8.ofInt_toInt n) (Int8.le_iff_toInt_le.1 (Int8.minValue_le n))
    (Int8.le_iff_toInt_le.1 (Int8.le_maxValue n)) (by decide) (by decide)

theorem uint32_faithful (n : UInt32) : uint32.Faithful n := by
  have hsize : n.toNat < UInt32.size := n.toNat_lt
  have hconvert : UInt32.ofNat (n.toNat : Int).toNat = n := by
    rw [Int.toNat_natCast, UInt32.ofNat_toNat]
  exact bounded_faithful rfl rfl hconvert (Int.natCast_nonneg n.toNat)
    (Int.le_sub_one_of_lt (Int.ofNat_lt.2 hsize)) (by decide) (by decide)

theorem text_faithful (s : String) : text.Faithful s := fun rest _ => by
  have hwrite : text.write s ++ rest = '"' :: (s.toList.flatMap Text.escape ++ '"' :: rest) := by
    simp [text, Text.write]
  rw [hwrite]
  exact (yields_look_cons '"' _ rfl).bind ((yields_take '"' _).bind (Text.yields_read s rest))

theorem boolean_faithful (b : Bool) : boolean.Faithful b := fun rest _ => by
  cases b with
  | true =>
    exact (yields_look_cons 't' _ rfl).bind ((yields_take 't' _).bind
      ((yields_word ['r', 'u', 'e'] rest).bind (.pure true rest)))
  | false =>
    exact (yields_look_cons 'f' _ rfl).bind ((yields_take 'f' _).bind
      ((yields_word ['a', 'l', 's', 'e'] rest).bind (.pure false rest)))

theorem optional_none (codec : Codec α) : codec.optional.Faithful none := fun rest _ =>
  (yields_look_cons 'n' _ rfl).bind ((yields_take 'n' _).bind
    ((yields_word ['u', 'l', 'l'] rest).bind (.pure none rest)))

theorem optional_some {codec : Codec α} {a : α} (h : codec.Faithful a)
    (hfirst : ∀ rest, ∃ c, (codec.write a ++ rest).head? = some c ∧ Input.isBlank c = false ∧ c ≠ 'n') :
    codec.optional.Faithful (some a) := fun rest hrest => by
  obtain ⟨c, hc, hblank, hn⟩ := hfirst rest
  change Yields codec.optional.read (codec.write a ++ rest) (some a) rest
  refine (yields_look hc hblank).bind ?_
  split
  case h_1 heq =>
    cases heq
    exact absurd rfl hn
  case h_2 => exact (h rest hrest).map some

theorem optional_int32 (n : Option Int32) : int32.optional.Faithful n := by
  cases n with
  | none => exact optional_none int32
  | some n =>
    refine optional_some (int32_faithful n) fun rest => ?_
    obtain ⟨c, hc, hnumber, hblank⟩ := head?_writeInteger n.toInt rest
    refine ⟨c, hc, hblank, ?_⟩
    rintro rfl
    obtain hsign | hdigit := hnumber
    · cases hsign
    · cases hdigit

theorem optional_boolean (b : Option Bool) : boolean.optional.Faithful b := by
  cases b with
  | none => exact optional_none boolean
  | some b =>
    refine optional_some (boolean_faithful b) fun rest => ?_
    cases b with
    | true => exact ⟨'t', rfl, rfl, by decide⟩
    | false => exact ⟨'f', rfl, rfl, by decide⟩

end Codec
end SidPlayback.Json
