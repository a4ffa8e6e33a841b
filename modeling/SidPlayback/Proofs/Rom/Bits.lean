/-
  ROM texts as streams of bits.

  A text is read up to its first character that is no symbol.  Its symbols are numbers of
  six bits, and the bytes of an image are cut from these bits one after the other; the bits
  that do not fill a byte are dropped.

  * `Base64.alphabet` are the symbols in the order of their values, and `Base64.symbols` those
    that a text begins with;
  * `Base64.bits` is a number bit by bit, and `Base64.bits_add` says how numbers are put
    together from others;
  * `Base64.exists_bytes`: groups of symbols keep the bits in order;
  * `Image.decode_bitStream`: an image has the whole bytes of its text, no text is refused,
    and nothing else in the text matters.
-/
import Mathlib.Data.List.TakeWhile
import Mathlib.Data.Nat.Bitwise
import SidPlayback.Rom.Bank

namespace SidPlayback.Rom

namespace Base64

/-! ## Symbols -/

/-- The symbols, in the order of their values. -/
def alphabet : List Char :=
  "ABCDEFGHIJKLMNOPQRSTUVWXYZabcdefghijklmnopqrstuvwxyz0123456789+/".toList

theorem alphabet_eq : alphabet = (List.range 64).map symbol := by decide

theorem value?_symbol {v : ℕ} (h : v < 64) : value? (symbol v) = some v := by
  revert v
  decide

theorem symbol_of_value? {c : Char} {v : ℕ} (h : value? c = some v) : v < 64 ∧ symbol v = c := by
  unfold value? at h
  split_ifs at h with hupper hlower hdigit hplus hslash
  · obtain ⟨h65, h90⟩ : 65 ≤ c.toNat ∧ c.toNat ≤ 90 := hupper
    obtain rfl := Option.some.inj h
    refine ⟨by omega, ?_⟩
    rw [symbol, if_pos (by omega), Nat.sub_add_cancel h65, Char.ofNat_toNat]
  · obtain ⟨h97, h122⟩ : 97 ≤ c.toNat ∧ c.toNat ≤ 122 := hlower
    obtain rfl := Option.some.inj h
    refine ⟨by omega, ?_⟩
    rw [symbol, if_neg (by omega), if_pos (by omega), Nat.sub_add_cancel (by omega),
      Char.ofNat_toNat]
  · obtain ⟨h48, h57⟩ : 48 ≤ c.toNat ∧ c.toNat ≤ 57 := hdigit
    obtain rfl := Option.some.inj h
    refine ⟨by omega, ?_⟩
    rw [symbol, if_neg (by omega), if_neg (by omega), if_pos (by omega), Nat.add_sub_cancel,
      Char.ofNat_toNat]
  · obtain rfl := Option.some.inj h
    exact ⟨by decide, hplus.symm⟩
  · obtain rfl := Option.some.inj h
    exact ⟨by decide, hslash.symm⟩

theorem isSome_value? (c : Char) : (value? c).isSome = isSymbol c := by
  have hupper : c.isUpper = true ↔ 'A' ≤ c ∧ c ≤ 'Z' := decide_eq_true_iff
  have hlower : c.isLower = true ↔ 'a' ≤ c ∧ c ≤ 'z' :=
    Bool.and_eq_true_iff.trans (and_congr decide_eq_true_iff decide_eq_true_iff)
  have hdigit : c.isDigit = true ↔ '0' ≤ c ∧ c ≤ '9' := Char.isDigit_iff_toNat
  have hletters : c.isAlphanum = ((c.isUpper || c.isLower) || c.isDigit) := rfl
  rw [Bool.eq_iff_iff]
  simp only [isSymbol, hletters, Bool.or_eq_true, hupper, hlower, hdigit, beq_iff_eq]
  unfold value?
  split_ifs <;> simp_all

theorem mem_alphabet {c : Char} : c ∈ alphabet ↔ isSymbol c = true := by
  rw [← isSome_value?, alphabet_eq, List.mem_map]
  constructor
  · rintro ⟨v, hv, rfl⟩
    rw [value?_symbol (List.mem_range.1 hv)]
    rfl
  · intro h
    obtain ⟨v, hv⟩ := Option.isSome_iff_exists.1 h
    obtain ⟨hlt, hsymbol⟩ := symbol_of_value? hv
    exact ⟨v, List.mem_range.2 hlt, hsymbol⟩

theorem value?_eq_idxOf {c : Char} (h : c ∈ alphabet) : value? c = some (alphabet.idxOf c) := by
  have hlt := List.idxOf_lt_length_of_mem h
  have hat : alphabet[alphabet.idxOf c] = c := List.getElem_idxOf hlt
  simp only [alphabet_eq, List.getElem_map, List.getElem_range] at hat hlt
  rw [List.length_map, List.length_range] at hlt
  rw [alphabet_eq]
  conv_lhs => rw [← hat]
  exact value?_symbol hlt

theorem idxOf_lt {c : Char} (h : c ∈ alphabet) : alphabet.idxOf c < 64 :=
  (symbol_of_value? (value?_eq_idxOf h)).1

theorem mapM_value? {symbols : List Char} (h : ∀ c ∈ symbols, c ∈ alphabet) :
    symbols.mapM value? = some (symbols.map alphabet.idxOf) := by
  induction symbols with
  | nil => rfl
  | cons c rest ih =>
    obtain ⟨hc, hrest⟩ := List.forall_mem_cons.1 h
    rw [List.mapM_cons, value?_eq_idxOf hc, ih hrest]
    rfl

/-- The symbols that a text begins with. -/
def symbols (text : String) : List Char := text.toList.takeWhile (· ∈ alphabet)

theorem mem_alphabet_of_mem_symbols {text : String} {c : Char} (h : c ∈ symbols text) :
    c ∈ alphabet := by
  simpa using List.mem_takeWhile_imp h

theorem decodable_eq (text : String) : decodable text.toList =
    if (symbols text).length % 4 = 1 then (symbols text).dropLast else symbols text := by
  have hsymbols : text.toList.takeWhile isSymbol = symbols text := by
    rw [symbols]
    congr 1
    funext c
    rw [Bool.eq_iff_iff, decide_eq_true_iff, mem_alphabet]
  rw [decodable, hsymbols]

/-! ## Bits -/

/-- A number in so many bits, the most significant first. -/
def bits : ℕ → ℕ → List Bool
  | 0, _ => []
  | width + 1, n => n.testBit width :: bits width n

@[simp] theorem length_bits (width n : ℕ) : (bits width n).length = width := by
  induction width with
  | zero => rfl
  | succ width ih => rw [bits, List.length_cons, ih]

theorem bits_eq_iff {width n m : ℕ} :
    bits width n = bits width m ↔ ∀ i < width, n.testBit i = m.testBit i := by
  induction width with
  | zero => exact iff_of_true rfl nofun
  | succ width ih => rw [bits, bits, List.cons.injEq, ih, Nat.forall_lt_succ_right, and_comm]

theorem bits_inj {width n m : ℕ} (hn : n < 2 ^ width) (hm : m < 2 ^ width)
    (h : bits width n = bits width m) : n = m := by
  refine Nat.eq_of_testBit_eq fun i => ?_
  by_cases hi : i < width
  · exact bits_eq_iff.1 h i hi
  · have hpow : 2 ^ width ≤ 2 ^ i := Nat.pow_le_pow_right (by decide) (Nat.le_of_not_lt hi)
    rw [Nat.testBit_lt_two_pow (hn.trans_le hpow), Nat.testBit_lt_two_pow (hm.trans_le hpow)]

theorem bits_add {v m : ℕ} (width n : ℕ) (h : m < 2 ^ v) :
    bits (width + v) (2 ^ v * n + m) = bits width n ++ bits v m := by
  induction width with
  | zero =>
    rw [Nat.zero_add, bits, List.nil_append, bits_eq_iff]
    intro i hi
    rw [Nat.testBit_two_pow_mul_add _ h, if_pos hi]
  | succ width ih =>
    have htop : (2 ^ v * n + m).testBit (width + v) = n.testBit width := by
      rw [Nat.testBit_two_pow_mul_add _ h, if_neg (by omega), Nat.add_sub_cancel]
    rw [Nat.succ_add, bits, bits, List.cons_append, htop, ih]

/-- The bits of six-bit values. -/
def valueBits (values : List ℕ) : List Bool := values.flatMap (bits 6)

/-- The bits of bytes. -/
def byteBits (data : List UInt8) : List Bool := data.flatMap fun b => bits 8 b.toNat

@[simp] theorem valueBits_cons (v : ℕ) (values : List ℕ) :
    valueBits (v :: values) = bits 6 v ++ valueBits values := rfl

@[simp] theorem byteBits_cons (b : UInt8) (data : List UInt8) :
    byteBits (b :: data) = bits 8 b.toNat ++ byteBits data := rfl

@[simp] theorem length_valueBits (values : List ℕ) :
    (valueBits values).length = 6 * values.length := by
  induction values with
  | nil => rfl
  | cons v values ih => simp [ih, Nat.mul_succ, Nat.add_comm]

@[simp] theorem length_byteBits (data : List UInt8) :
    (byteBits data).length = 8 * data.length := by
  induction data with
  | nil => rfl
  | cons b data ih => simp [ih, Nat.mul_succ, Nat.add_comm]

theorem byteBits_slice (data : List UInt8) {i : ℕ} (hi : i < data.length) (rest : List Bool) :
    ((byteBits data ++ rest).drop (8 * i)).take 8 = bits 8 data[i].toNat := by
  induction data generalizing i with
  | nil => cases hi
  | cons b data ih =>
    rw [byteBits_cons, List.append_assoc]
    cases i with
    | zero => simp
    | succ i =>
      have hdrop : 8 * (i + 1) = (bits 8 b.toNat).length + 8 * i := by simp; omega
      rw [hdrop, List.drop_length_add_append]
      exact ih (Nat.lt_of_succ_lt_succ hi)

theorem byteBits_inj {data data' : List UInt8} (h : byteBits data = byteBits data') :
    data = data' := by
  have hlength := congrArg List.length h
  rw [length_byteBits, length_byteBits] at hlength
  refine List.ext_getElem (by omega) fun i hi hi' => ?_
  have hslice := byteBits_slice data hi []
  rw [h, byteBits_slice data' hi' []] at hslice
  exact UInt8.toNat_inj.1 (bits_inj (UInt8.toNat_lt _) (UInt8.toNat_lt _) hslice.symm)

/-! ## Groups -/

theorem toNat_ofNat {n : ℕ} (h : n < 256) : (UInt8.ofNat n).toNat = n :=
  UInt8.toNat_ofNat_of_lt' h

section
variable {a b c d : ℕ} (ha : a < 64) (hb : b < 64)
include ha hb

theorem bits_pair :
    bits 6 a ++ bits 6 b = bits 8 (UInt8.ofNat (a * 4 + b / 16)).toNat ++ bits 4 (b % 16) := by
  rw [toNat_ofNat (by omega), ← bits_add 6 a hb, ← bits_add 8 _ (by omega)]
  congr 1
  omega

variable (hc : c < 64)
include hc

theorem bits_triple :
    bits 6 a ++ (bits 6 b ++ bits 6 c) =
      bits 8 (UInt8.ofNat (a * 4 + b / 16)).toNat ++
        (bits 8 (UInt8.ofNat (b % 16 * 16 + c / 4)).toNat ++ bits 2 (c % 4)) := by
  rw [toNat_ofNat (by omega), toNat_ofNat (by omega), ← bits_add 6 b hc,
    ← bits_add 6 a (by omega), ← bits_add 8 _ (by omega), ← bits_add 8 _ (by omega)]
  congr 1
  omega

theorem bits_quadruple (hd : d < 64) :
    bits 6 a ++ (bits 6 b ++ (bits 6 c ++ bits 6 d)) =
      bits 8 (UInt8.ofNat (a * 4 + b / 16)).toNat ++
        (bits 8 (UInt8.ofNat (b % 16 * 16 + c / 4)).toNat ++
          bits 8 (UInt8.ofNat (c % 4 * 64 + d)).toNat) := by
  rw [toNat_ofNat (by omega), toNat_ofNat (by omega), toNat_ofNat (by omega),
    ← bits_add 6 c hd, ← bits_add 6 b (by omega), ← bits_add 6 a (by omega),
    ← bits_add 8 _ (by omega), ← bits_add 8 _ (by omega)]
  congr 1
  omega

end

/-- The bytes of values take their bits in order, and leave a few at the end. -/
theorem exists_bytes {values : List ℕ} (hvalues : ∀ v ∈ values, v < 64)
    (hsize : values.length % 4 ≠ 1) :
    ∃ data unused, bytes values = some data ∧ data.length = 3 * values.length / 4 ∧
      valueBits values = byteBits data ++ unused := by
  fun_induction bytes values with
  | case1 a b c d rest ih =>
    simp only [List.forall_mem_cons] at hvalues
    obtain ⟨ha, hb, hc, hd, hrest⟩ := hvalues
    obtain ⟨data, unused, hdata, hlength, hbits⟩ := ih hrest (by simp at hsize; omega)
    refine ⟨_, unused, congrArg (Option.map _) hdata, by simp [hlength]; omega, ?_⟩
    have hgroup := congrArg (· ++ (byteBits data ++ unused)) (bits_quadruple ha hb hc hd)
    simpa only [valueBits_cons, byteBits_cons, hbits, List.append_assoc] using hgroup
  | case2 a b c =>
    simp only [List.forall_mem_cons] at hvalues
    obtain ⟨ha, hb, hc, -⟩ := hvalues
    refine ⟨_, bits 2 (c % 4), rfl, by simp, ?_⟩
    simpa [valueBits, byteBits] using bits_triple ha hb hc
  | case3 a b =>
    simp only [List.forall_mem_cons] at hvalues
    obtain ⟨ha, hb, -⟩ := hvalues
    refine ⟨_, bits 4 (b % 16), rfl, by simp, ?_⟩
    simpa [valueBits, byteBits] using bits_pair ha hb
  | case4 => exact absurd rfl hsize
  | case5 => exact ⟨[], [], rfl, rfl, rfl⟩

theorem exists_decode {symbols : List Char} (h : ∀ c ∈ symbols, c ∈ alphabet)
    (hsize : symbols.length % 4 ≠ 1) :
    ∃ data unused, decode symbols = some data ∧ data.length = 3 * symbols.length / 4 ∧
      valueBits (symbols.map alphabet.idxOf) = byteBits data ++ unused := by
  have hvalues : ∀ v ∈ symbols.map alphabet.idxOf, v < 64 := by
    intro v hv
    obtain ⟨c, hc, rfl⟩ := List.mem_map.1 hv
    exact idxOf_lt (h c hc)
  obtain ⟨data, unused, hdata, hlength, hbits⟩ :=
    exists_bytes hvalues (by rwa [List.length_map])
  rw [List.length_map] at hlength
  exact ⟨data, unused, by rw [decode, mapM_value? h, Option.bind_some, hdata], hlength, hbits⟩

end Base64

namespace Image
open Base64

/-! ## Texts -/

/-- The bits of a text: those of its symbols, each of which is a place in the alphabet. -/
def bitStream (text : String) : List Bool := valueBits ((symbols text).map alphabet.idxOf)

/-- The bits of a text that fill bytes. -/
def wholeBytes (text : String) : List Bool :=
  (bitStream text).take ((bitStream text).length / 8 * 8)

theorem exists_bitStream (text : String) :
    ∃ data unused, Base64.decode (decodable text.toList) = some data ∧
      data.length = 3 * (symbols text).length / 4 ∧ bitStream text = byteBits data ++ unused := by
  have hsymbols : ∀ c ∈ symbols text, c ∈ alphabet := fun _ => mem_alphabet_of_mem_symbols
  rw [decodable_eq, bitStream]
  split
  case isTrue hlone =>
    -- the symbol left alone adds its bits to the unused ones
    have hne : symbols text ≠ [] := by
      intro hnil
      rw [hnil] at hlone
      cases hlone
    have hlast := List.dropLast_concat_getLast hne
    have hrest : ∀ c ∈ (symbols text).dropLast, c ∈ alphabet :=
      fun c hc => hsymbols c (List.dropLast_subset _ hc)
    obtain ⟨data, unused, hdata, hlength, hbits⟩ :=
      exists_decode hrest (by rw [List.length_dropLast]; omega)
    refine ⟨data, unused ++ bits 6 (alphabet.idxOf ((symbols text).getLast hne)), hdata, ?_, ?_⟩
    · rw [hlength, List.length_dropLast]
      omega
    · conv_lhs => rw [← hlast]
      rw [← List.append_assoc, ← hbits]
      simp [valueBits]
  case isFalse hsize => exact exists_decode hsymbols hsize

theorem wholeBytes_eq {text : String} {data : List UInt8} {unused : List Bool}
    (hlength : data.length = 3 * (symbols text).length / 4)
    (hbits : bitStream text = byteBits data ++ unused) : wholeBytes text = byteBits data := by
  have htotal : (bitStream text).length / 8 * 8 = (byteBits data).length := by
    rw [bitStream, length_valueBits, List.length_map, length_byteBits, hlength]
    omega
  rw [wholeBytes, htotal, hbits, List.take_left]

/-- **An image is cut from the bits of its text.**  There is one if and only if the whole
    bytes are as many as expected, and these decide what it is.  No text is refused. -/
theorem decode_bitStream (text : String) (size : ℕ) :
    ((decode text size).isSome ↔ size = 3 * (symbols text).length / 4) ∧
      (∀ image ∈ decode text size, image.size = size ∧
        ∀ i (hi : i < image.bytes.length),
          bits 8 image.bytes[i].toNat = ((bitStream text).drop (8 * i)).take 8) ∧
      (∀ other, wholeBytes other = wholeBytes text → decode other size = decode text size) ∧
      (Base64.decode (decodable text.toList)).isSome ∧
      .romRejected ∉ decodingNotices text size := by
  obtain ⟨data, unused, hdata, hlength, hbits⟩ := exists_bitStream text
  have hdecode : decode text size = if data.length = size then some ⟨data⟩ else none := by
    rw [decode, hdata]
  refine ⟨?_, ?_, ?_, ?_, ?_⟩
  · rw [hdecode, ← hlength]
    split_ifs with h
    · exact iff_of_true rfl h.symm
    · exact iff_of_false nofun (Ne.symm h)
  · intro image himage
    rw [hdecode, Option.mem_def, Option.ite_none_right_eq_some] at himage
    obtain ⟨hsize, himage⟩ := himage
    obtain rfl := Option.some.inj himage
    exact ⟨hsize, fun i hi => by rw [hbits, byteBits_slice data hi]⟩
  · intro other hother
    obtain ⟨data', unused', hdata', hlength', hbits'⟩ := exists_bitStream other
    rw [wholeBytes_eq hlength hbits, wholeBytes_eq hlength' hbits'] at hother
    rw [decode, decode, hdata, hdata', byteBits_inj hother]
  · rw [hdata]
    rfl
  · rw [decodingNotices, hdata]
    dsimp only
    split_ifs <;> simp

theorem decode_bitStream_partial :
    let text := "TWFuTW=TWFu"
    let image : Image := ⟨[77, 97, 110, 77]⟩
    decode text 4 = some image ∧ bits 8 77 = ((bitStream text).drop 24).take 8 ∧
      wholeBytes "TWFuTXé" = wholeBytes text ∧ decode "TWFuTXé" 4 = some image ∧
      decode "TWFuT" 3 = some ⟨[77, 97, 110]⟩ := by
  intro text image
  have himage : decode text 4 = some image := by decide
  obtain ⟨-, hbytes, hsame, -⟩ := decode_bitStream text 4
  have hwhole : wholeBytes "TWFuTXé" = wholeBytes text := by decide
  exact ⟨himage, (hbytes image himage).2 3 (by decide), hwhole,
    (hsame _ hwhole).trans himage, by decide⟩

end Image
end SidPlayback.Rom
