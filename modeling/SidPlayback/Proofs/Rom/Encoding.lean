/-
  ROM texts that encode an image.

  Encoding and decoding are inverse to each other, up to the bits of a text that carry
  nothing.

  * `Base64.Encodes`: a text begins with the encoding of bytes, with padding or without;
  * `Base64.bytes_groups` and `Base64.groups_bytes`: bytes to values and back, and values
    to bytes and back;
  * `Base64.Restores`: how the encoding of what was decoded compares with the symbols of the
    text;
  * `Image.decode_encoding`: an encoded image is decoded, and encoding a decoded one restores
    the symbols of its text.
-/
import Mathlib.Data.List.ModifyLast
import SidPlayback.Proofs.Rom.Bits

namespace SidPlayback.Rom

namespace Base64

/-! ## Values and bytes -/

theorem ofNat_eq {n : ℕ} {b : UInt8} (h : n = b.toNat) : UInt8.ofNat n = b := by
  rw [h, UInt8.ofNat_toNat]

/-- Bytes come back from the values that they were spread over. -/
theorem bytes_groups (data : List UInt8) : bytes (groups data) = some data := by
  fun_induction groups data with
  | case1 a b c rest ih =>
    have hb := b.toNat_lt
    have hc := c.toNat_lt
    rw [bytes, ih, Option.map_some, ofNat_eq (b := a) (by omega), ofNat_eq (b := b) (by omega),
      ofNat_eq (b := c) (by omega)]
  | case2 a b =>
    have hb := b.toNat_lt
    rw [bytes, ofNat_eq (b := a) (by omega), ofNat_eq (b := b) (by omega)]
  | case3 a => rw [bytes, ofNat_eq (b := a) (by omega)]
  | case4 => rfl

theorem groups_lt (data : List UInt8) : ∀ v ∈ groups data, v < 64 := by
  fun_induction groups data with
  | case1 a b c rest ih =>
    have ha := a.toNat_lt
    have hb := b.toNat_lt
    have hc := c.toNat_lt
    simp only [List.forall_mem_cons]
    exact ⟨by omega, by omega, by omega, by omega, ih⟩
  | case2 a b =>
    have ha := a.toNat_lt
    have hb := b.toNat_lt
    simp only [List.forall_mem_cons]
    exact ⟨by omega, by omega, by omega, nofun⟩
  | case3 a =>
    have ha := a.toNat_lt
    simp only [List.forall_mem_cons]
    exact ⟨by omega, by omega, nofun⟩
  | case4 => nofun

theorem length_groups (data : List UInt8) : (groups data).length = (8 * data.length + 5) / 6 := by
  fun_induction groups data with
  | case1 a b c rest ih =>
    simp only [List.length_cons, ih]
    omega
  | case2 | case3 | case4 => simp

/-- Values come back from their bytes but for the unused bits of the last one. -/
theorem groups_bytes {values : List ℕ} {data : List UInt8} (hvalues : ∀ v ∈ values, v < 64)
    (h : bytes values = some data) :
    groups data = values.modifyLast fun v =>
      v / 2 ^ (6 * values.length % 8) * 2 ^ (6 * values.length % 8) := by
  fun_induction bytes values generalizing data with
  | case1 a b c d rest ih =>
    simp only [List.forall_mem_cons] at hvalues
    obtain ⟨ha, hb, hc, hd, hrest⟩ := hvalues
    obtain ⟨data', hdata', rfl⟩ := Option.map_eq_some_iff.1 h
    have hunused : 6 * (a :: b :: c :: d :: rest).length % 8 = 6 * rest.length % 8 := by
      simp only [List.length_cons]
      omega
    have hgroup : groups (UInt8.ofNat (a * 4 + b / 16) :: UInt8.ofNat (b % 16 * 16 + c / 4) ::
        UInt8.ofNat (c % 4 * 64 + d) :: data') = [a, b, c, d] ++ groups data' := by
      rw [groups, toNat_ofNat (by omega), toNat_ofNat (by omega), toNat_ofNat (by omega)]
      simp only [List.cons_append, List.cons.injEq, List.nil_append, and_true]
      omega
    rw [hgroup, ih hrest hdata', hunused]
    by_cases hnil : rest = []
    · subst hnil
      simp [List.modifyLast, List.modifyLast.go]
    · exact (List.modifyLast_append_of_right_ne_nil _ [a, b, c, d] rest hnil).symm
  | case2 a b c =>
    simp only [List.forall_mem_cons] at hvalues
    obtain ⟨ha, hb, hc, -⟩ := hvalues
    obtain rfl := Option.some.inj h
    rw [groups, toNat_ofNat (by omega), toNat_ofNat (by omega)]
    simp [List.modifyLast, List.modifyLast.go]
    omega
  | case3 a b =>
    simp only [List.forall_mem_cons] at hvalues
    obtain ⟨ha, hb, -⟩ := hvalues
    obtain rfl := Option.some.inj h
    rw [groups, toNat_ofNat (by omega)]
    simp [List.modifyLast, List.modifyLast.go]
    omega
  | case4 => cases h
  | case5 => cases h; rfl

/-! ## Encoded texts -/

theorem symbol_mem_alphabet {v : ℕ} (h : v < 64) : symbol v ∈ alphabet := by
  rw [alphabet_eq]
  exact List.mem_map_of_mem (List.mem_range.2 h)

theorem idxOf_symbol {v : ℕ} (h : v < 64) : alphabet.idxOf (symbol v) = v := by
  have hvalue := value?_eq_idxOf (symbol_mem_alphabet h)
  exact (Option.some.inj ((value?_symbol h).symm.trans hvalue)).symm

theorem symbol_idxOf {c : Char} (h : c ∈ alphabet) : symbol (alphabet.idxOf c) = c :=
  (symbol_of_value? (value?_eq_idxOf h)).2

theorem mem_alphabet_of_mem_encode {data : List UInt8} {c : Char} (h : c ∈ encode data) :
    c ∈ alphabet := by
  obtain ⟨v, hv, rfl⟩ := List.mem_map.1 h
  exact symbol_mem_alphabet (groups_lt data v hv)

theorem length_encode (data : List UInt8) : (encode data).length = (8 * data.length + 5) / 6 := by
  rw [encode, List.length_map, length_groups]

theorem decode_encode (data : List UInt8) : decode (encode data) = some data := by
  have hvalues : (encode data).map alphabet.idxOf = groups data := by
    rw [encode, List.map_map]
    conv_rhs => rw [← List.map_id (groups data)]
    exact List.map_congr_left fun v hv => idxOf_symbol (groups_lt data v hv)
  rw [decode, mapM_value? fun _ => mem_alphabet_of_mem_encode, Option.bind_some, hvalues,
    bytes_groups]

/-- A text begins with the encoding of bytes, padded or not, and goes on with a character that
    is no symbol, if at all. -/
def Encodes (text : String) (data : List UInt8) : Prop :=
  ∃ rest : List Char, (∀ c ∈ rest.head?, c ∉ alphabet) ∧
    (text.toList = encode data ++ rest ∨ text.toList = encodePadded data ++ rest)

theorem symbols_of_append {text : String} {run rest : List Char}
    (htext : text.toList = run ++ rest) (hrun : ∀ c ∈ run, c ∈ alphabet)
    (hrest : ∀ c ∈ rest.head?, c ∉ alphabet) : symbols text = run := by
  have hstop : rest.takeWhile (· ∈ alphabet) = [] := by
    cases rest with
    | nil => rfl
    | cons c rest => simpa using hrest c rfl
  rw [symbols, htext, List.takeWhile_append_of_pos fun c hc => decide_eq_true (hrun c hc), hstop,
    List.append_nil]

theorem Encodes.symbols_eq {text : String} {data : List UInt8} (h : Encodes text data) :
    symbols text = encode data := by
  obtain ⟨rest, hrest, htext | htext⟩ := h
  · exact symbols_of_append htext (fun _ => mem_alphabet_of_mem_encode) hrest
  · rw [encodePadded, List.append_assoc] at htext
    refine symbols_of_append htext (fun _ => mem_alphabet_of_mem_encode) ?_
    cases (3 - data.length % 3) % 3 with
    | zero => exact hrest
    | succ n =>
      intro c hc
      obtain rfl := Option.some.inj hc
      decide

theorem Encodes.decode_eq {text : String} {data : List UInt8} (h : Encodes text data) :
    decode (decodable text.toList) = some data := by
  rw [decodable_eq, h.symbols_eq, if_neg (by rw [length_encode]; omega), decode_encode]

theorem encodes_encode (data : List UInt8) : Encodes (String.ofList (encode data)) data :=
  ⟨[], nofun, .inl (by simp)⟩

/-! ## Restored texts -/

/-- What is written for the bytes of symbols agrees with the symbols: in all groups of four,
    and in a last group of two or three but for the unused bits, which are cleared.  Nothing
    is written for a symbol that is left alone. -/
structure Restores (written symbols : List Char) : Prop where
  groups : written.take (symbols.length / 4 * 4) = symbols.take (symbols.length / 4 * 4)
  nothing_else : symbols.length % 4 < 2 → written.length = symbols.length / 4 * 4
  last : 2 ≤ symbols.length % 4 → ∃ lead c d, symbols = lead ++ [c] ∧ written = lead ++ [d] ∧
    let unused := 6 * symbols.length % 8
    alphabet.idxOf d = alphabet.idxOf c / 2 ^ unused * 2 ^ unused

section
variable {symbols : List Char} {data : List UInt8}

theorem encode_of_decode (hsymbols : ∀ c ∈ symbols, c ∈ alphabet)
    (h : decode symbols = some data) :
    encode data = symbols.modifyLast fun c =>
      symbol (alphabet.idxOf c / 2 ^ (6 * symbols.length % 8) * 2 ^ (6 * symbols.length % 8)) := by
  rw [decode, mapM_value? hsymbols, Option.bind_some] at h
  have hvalues : ∀ v ∈ symbols.map alphabet.idxOf, v < 64 := by
    intro v hv
    obtain ⟨c, hc, rfl⟩ := List.mem_map.1 hv
    exact idxOf_lt (hsymbols c hc)
  rw [encode, groups_bytes hvalues h, List.length_map]
  rcases List.eq_nil_or_concat symbols with rfl | ⟨lead, c, rfl⟩
  · rfl
  · rw [List.concat_eq_append] at hsymbols ⊢
    have hlead : (lead.map alphabet.idxOf).map symbol = lead := by
      rw [List.map_map]
      conv_rhs => rw [← List.map_id lead]
      exact List.map_congr_left fun c hc => symbol_idxOf (hsymbols c (List.mem_append_left _ hc))
    rw [List.map_append, List.map_singleton, List.modifyLast_concat, List.modifyLast_concat,
      List.map_append, hlead, List.map_singleton]

/-- Full groups have no unused bits. -/
theorem encode_of_full (hsymbols : ∀ c ∈ symbols, c ∈ alphabet)
    (hfull : symbols.length % 4 = 0) (h : decode symbols = some data) : encode data = symbols := by
  rw [encode_of_decode hsymbols h]
  rcases List.eq_nil_or_concat symbols with rfl | ⟨lead, c, rfl⟩
  · rfl
  · rw [List.concat_eq_append] at hsymbols hfull ⊢
    have hunused : 6 * (lead ++ [c]).length % 8 = 0 := by omega
    have hc := symbol_idxOf (hsymbols c (List.mem_append_right _ (List.mem_singleton_self c)))
    rw [List.modifyLast_concat, hunused, Nat.pow_zero, Nat.div_one, Nat.mul_one, hc]

end

theorem restores {text : String} {data : List UInt8}
    (h : decode (decodable text.toList) = some data) : Restores (encode data) (symbols text) := by
  have hsymbols : ∀ c ∈ symbols text, c ∈ alphabet := fun _ => mem_alphabet_of_mem_symbols
  rw [decodable_eq] at h
  split at h
  case isTrue hlone =>
    have hencode : encode data = (symbols text).dropLast := encode_of_full
      (fun c hc => hsymbols c (List.dropLast_subset _ hc)) (by rw [List.length_dropLast]; omega) h
    rw [List.dropLast_eq_take] at hencode
    refine ⟨?_, fun _ => ?_, fun hpartial => ?_⟩
    · rw [hencode, List.take_take, min_eq_left (by omega)]
    · rw [hencode, List.length_take]
      omega
    · omega
  case isFalse hsize =>
    by_cases hfull : (symbols text).length % 4 = 0
    · have hencode := encode_of_full hsymbols hfull h
      rw [hencode]
      exact ⟨rfl, fun _ => by omega, fun hpartial => by omega⟩
    · have hencode := encode_of_decode hsymbols h
      rcases List.eq_nil_or_concat (symbols text) with hnil | ⟨lead, c, hlast⟩
      · rw [hnil] at hfull
        exact absurd rfl hfull
      rw [List.concat_eq_append] at hlast
      have hlength : (symbols text).length = lead.length + 1 := by rw [hlast]; simp
      have hc := hsymbols c (by rw [hlast]; simp)
      generalize hunused : 6 * (symbols text).length % 8 = unused at hencode
      rw [hlast, List.modifyLast_concat] at hencode
      refine ⟨?_, fun _ => by omega, fun _ => ⟨lead, c, _, hlast, hencode, ?_⟩⟩
      · rw [hencode, hlength, hlast, List.take_append_of_le_length (by omega),
          List.take_append_of_le_length (by omega)]
      · rw [hunused]
        exact idxOf_symbol (lt_of_le_of_lt (Nat.div_mul_le_self _ _) (idxOf_lt hc))

end Base64

namespace Image
open Base64

theorem decode_of_encodes {text : String} {data : List UInt8} (h : Encodes text data) (size : ℕ) :
    decode text size = if size = data.length then some ⟨data⟩ else none := by
  rw [decode, h.decode_eq]
  exact if_congr eq_comm rfl rfl

theorem bytes_of_decode {text : String} {size : ℕ} {image : Image}
    (h : decode text size = some image) :
    Base64.decode (decodable text.toList) = some image.bytes ∧ image.bytes.length = size := by
  unfold decode at h
  split at h
  · cases h
  · next data hdata =>
    obtain ⟨hsize, himage⟩ := Option.ite_none_right_eq_some.1 h
    obtain rfl := Option.some.inj himage
    exact ⟨hdata, hsize⟩

/-- **Decoding undoes encoding, and encoding restores what was decoded**: the symbols of the
    text but for what carries nothing, and the image. -/
theorem decode_encoding :
    (∀ text data, Encodes text data → ∀ size,
      decode text size = if size = data.length then some ⟨data⟩ else none) ∧
    (∀ basic character kernal b c k, Encodes basic b → Encodes character c → Encodes kernal k →
      b.length = 8192 → c.length = 4096 → k.length = 8192 →
      Bank.decode ⟨some basic, some character, some kernal⟩ =
        ⟨some ⟨b⟩, some ⟨c⟩, some ⟨k⟩⟩) ∧
    ∀ text size image, decode text size = some image →
      Restores (encode image.bytes) (symbols text) ∧
      decode (String.ofList (encode image.bytes)) size = some image := by
  refine ⟨fun text data h size => decode_of_encodes h size, ?_, ?_⟩
  · intro basic character kernal b c k hb hc hk hsizeb hsizec hsizek
    simp only [Bank.decode, Option.bind_some, programSize, characterSize, decode_of_encodes hb,
      decode_of_encodes hc, decode_of_encodes hk, hsizeb, hsizec, hsizek, if_true]
  · intro text size image h
    obtain ⟨hbytes, hsize⟩ := bytes_of_decode h
    refine ⟨restores hbytes, ?_⟩
    rw [decode_of_encodes (encodes_encode image.bytes), if_pos hsize.symm]

theorem decode_encoding_padded :
    let data : List UInt8 := [77, 97, 110, 77]
    let blank (size : ℕ) : List UInt8 := List.replicate size 0
    let encoded (size : ℕ) : String := String.ofList (encode (blank size))
    Encodes "TWFuTQ==\n" data ∧ decode "TWFuTQ==\n" 4 = some ⟨data⟩ ∧
      decode "TWFuTQ==\n" 5 = none ∧
      Bank.decode ⟨some (encoded 8192), some (encoded 4096), some (encoded 8192)⟩ =
        ⟨some ⟨blank 8192⟩, some ⟨blank 4096⟩, some ⟨blank 8192⟩⟩ ∧
      decode "TWFuTX" 4 = some ⟨data⟩ ∧ Restores (encode data) (symbols "TWFuTX") ∧
      encode data = ['T', 'W', 'F', 'u', 'T', 'Q'] := by
  intro data blank encoded
  obtain ⟨hdecode, hbank, hrestores⟩ := decode_encoding
  have hnewline : '\n' ∉ alphabet := by decide
  have hencodes : Encodes "TWFuTQ==\n" data :=
    ⟨['\n'], fun c hc => Option.some.inj hc ▸ hnewline, .inr (by decide)⟩
  have hblank (size : ℕ) : Encodes (encoded size) (blank size) := encodes_encode _
  have hlength (size : ℕ) : (blank size).length = size := List.length_replicate
  have himage : decode "TWFuTX" 4 = some ⟨data⟩ := by decide
  exact ⟨hencodes, hdecode _ _ hencodes 4, hdecode _ _ hencodes 5,
    hbank _ _ _ _ _ _ (hblank _) (hblank _) (hblank _) (hlength _) (hlength _) (hlength _),
    himage, (hrestores _ _ _ himage).1, by decide⟩

end Image
end SidPlayback.Rom
