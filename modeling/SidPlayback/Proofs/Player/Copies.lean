/-
  Copies out of the engine.

  Traces and cutoff tables are copied into buffers of the caller.  The engine says how many
  traces there are, but some of them may be missing, and tables and buffers may have any
  length.

  * `Slice.copy?` copies slices and fails where one of them is out of bounds, and `Copied` says
    that exactly the first values were copied, without failure;
  * `Traces.scaled_number`: a scaled sample is exact;
  * `Player.copies_bounded`: what is copied and read, whatever the lengths are.
-/
import SidPlayback.Engine.Scripted
import SidPlayback.Host.Scripted
import SidPlayback.Player.Control
import SidPlayback.Player.Listening
import SidPlayback.Proofs.Decimal.Ranks

namespace SidPlayback

/-! ## Copies -/

section
variable {α : Type}

/-- Copies the first `n` values over the first `n` entries of a buffer; both slices have to be
    in bounds. -/
def Slice.copy? (n : ℕ) (values buffer : List α) : Option (List α) :=
  if n ≤ values.length ∧ n ≤ buffer.length then some (values.take n ++ buffer.drop n) else none

/-- The first `n` values were copied into the buffer, and nothing else was changed. -/
structure Copied (values buffer : List α) (n : ℕ) (result : ℕ × List α) : Prop where
  count : result.1 = n
  slices : Slice.copy? n values buffer = some result.2
  size : result.2.length = buffer.length
  first : ∀ i < n, result.2[i]? = values[i]?
  others : ∀ i, n ≤ i → result.2[i]? = buffer[i]?

theorem copied_overwrite (values buffer : List α) :
    Copied values buffer (min values.length buffer.length) (Traces.overwrite values buffer) := by
  set n := min values.length buffer.length with hn
  have hvalues : n ≤ values.length := Nat.min_le_left ..
  have hbuffer : n ≤ buffer.length := Nat.min_le_right ..
  have hresult : Traces.overwrite values buffer = (n, values.take n ++ buffer.drop n) := rfl
  have hfirst : (values.take n).length = n := List.length_take_of_le hvalues
  rw [hresult]
  refine ⟨rfl, if_pos ⟨hvalues, hbuffer⟩, ?_, fun i hi => ?_, fun i hi => ?_⟩
  · rw [List.length_append, hfirst, List.length_drop]
    omega
  · rw [List.getElem?_append_left (by omega), List.getElem?_take_of_lt hi]
  · rw [List.getElem?_append_right (by omega), hfirst, List.getElem?_drop]
    congr 1
    omega

/-- Of a table that is cut off first, the values are those of the table. -/
theorem Copied.of_take {values buffer : List α} {limit n : ℕ} {result : ℕ × List α}
    (h : Copied (values.take limit) buffer n result) : Copied values buffer n result := by
  have hbounds : n ≤ (values.take limit).length ∧ n ≤ buffer.length := by
    by_contra hout
    have hslices := h.slices
    rw [Slice.copy?, if_neg hout] at hslices
    cases hslices
  have hless : n ≤ min limit values.length := by
    rw [← List.length_take]
    exact hbounds.1
  refine ⟨h.count, ?_, h.size, fun i hi => ?_, h.others⟩
  · have hslices := h.slices
    rw [Slice.copy?, if_pos hbounds, List.take_take, Nat.min_eq_left (by omega)] at hslices
    rw [Slice.copy?, if_pos ⟨by omega, hbounds.2⟩]
    exact hslices
  · rw [h.first i hi, List.getElem?_take_of_lt (by omega)]

end

/-! ## Samples -/

namespace Traces

open Decimal Float.Model Float.Model.UnpackedFloat

/-- The scaled form of a sample. -/
structure Scaled (s : Int16) (x : Float32) : Prop where
  number : rational? x.toModel.unpack = some ((s.toInt : ℚ) / 32768)
  least : -1 ≤ (s.toInt : ℚ) / 32768
  below : (s.toInt : ℚ) / 32768 < 1

/-- Single-precision values that are not too large are stored as they are. -/
theorem unpack_single {s : Sign} {m : ℕ} {e : ℤ} (h : Canonical Format.binary32 m e) (hroom : e ≤ 104) :
    (Float32.Model.pack (.finite s m e h.pos)).unpack = .finite s m e h.pos := by
  refine Ranked.unpack_pack (f := Format.binary32) (by decide) (.finite h) ?_
  have hleast := h.least
  have hmin : Format.binary32.minExponent = -149 := rfl
  have hlast : 2 ^ Format.binary32.exponentBits = 256 := rfl
  rw [h.rank_lt_iff (by decide), hlast, hmin]
  omega

theorem unpack_scale : (32768.0 : Float32).toModel.unpack =
    .finite .positive (2 ^ 23) (15 - (23 : ℕ)) (by decide) := rfl

/-- The value `n / 2 ^ k` with a sign, in all bits of a coefficient. -/
def Holds (x : Float32) (s : Sign) (n k : ℕ) : Prop :=
  ∃ h, x.toModel.unpack = .finite s (n <<< (23 - n.log2)) (n.log2 - (23 : ℕ) + -k) h

section
variable {n : ℕ} (hpos : 0 < n) (hbits : n < 2 ^ 16)
include hpos hbits

theorem log2_lt_of_bits : n.log2 < 16 := (Nat.log2_lt hpos.ne').2 hbits

theorem canonical_fraction {k : ℕ} (hk : k ≤ 15) :
    Canonical Format.binary32 (n <<< (23 - n.log2)) (n.log2 - (23 : ℕ) + -k) := by
  have hmin : Format.binary32.minExponent = -149 := rfl
  refine canonical_natCast (f := Format.binary32) hpos (hbits.trans (by decide)) ?_
  show Format.binary32.minExponent ≤ (n.log2 - (23 : ℕ) + -k : ℤ)
  omega

theorem holds_pack {s : Sign} {k : ℕ} (hk : k ≤ 15) {y : UnpackedFloat}
    (hy : ∀ h, y = .finite s (n <<< (23 - n.log2)) (n.log2 - (23 : ℕ) + -k) h) :
    Holds (.ofModel (.pack y)) s n k := by
  have hlog := log2_lt_of_bits hpos hbits
  have hcanonical := canonical_fraction hpos hbits hk
  refine ⟨hcanonical.pos, ?_⟩
  rw [hy hcanonical.pos]
  exact unpack_single hcanonical (by omega)

theorem holds_magnitude : Holds (UInt64.ofNat n).toFloat32 .positive n 0 := by
  have hmin : Format.binary32.minExponent = -149 := rfl
  refine holds_pack hpos hbits (k := 0) (by decide) fun h => ?_
  show UnpackedFloat.ofNat Format.binary32 (UInt64.ofNat n).toNat = _
  rw [UInt64.toNat_ofNat_of_lt' (hbits.trans (by decide)), Nat.cast_zero, neg_zero]
  simp only [add_zero]
  refine ofNat_eq_finite (f := Format.binary32) hpos (hbits.trans (by decide)) ?_
  show Format.binary32.minExponent ≤ (n.log2 - (23 : ℕ) : ℤ)
  omega

variable {x : Float32} {s : Sign}

theorem Holds.neg {k : ℕ} (hk : k ≤ 15) (hx : Holds x .positive n k) : Holds (-x) .negative n k := by
  obtain ⟨h, hx⟩ := hx
  refine holds_pack hpos hbits hk (y := x.toModel.unpack.neg) fun _ => ?_
  rw [hx]
  rfl

theorem Holds.div_scale (hx : Holds x s n 0) : Holds (x / 32768.0) (s / .positive) n 15 := by
  obtain ⟨h, hx⟩ := hx
  refine holds_pack hpos hbits (k := 15) le_rfl
    (y := UnpackedFloat.div Format.binary32 x.toModel.unpack (32768.0 : Float32).toModel.unpack) fun _ => ?_
  have hcanonical := canonical_fraction hpos hbits (k := 0) (by decide)
  have hdivided := canonical_fraction hpos hbits (k := 15) le_rfl
  rw [hx, unpack_scale]
  simp only [Nat.cast_zero, neg_zero, add_zero] at hcanonical ⊢
  exact div_two_pow_eq (f := Format.binary32) hcanonical hdivided

theorem fraction_eq : (n : ℚ) / 32768 =
    (n <<< (23 - n.log2) : ℕ) * 2 ^ (n.log2 - (23 : ℕ) + -(15 : ℕ) : ℤ) := by
  have hscaled : (n : ℚ) = (n <<< (23 - n.log2) : ℕ) * 2 ^ (n.log2 - (23 : ℕ) : ℤ) :=
    natCast_eq_scaled (f := Format.binary32) hpos (hbits.trans (by decide))
  rw [zpow_add₀ (by norm_num), ← mul_assoc, ← hscaled, div_eq_mul_inv]
  norm_num

end

/-- **A scaled sample** is exact. -/
theorem scaled_number (s : Int16) : Scaled s (scaled s) := by
  have hlow : -32768 ≤ s.toInt := Int16.le_toInt s
  have hhigh : s.toInt < 32768 := Int16.toInt_lt s
  refine ⟨?_, ?_, ?_⟩
  · rw [scaled]
    split
    case isTrue hneg =>
      have hpos : 0 < s.toInt.natAbs := by omega
      have hbits : s.toInt.natAbs < 2 ^ 16 := by omega
      have hnumber : (s.toInt : ℚ) = -(s.toInt.natAbs : ℕ) := by
        have : ((s.toInt.natAbs : ℕ) : ℤ) = -s.toInt := by omega
        rw [← Int.cast_natCast, this, Int.cast_neg, neg_neg]
      obtain ⟨h, hx⟩ := ((holds_magnitude hpos hbits).neg hpos hbits (by decide)).div_scale hpos hbits
      rw [hx, hnumber, neg_div, fraction_eq hpos hbits]
      rfl
    case isFalse hnonneg =>
      rcases Nat.eq_zero_or_pos s.toInt.natAbs with hzero | hpos
      · have hs : s.toInt = 0 := by omega
        rw [hzero, hs, Int.cast_zero, zero_div]
        rfl
      · have hbits : s.toInt.natAbs < 2 ^ 16 := by omega
        have hnumber : (s.toInt : ℚ) = (s.toInt.natAbs : ℕ) := by
          have : ((s.toInt.natAbs : ℕ) : ℤ) = s.toInt := by omega
          rw [← Int.cast_natCast, this]
        obtain ⟨h, hx⟩ := (holds_magnitude hpos hbits).div_scale hpos hbits
        rw [hx, hnumber, fraction_eq hpos hbits]
        rfl
  · rw [le_div_iff₀ (by norm_num)]
    exact_mod_cast hlow
  · rw [div_lt_one (by norm_num)]
    exact_mod_cast hhigh

/-! ## Traces -/

/-- What a view of `count` traces shows: of each trace the samples that the engine has. -/
structure Shows (t : Traces) (count : ℕ) (trace? : ℕ → Option (List Int16)) : Prop where
  size : t.size = count
  stream : ∀ index, t.stream? index = if index < count then some ((trace? index).getD []) else none
  copy : ∀ index buffer, Copied ((t.stream? index).getD []) buffer
    ((t.stream? index).elim 0 fun samples => min samples.length buffer.length) (t.copy index buffer)
  inside : ∀ index sample, (t.sample? index sample).isSome = true ↔
    ∃ samples, t.stream? index = some samples ∧ sample < samples.length
  sample : ∀ index sample, Option.Rel Scaled ((t.stream? index).bind (·[sample]?)) (t.sample? index sample)

theorem copied_copy (t : Traces) (index : ℕ) (buffer : List Int16) :
    Copied ((t.stream? index).getD []) buffer
      ((t.stream? index).elim 0 fun samples => min samples.length buffer.length)
      (t.copy index buffer) := by
  have hcopied := copied_overwrite ((t.stream? index).getD []) buffer
  unfold copy
  cases h : t.stream? index with
  | none =>
    rw [h] at hcopied
    have hnone : min ([] : List Int16).length buffer.length = 0 := Nat.zero_min _
    rwa [Option.getD_none, hnone] at hcopied
  | some samples => rwa [h] at hcopied

theorem sample?_inside (t : Traces) (index sample : ℕ) : (t.sample? index sample).isSome = true ↔
    ∃ samples, t.stream? index = some samples ∧ sample < samples.length := by
  unfold sample?
  cases h : t.stream? index with
  | none => simp
  | some samples => simp

theorem scaled_sample (t : Traces) (index sample : ℕ) :
    Option.Rel Scaled ((t.stream? index).bind (·[sample]?)) (t.sample? index sample) := by
  unfold sample?
  cases h : t.stream? index with
  | none => exact .none
  | some samples =>
    rw [Option.bind_some, Option.bind_some]
    cases hs : samples[sample]? with
    | none => exact .none
    | some s => exact .some (scaled_number s)

end Traces

/-! ## Players -/

namespace Player

variable {ε η : Type} [Engine ε] [Host η]

/-- **Copies out of the engine are bounded.** The traces are as many as the engine says, with an
    empty one where the engine has none; samples and copies are those of the trace, and a copy of
    a cutoff table ends with the table, with the buffer or after 1024 values. -/
theorem copies_bounded (p : Player ε η) (level : Int32) (buffer : List Float) :
    p.traces.result.Shows (Engine.traceCount p.engine) (Engine.trace? p.engine) ∧
    Copied (Engine.cutoffs p.engine level) buffer
      (min (min (Engine.cutoffs p.engine level).length buffer.length) 1024)
      (p.cutoffs level buffer) := by
  refine ⟨⟨?_, fun index => ?_, Traces.copied_copy _, Traces.sample?_inside _, Traces.scaled_sample _⟩, ?_⟩
  · rw [Traces.size, traces, List.length_map, List.length_range]
  · rw [Traces.stream?, traces, List.getElem?_map]
    split
    case isTrue h => rw [List.getElem?_range h]; rfl
    case isFalse h => rw [List.getElem?_eq_none (by rw [List.length_range]; omega)]; rfl
  · have hcopied := copied_overwrite ((Engine.cutoffs p.engine level).take cutoffTableSize) buffer
    have hlimit : cutoffTableSize = 1024 := rfl
    have hsize : min (min (Engine.cutoffs p.engine level).length buffer.length) 1024 =
        min ((Engine.cutoffs p.engine level).take cutoffTableSize).length buffer.length := by
      rw [List.length_take]
      omega
    rw [hsize]
    exact hcopied.of_take

/-- An engine with a table that is too long, and with one trace instead of two. -/
def lengthyEngine : Scripted :=
  { Scripted.initial with
    cutoffs := [(3, Scripted.cutoffTable 3 1500)]
    traces := [[-32768, 16384, 32767]]
    traceCount := some 2 }

/-- A new player with this engine. -/
def scriptedCopies : Player Scripted ScriptedHost :=
  (create lengthyEngine ScriptedHost.initial ⟨none, none, none⟩).player

theorem copies_bounded_lengthy :
    let table := Engine.cutoffs scriptedCopies.engine 3
    let copied := scriptedCopies.cutoffs 3 (List.replicate 1200 0.25)
    let traces := scriptedCopies.traces.result
    table.length = 1500 ∧ copied.1 = 1024 ∧ copied.2.length = 1200 ∧
      copied.2[1023]? = table[1023]? ∧ copied.2[1024]? = some 0.25 ∧
      traces.size = 2 ∧ traces.stream? 0 = some [-32768, 16384, 32767] ∧
      traces.stream? 1 = some [] ∧ traces.stream? 2 = none ∧
      (traces.copy 0 [1, 2]).1 = 2 ∧ (traces.copy 0 [1, 2]).2[0]? = some (-32768 : Int16) := by
  intro table copied traces
  obtain ⟨hshows, hcopied⟩ := copies_bounded scriptedCopies 3 (List.replicate 1200 0.25)
  have htable : table.length = 1500 := by decide +kernel
  have hcount : min (min table.length (List.replicate 1200 (0.25 : Float)).length) 1024 = 1024 := by
    rw [htable, List.length_replicate]
    rfl
  rw [hcount] at hcopied
  have hcopy := hshows.copy 0 [1, 2]
  refine ⟨htable, hcopied.count, ?_, hcopied.first 1023 (by decide), ?_, hshows.size, hshows.stream 0,
    hshows.stream 1, hshows.stream 2, hcopy.count, hcopy.first 0 (by decide)⟩
  · rw [hcopied.size, List.length_replicate]
  · rw [hcopied.others 1024 le_rfl, List.getElem?_replicate_of_lt (by decide)]

end Player
end SidPlayback
