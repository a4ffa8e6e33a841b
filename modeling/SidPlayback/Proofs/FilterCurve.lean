/-
  Filter curves in JSON that are read back, or nearly so.

  The nine parameters are written with the shortest digits that recall them, and are read the fast
  way.

  * `FilterCurve.reloads`: every curve of finite parameters is read again, each parameter two bit
    patterns away at most, and unchanged if it has few digits;
  * `FilterCurve.reload_changes`: a curve that is changed.
-/
import SidPlayback.FilterCurve
import SidPlayback.Proofs.Json.Reals
import SidPlayback.Proofs.Json.Record

namespace SidPlayback.FilterCurve

open Json Json.Codec

theorem ext_toList {c c' : FilterCurve} (h : c.toList = c'.toList) : c = c' := by
  obtain ⟨⟩ := c
  obtain ⟨⟩ := c'
  simp only [toList] at h
  cases h
  rfl

/-- A curve is read as the values that are read of its parameters. -/
theorem parse_render {c c' : FilterCurve} (h : List.Forall₂ real.Returns c.toList c'.toList) :
    record.parse (record.render c) = .ok c' := by
  simp only [toList, List.forall₂_cons] at h
  obtain ⟨hbase, hmax, hsteepness, hoffset, hdistort, hshift, hscale, hthreshold, hkink, -⟩ := h
  exact Json.Record.parse_render (by decide)
    (.cons (hbase.field _ _) <|
      .cons (hmax.field _ _) <|
      .cons (hsteepness.field _ _) <|
      .cons (hoffset.field _ _) <|
      .cons (hdistort.field _ _) <|
      .cons (hshift.field _ _) <|
      .cons (hscale.field _ _) <|
      .cons (hthreshold.field _ _) <|
      .cons (hkink.field _ _) .nil) rfl

/-- Something is read of every parameter. -/
theorem exists_reloaded {c : FilterCurve} (h : ∀ x ∈ c.toList, x.isFinite = true) :
    ∃ c' : FilterCurve,
      List.Forall₂ (fun x y => Reloaded x y ∧ real.Returns x y) c.toList c'.toList := by
  choose y hy using @returns_real
  simp only [toList, List.forall_mem_cons] at h
  obtain ⟨hbase, hmax, hsteepness, hoffset, hdistort, hshift, hscale, hthreshold, hkink, -⟩ := h
  exact ⟨⟨y hbase, y hmax, y hsteepness, y hoffset, y hdistort, y hshift, y hscale, y hthreshold,
      y hkink⟩,
    .cons (hy hbase) <|
      .cons (hy hmax) <|
      .cons (hy hsteepness) <|
      .cons (hy hoffset) <|
      .cons (hy hdistort) <|
      .cons (hy hshift) <|
      .cons (hy hscale) <|
      .cons (hy hthreshold) <|
      .cons (hy hkink) .nil⟩

/-- **Curves are read again**, whatever their parameters are: each of them two bit patterns away at
    most, and unchanged if it has few digits.  So a curve is unchanged if all its parameters have few
    digits. -/
theorem reloads (c : FilterCurve) (h : ∀ x ∈ c.toList, x.isFinite = true) :
    ∃ c' : FilterCurve, record.parse (record.render c) = .ok c' ∧
      List.Forall₂ Reloaded c.toList c'.toList ∧ ((∀ x ∈ c.toList, Short x) → c' = c) := by
  obtain ⟨c', hread⟩ := exists_reloaded h
  refine ⟨c', parse_render (hread.imp fun _ _ h => h.2), hread.imp fun _ _ h => h.1, fun hshort => ?_⟩
  have hsame : List.Forall₂ (· = ·) c.toList c'.toList :=
    ((List.forall₂_and_left _ _).2 ⟨hshort, hread⟩).imp fun _ _ h => (h.2.1.short h.1).symm
  rw [List.forall₂_eq_eq_eq] at hsame
  exact (ext_toList hsame).symm

theorem reloads_usual :
    (∀ x ∈ (⟨0.02, 0.99, 150.0, 0.58, 0.0032, 0.91, 1.4, 0.17, 0.0⟩ : FilterCurve).toList,
        x.isFinite = true) ∧
      ∃ c' : FilterCurve,
        record.parse (record.render ⟨0.02, 0.99, 150.0, 0.58, 0.0032, 0.91, 1.4, 0.17, 0.0⟩) = .ok c' ∧
          List.Forall₂ Reloaded [0.02, 0.99, 150.0, 0.58, 0.0032, 0.91, 1.4, 0.17, 0.0] c'.toList := by
  have hfinite : ∀ x ∈ (⟨0.02, 0.99, 150.0, 0.58, 0.0032, 0.91, 1.4, 0.17, 0.0⟩ : FilterCurve).toList,
      x.isFinite = true := by decide +kernel
  obtain ⟨c', hread, hreloaded, -⟩ := reloads _ hfinite
  exact ⟨hfinite, c', hread, hreloaded⟩

/-! ## A curve that is changed -/

/-- The square root of fourteen, and the double above it. -/
def rootFourteen : Float := Float.ofBits 0x400deeea11683f49

def aboveRootFourteen : Float := Float.ofBits 0x400deeea11683f4a

/-- The seventeen digits of the root are `37416573867739413`, which takes fifty-six bits: they are
    rounded before they are scaled. -/
theorem scale_rootFourteen :
    let n := (⟨8425463406411593, -51, false⟩ : Decimal.Magnitude).numeral .even
    n.digits.length = 17 ∧ n.point = 1 ∧
      (scale (digitsOf n) (-16)).map Float.toBits = some aboveRootFourteen.toBits := by
  decide +kernel

/-- The digits of the root are read as the next double. -/
theorem returns_rootFourteen : real.Returns rootFourteen aboveRootFourteen := by
  have hread : Decimal.ofFloat rootFourteen = .finite false ⟨8425463406411593, -51, false⟩ := rfl
  obtain ⟨sign, m, hread', -, hwritten⟩ := exists_written (x := rootFourteen) (by decide)
  obtain ⟨-, rfl⟩ := Decimal.Reading.finite.inj (hread.symm.trans hread')
  obtain ⟨hlength, hpoint, hscale⟩ := scale_rootFourteen
  obtain ⟨y, hy, hbits⟩ := Option.map_eq_some_iff.1 hscale
  obtain rfl : y = aboveRootFourteen := Decimal.eq_of_toBits (congrArg UInt64.toNat hbits)
  obtain ⟨s, hs, htext⟩ := exists_spelled
    ((⟨8425463406411593, -51, false⟩ : Decimal.Magnitude).numeral .even)
  refine returns_scaled hread hwritten hs htext ?_
  obtain ⟨hS, hp⟩ | ⟨-, -, hless, -⟩ := hs.collected hwritten.proper
  · have hpower : s.power = -16 := by omega
    rw [hS, hpower]
    exact hy
  · omega

/-- **A curve is changed** whose base is the square root of fourteen: it is read as the next double. -/
theorem reload_changes :
    (∀ x ∈ ({ zero with base := rootFourteen } : FilterCurve).toList, x.isFinite = true) ∧
      record.parse (record.render { zero with base := rootFourteen }) =
        .ok { zero with base := aboveRootFourteen } ∧
      aboveRootFourteen.toBits ≠ rootFourteen.toBits := by
  have hzero : real.Returns 0 0 := real_faithful (by decide)
    ⟨false, ⟨0, -1074, false⟩, rfl, by decide, by decide, by decide⟩
  refine ⟨by decide, parse_render ?_, by decide⟩
  exact .cons returns_rootFourteen <|
    List.forall₂_same.2 fun x hx => (List.eq_of_mem_replicate (n := 8) hx) ▸ hzero

end SidPlayback.FilterCurve
