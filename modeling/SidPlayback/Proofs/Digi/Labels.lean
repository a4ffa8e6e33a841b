/-
  The text for a set of labels.

  * `Digi.prevailing` are those techniques of a set that are shown, and `Digi.parts` the parts of
    a text between its `&`;
  * `Digi.Describes` says that a label is the text for a set of techniques, and
    `Digi.Describes.unique` that there is one text only;
  * `Digi.Labels.sorted_insert`: sets of labels stay in order;
  * `Digi.Labels.describes_summary`: the summary of a set of labels is the text for the
    techniques among them, and `Digi.Labels.describes_of_mem_iff` says what these are where the
    labels are known.
-/
import Mathlib.Data.List.Sort
import Mathlib.Data.Set.Insert
import Mathlib.Data.String.Basic
import Mathlib.Order.BooleanAlgebra.Set
import SidPlayback.Digi.Status
import SidPlayback.Proofs.Text.Order

namespace SidPlayback.Digi

/-! ## Techniques -/

open Classical in
/-- The techniques of a set that are shown: all but `D418`, if there is another one. -/
noncomputable def prevailing (found : Set String) : Set String :=
  if ∃ label ∈ found, label ≠ "D418" then found \ {"D418"} else found

/-- The parts of a text between its `&`. -/
def parts (text : String) : List String := (text.split '&').toList.map (·.copy)

theorem parts_empty : parts "" = [""] :=
  String.toList_split_intercalate (c := '&') (l := []) nofun

/-- The label is the text for the techniques. -/
structure Describes (found : Set String) (label : String) : Prop where
  /-- It joins those that are shown, each once, in the order of their bytes. -/
  joined : ∃ shown : List String, shown.Pairwise (Text.bytes · < Text.bytes ·) ∧
    (∀ name, name ∈ shown ↔ name ∈ prevailing found) ∧ label = "&".intercalate shown ∧
    ((∀ name ∈ found, '&' ∉ name.toList) → label ≠ "" → parts label = shown)
  eq_empty_iff : label = "" ↔ found = ∅
  generic_iff : (∀ name ∈ found, '&' ∉ name.toList) →
    ("D418" ∈ parts label ↔ found = {"D418"})

section
variable {found : Set String}

/-- `D418` is shown only where it is alone. -/
theorem mem_prevailing {name : String} :
    name ∈ prevailing found ↔ name ∈ found ∧ (name = "D418" → found = {"D418"}) := by
  unfold prevailing
  split_ifs with h
  · rw [Set.mem_sdiff, Set.mem_singleton_iff]
    refine and_congr_right fun _ => ⟨fun hne heq => absurd heq hne, fun halone heq => ?_⟩
    obtain ⟨other, hother, hne⟩ := h
    rw [halone heq] at hother
    exact hne hother
  · push Not at h
    refine ⟨fun hname => ⟨hname, fun heq => ?_⟩, And.left⟩
    exact Set.eq_singleton_iff_unique_mem.2 ⟨heq ▸ hname, h⟩

theorem prevailing_eq_empty_iff : prevailing found = ∅ ↔ found = ∅ := by
  constructor
  · intro h
    unfold prevailing at h
    split_ifs at h with hother
    · obtain ⟨other, hmem, hne⟩ := hother
      exact absurd (Set.mem_sdiff_singleton.2 ⟨hmem, hne⟩) (h ▸ Set.notMem_empty other)
    · exact h
  · rintro rfl
    exact Set.eq_empty_of_forall_notMem fun name hname => (mem_prevailing.1 hname).1

/-- **There is one text only** for a set of techniques. -/
theorem Describes.unique {label label' : String} (h : Describes found label)
    (h' : Describes found label') : label = label' := by
  obtain ⟨shown, hsorted, hmem, hlabel, -⟩ := h.joined
  obtain ⟨shown', hsorted', hmem', hlabel', -⟩ := h'.joined
  have hsame : shown = shown' := by
    refine hsorted.eq_of_mem_iff hsorted' fun name => ?_
    rw [hmem, hmem']
  rw [hlabel, hlabel', hsame]

end

/-! ## Labels -/

theorem intercalate_eq_empty_iff {texts : List String} (h : ∀ text ∈ texts, text ≠ "") :
    "&".intercalate texts = "" ↔ texts = [] := by
  refine ⟨fun heq => ?_, fun heq => by rw [heq]; rfl⟩
  match texts with
  | [] => rfl
  | [text] =>
    rw [String.intercalate_singleton] at heq
    exact absurd heq (h text List.mem_cons_self)
  | text :: next :: rest =>
    rw [String.intercalate_cons_cons, String.append_eq_empty_iff, String.append_eq_empty_iff] at heq
    exact absurd heq.1.1 (h text List.mem_cons_self)

namespace Labels
variable {label : String} {labels : Labels}

theorem mem_insert {other : String} :
    other ∈ Labels.insert label labels ↔ other = label ∨ other ∈ labels := by
  induction labels with
  | nil => exact List.mem_singleton.trans (by simp)
  | cons first rest ih =>
    unfold insert
    split
    · exact List.mem_cons
    · split
      case isTrue hsame =>
        subst hsame
        rw [List.mem_cons, ← or_assoc, or_self]
      case isFalse =>
        rw [List.mem_cons, ih, List.mem_cons, or_left_comm]

/-- **Adding a label** keeps the labels in their order, without repetitions. -/
theorem sorted_insert (h : labels.Pairwise (· < ·)) :
    (Labels.insert label labels).Pairwise (· < ·) := by
  induction labels with
  | nil => exact List.pairwise_singleton _ _
  | cons first rest ih =>
    obtain ⟨hfirst, hrest⟩ := List.pairwise_cons.1 h
    unfold insert
    split
    case isTrue hless =>
      refine List.pairwise_cons.2 ⟨?_, h⟩
      exact List.forall_mem_cons.2 ⟨hless, fun other ho => hless.trans (hfirst other ho)⟩
    case isFalse hge =>
      split
      case isTrue => exact h
      case isFalse hne =>
        refine List.pairwise_cons.2 ⟨fun other ho => ?_, ih hrest⟩
        rcases mem_insert.1 ho with rfl | ho
        · exact lt_of_le_of_ne (not_lt.1 hge) (Ne.symm hne)
        · exact hfirst other ho

theorem mem_techniques {name : String} :
    name ∈ labels.techniques ↔ name ∈ labels ∧ name ≠ "" ∧ name ≠ "NONE" := by
  simp [techniques, unidentified]

theorem sorted_shown (h : labels.Pairwise (· < ·)) : labels.shown.Pairwise (· < ·) := by
  have htechniques : labels.techniques.Pairwise (· < ·) := h.filter _
  unfold shown
  split
  · exact List.pairwise_singleton _ _
  · exact htechniques.filter _

/-- **The techniques to show** are those that prevail. -/
theorem mem_shown (h : labels.Pairwise (· < ·)) {name : String} :
    name ∈ labels.shown ↔ name ∈ prevailing {name | name ∈ labels.techniques} := by
  have htechniques : labels.techniques.Pairwise (· < ·) := h.filter _
  rw [mem_prevailing, shown]
  split
  case h_1 only honly =>
    simp only [honly, List.mem_singleton, Set.ofPred_eq_eq_singleton]
    exact ⟨fun heq => ⟨heq, fun hname => by rw [← heq, hname]⟩, And.left⟩
  case h_2 several hseveral =>
    rw [List.mem_filter, bne_iff_ne, generic]
    refine and_congr_right fun hname => ⟨fun hne heq => absurd heq hne, fun halone heq => ?_⟩
    -- a set of one label would be a list of one label
    refine hseveral "D418" (htechniques.eq_of_mem_iff (List.pairwise_singleton _ _) fun other => ?_)
    rw [List.mem_singleton]
    exact Set.ext_iff.1 (halone heq) other

/-- **The summary** of a set of labels is the text for the techniques among them. -/
theorem describes_summary (h : labels.Pairwise (· < ·)) :
    Describes {name | name ∈ labels.techniques} labels.summary := by
  have hshown {name : String} (hname : name ∈ labels.shown) : name ∈ labels.techniques :=
    (mem_prevailing.1 ((mem_shown h).1 hname)).1
  have hempty : labels.summary = "" ↔ labels.shown = [] :=
    intercalate_eq_empty_iff fun name hname => (mem_techniques.1 (hshown hname)).2.1
  have hparts (hno : ∀ name ∈ labels.techniques, '&' ∉ name.toList) (hne : labels.summary ≠ "") :
      parts labels.summary = labels.shown := by
    have hsplit := String.toList_split_intercalate (c := '&') fun name hname => hno name (hshown hname)
    rw [if_neg (mt hempty.2 hne)] at hsplit
    exact hsplit
  have hsummary : labels.summary = "" ↔ {name | name ∈ labels.techniques} = ∅ := by
    rw [hempty, ← prevailing_eq_empty_iff, Set.eq_empty_iff_forall_notMem,
      List.eq_nil_iff_forall_not_mem]
    exact forall_congr' fun name => not_congr (mem_shown h)
  refine ⟨⟨labels.shown, ?_, fun name => mem_shown h, rfl, hparts⟩, hsummary, fun hno => ?_⟩
  · exact (sorted_shown h).imp Text.bytes_lt_bytes.2
  · by_cases hne : labels.summary = ""
    · have hnone : {name | name ∈ labels.techniques} ≠ {"D418"} := by
        rw [(hsummary.1 hne)]
        exact (Set.singleton_ne_empty _).symm
      rw [hne, parts_empty, List.mem_singleton]
      exact iff_of_false (by decide) hnone
    · rw [hparts hno hne, mem_shown h, mem_prevailing]
      refine ⟨fun hmem => hmem.2 rfl, fun heq => ⟨heq ▸ rfl, fun _ => heq⟩⟩

theorem describes_of_mem_iff (h : labels.Pairwise (· < ·)) {named : String → Prop}
    (hnamed : ∀ name, name ∈ labels ↔ named name) :
    Describes {name | name ≠ "" ∧ name ≠ "NONE" ∧ named name} labels.summary := by
  have hfound : {name | name ≠ "" ∧ name ≠ "NONE" ∧ named name} = {name | name ∈ labels.techniques} := by
    ext name
    rw [Set.mem_ofPred_eq, Set.mem_ofPred_eq, mem_techniques, hnamed]
    tauto
  rw [hfound]
  exact describes_summary h

end Labels
end SidPlayback.Digi
