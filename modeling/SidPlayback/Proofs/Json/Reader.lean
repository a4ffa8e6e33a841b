/-
  What readers of JSON take from the front of a text.

  A reader that takes a value leaves the rest of the text, whatever the rest is and wherever the
  text stands.  So readers are followed step by step, and the offsets that only faults need are
  left out.

  * `Json.Yields` says that a reader takes a value and leaves a rest;
  * `Json.Yields.bind`: what readers yield one after another;
  * `Json.whole_of_yields`: a reader that leaves nothing reads the complete text;
  * `Json.Text.yields_read`: the characters of every text are read back behind the opening quote,
    whether escaped or not.
-/
import SidPlayback.Json.Text

namespace SidPlayback.Json

/-- The reader takes `a` from the front of `text`, and leaves `rest`. -/
def Yields {α : Type} (r : Reader α) (text : List Char) (a : α) (rest : List Char) : Prop :=
  ∀ offset, ∃ offset', r ⟨text, offset⟩ = .ok (a, ⟨rest, offset'⟩)

namespace Yields

variable {α β : Type} {text rest rest' : List Char}

theorem pure (a : α) (text : List Char) : Yields (pure a) text a text :=
  fun offset => ⟨offset, rfl⟩

theorem bind {r : Reader α} {f : α → Reader β} {a : α} {b : β} (h : Yields r text a rest)
    (h' : Yields (f a) rest b rest') : Yields (r >>= f) text b rest' := fun offset => by
  obtain ⟨offset', heq⟩ := h offset
  obtain ⟨offset'', heq'⟩ := h' offset'
  refine ⟨offset'', ?_⟩
  change Except.bind (r ⟨text, offset⟩) (fun p => f p.1 p.2) = _
  rw [heq]
  exact heq'

theorem map {r : Reader α} {a : α} (f : α → β) (h : Yields r text a rest) :
    Yields (f <$> r) text (f a) rest := fun offset => by
  obtain ⟨offset', heq⟩ := h offset
  refine ⟨offset', ?_⟩
  change Except.bind (r ⟨text, offset⟩) (fun p => .ok (f p.1, p.2)) = _
  rw [heq]
  rfl

end Yields

/-! ## Characters -/

theorem yields_look? (text : List Char) : Yields Reader.look? text text.head? text :=
  fun offset => ⟨offset, rfl⟩

theorem yields_take (c : Char) (text : List Char) : Yields Reader.take (c :: text) () text :=
  fun _ => ⟨_, rfl⟩

theorem yields_look {c : Char} {text : List Char} (hc : text.head? = some c)
    (hblank : Input.isBlank c = false) : Yields Reader.look text (some c) text := fun offset => by
  have hskip : Input.skipBlanks ⟨text, offset⟩ = ⟨text, offset⟩ := by
    obtain ⟨rest, rfl⟩ := List.head?_eq_some_iff.1 hc
    simp [Input.skipBlanks, hblank]
  exact ⟨offset, by rw [Reader.look, hskip, hc]⟩

theorem yields_look_cons (c : Char) (text : List Char) (hblank : Input.isBlank c = false) :
    Yields Reader.look (c :: text) (some c) (c :: text) :=
  yields_look rfl hblank

theorem yields_word (word text : List Char) : Yields (Reader.word word) (word ++ text) () text := by
  induction word with
  | nil => exact .pure () text
  | cons c word ih =>
    refine (yields_look? _).bind ?_
    simp only [List.cons_append, List.head?_cons, if_true]
    exact (yields_take c _).bind ih

theorem whole_of_yields {α : Type} {r : Reader α} {a : α} {text : String}
    (h : Yields r text.toList a []) : Reader.whole r text = .ok a := by
  obtain ⟨offset, heq⟩ := h 0
  rw [Reader.whole, Input.ofText, heq]
  rfl

/-! ## Texts -/

namespace Text

theorem unit?_digitChar : ∀ n < 32,
    unit? '0' '0' (Nat.digitChar (n / 16)) (Nat.digitChar (n % 16)) = some n := by decide

theorem join_control : ∀ n < 32, join none n = .ok (.inr (Char.ofNat n)) := by
  intro n h
  have hlow : isLow n = false := by simp [isLow]; omega
  have hhigh : isHigh n = false := by simp [isHigh]; omega
  simp [join, hlow, hhigh]

section
variable (rest : List Char) (offset : Nat)

theorem contents_quote : contents none ('"' :: rest) offset = .ok ([], ⟨rest, offset + 1⟩) := by
  rw [contents.eq_def]
  simp

theorem contents_plain {c : Char} (hquote : c ≠ '"') (hback : c ≠ '\\') (h : ¬ c.toNat < 32) :
    contents none (c :: rest) offset = push c (contents none rest (offset + c.utf8Size)) := by
  rw [contents.eq_def]
  simp [hquote, hback, h]

theorem contents_letter {e x : Char} (hunit : e ≠ 'u') (h : unescape? e = some x) :
    contents none ('\\' :: e :: rest) offset = push x (contents none rest (offset + 2)) := by
  rw [contents.eq_def]
  simp [hunit, h]

theorem contents_unit {a b c d x : Char} {unit : Nat} (hunit : unit? a b c d = some unit)
    (h : join none unit = .ok (.inr x)) :
    contents none ('\\' :: 'u' :: a :: b :: c :: d :: rest) offset =
      push x (contents none rest (offset + 6)) := by
  rw [contents.eq_def]
  simp [hunit, h]

/-- **A character** is read back, escaped or not. -/
theorem contents_escape (c : Char) :
    ∃ offset', contents none (escape c ++ rest) offset = push c (contents none rest offset') := by
  unfold escape
  split
  case h_8 hquote hback _ _ _ _ _ =>
    split
    case isTrue hcontrol =>
      refine ⟨_, contents_unit rest offset (unit?_digitChar _ hcontrol) ?_⟩
      rw [join_control _ hcontrol, Char.ofNat_toNat]
    case isFalse hplain =>
      exact ⟨_, contents_plain rest offset hquote hback hplain⟩
  all_goals exact ⟨_, contents_letter rest offset (by decide) rfl⟩

end

theorem contents_escapes (chars rest : List Char) (offset : Nat) :
    ∃ offset', contents none (chars.flatMap escape ++ '"' :: rest) offset =
      .ok (chars, ⟨rest, offset'⟩) := by
  induction chars generalizing offset with
  | nil => exact ⟨_, contents_quote rest offset⟩
  | cons c chars ih =>
    obtain ⟨offset', hc⟩ := contents_escape (chars.flatMap escape ++ '"' :: rest) offset c
    obtain ⟨offset'', hrest⟩ := ih offset'
    refine ⟨offset'', ?_⟩
    rw [List.flatMap_cons, List.append_assoc, hc, hrest]
    rfl

/-- **Every text** is read back behind its opening quote. -/
theorem yields_read (text : String) (rest : List Char) :
    Yields read (text.toList.flatMap escape ++ '"' :: rest) text rest := fun offset => by
  obtain ⟨offset', h⟩ := contents_escapes text.toList rest offset
  refine ⟨offset', ?_⟩
  change Except.bind (contents none _ offset) _ = _
  rw [h]
  change Except.ok (String.ofList text.toList, _) = _
  rw [String.ofList_toList]

end Text
end SidPlayback.Json
