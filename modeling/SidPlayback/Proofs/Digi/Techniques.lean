/-
  What the label of a window says of the techniques in it.

  * `Digi.techniques` is the set of the techniques that readings name;
  * `Digi.Window.mem_labels_collect`: a window has the labels of its readings with output;
  * `Digi.label_describes`: the label of every window is the text for its techniques.
-/
import SidPlayback.Proofs.Digi.Labels
import SidPlayback.Proofs.Digi.Readings

namespace SidPlayback.Digi

/-! ## Techniques -/

/-- The techniques that readings with digi output name. -/
def techniques (readings : List Reading) : Set String :=
  {label | label ≠ "" ∧ label ≠ "NONE" ∧ ∃ r ∈ readings, r.isOutput = true ∧ r.label = label}

/-! ## Windows -/

namespace Window
variable (readings : List Reading)

theorem sorted_collect : (collect readings).labels.Pairwise (· < ·) := by
  induction readings using List.reverseRecOn with
  | nil => exact .nil
  | append_singleton readings r ih =>
    rw [collect_snoc]
    cases h : r.isOutput with
    | true => rw [add_of_isOutput h]; exact Labels.sorted_insert ih
    | false => rw [add_of_not_isOutput h]; exact ih

theorem mem_labels_collect {label : String} : label ∈ (collect readings).labels ↔
    ∃ r ∈ readings, r.isOutput = true ∧ r.label = label := by
  induction readings using List.reverseRecOn with
  | nil => simp [collect, empty]
  | append_singleton readings r ih =>
    rw [collect_snoc]
    simp only [List.mem_append, List.mem_singleton, or_and_right, exists_or, exists_eq_left, ← ih]
    cases h : r.isOutput with
    | true => simp [add_of_isOutput h, Labels.mem_insert, or_comm, eq_comm]
    | false => simp [add_of_not_isOutput h]

theorem describes_status : Describes (techniques readings) (collect readings).status.label := by
  have hlabels : (collect readings).batches = 0 → (collect readings).labels = [] := fun hnone => by
    rw [batches_collect, List.countP_eq_zero] at hnone
    refine List.eq_nil_iff_forall_not_mem.2 fun label hlabel => ?_
    obtain ⟨r, hr, houtput, -⟩ := (mem_labels_collect readings).1 hlabel
    exact hnone r hr houtput
  rw [label_status hlabels]
  exact Labels.describes_of_mem_iff (sorted_collect readings) fun _ => mem_labels_collect readings

end Window

/-- **The label of every window** is the text for its techniques.  It does not depend on
    anything else: not on the order of the readings, nor on how often they are repeated. -/
theorem label_describes (inputs : List Input) (r : Reading)
    (hfull : (sinceReset inputs ++ [r]).length % 20 = 0) :
    let found := techniques ((sinceReset inputs ++ [r]).rtake 20)
    ∃ status, answer inputs r = some status ∧ Describes found status.label ∧
      ∀ inputs' r' status', answer inputs' r' = some status' →
        techniques ((sinceReset inputs' ++ [r']).rtake 20) = found → status'.label = status.label := by
  intro found
  have hlabel := Window.describes_status ((sinceReset inputs ++ [r]).rtake 20)
  refine ⟨_, answer_of_full hfull, hlabel, fun inputs' r' status' hstatus' hsame => ?_⟩
  by_cases hfull' : (sinceReset inputs' ++ [r']).length % 20 = 0
  · rw [answer_of_full hfull', Option.some.injEq] at hstatus'
    rw [← hstatus']
    exact (hsame ▸ Window.describes_status _).unique hlabel
  · rw [answer_of_partial hfull'] at hstatus'
    cases hstatus'

/-- Two techniques, one of them twice, beside labels that are not shown. -/
def mixedReadings : List Reading :=
  ["PWM", "FM", "D418", "NONE", "", "PWM"].map fun label => ⟨6000.0, label⟩

/-- A window that ends with them, after a reset in the middle of another one. -/
def mixedInputs : List Input :=
  [.reading ⟨8000.0, "D418"⟩, .reset] ++
    (List.replicate 13 (⟨0.0, "PDM"⟩ : Reading) ++ mixedReadings).map .reading

theorem label_describes_mixed :
    let last : Reading := ⟨-1.0, "PDM"⟩
    let found := techniques ((sinceReset mixedInputs ++ [last]).rtake 20)
    (sinceReset mixedInputs ++ [last]).length % 20 = 0 ∧
      ∃ status, answer mixedInputs last = some status ∧ status.label = "FM&PWM" ∧
        Describes found status.label := by
  intro last found
  have hfull : (sinceReset mixedInputs ++ [last]).length % 20 = 0 := by decide
  obtain ⟨status, hstatus, hdescribes, -⟩ := label_describes mixedInputs last hfull
  have hlabel : (answer mixedInputs last).map (·.label) = some "FM&PWM" := by decide +kernel
  rw [hstatus] at hlabel
  exact ⟨hfull, status, hstatus, Option.some.inj hlabel, hdescribes⟩

end SidPlayback.Digi
