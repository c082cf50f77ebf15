import ReviewAgent.Agents.BaseAgent
import ReviewAgent.GreedyFit

/-! The retrieved context keeps to its budget: whole chunks, as many as fit in their order. -/
namespace ReviewAgent

open GreedyFit (choices chosen load)

/-- What the block of a chunk takes of the budget. -/
def blockLength (chunk : RetrievedChunk) : ℕ := (contextBlock chunk).length

section

variable {chunks : List RetrievedChunk} {maxChars : ℤ} {used : ℕ}

theorem fittingBlocks_eq : fittingBlocks maxChars used chunks =
    (chosen (choices blockLength maxChars used chunks)).map contextBlock := by
  induction chunks generalizing used with
  | nil => rfl
  | cons chunk chunks ih =>
    unfold fittingBlocks choices
    by_cases hfits : maxChars < used + blockLength chunk
    · rw [if_pos hfits]
      exact (if_pos hfits).trans ih
    · rw [if_neg hfits]
      exact (if_neg hfits).trans (congrArg _ ih)

theorem length_join (blocks : List String) :
    (String.join blocks).length = (blocks.map String.length).sum := by
  induction blocks with
  | nil => rfl
  | cons block blocks ih =>
    rw [String.join_cons, String.length_append, ih, List.map_cons, List.sum_cons]

theorem contextHeader_ne_empty : contextHeader ≠ "" := by
  decide

theorem formatRetrievedContext_nil
    (h : chosen (choices blockLength maxChars contextHeader.length chunks) = []) :
    formatRetrievedContext chunks maxChars = "" := by
  unfold formatRetrievedContext
  rw [fittingBlocks_eq, h]
  rfl

theorem formatRetrievedContext_cons
    (h : chosen (choices blockLength maxChars contextHeader.length chunks) ≠ []) :
    formatRetrievedContext chunks maxChars = String.join (contextHeader ::
      (chosen (choices blockLength maxChars contextHeader.length chunks)).map contextBlock) := by
  unfold formatRetrievedContext
  rw [fittingBlocks_eq]
  split
  · rename_i hnil
    exact absurd (List.map_eq_nil_iff.mp hnil) h
  · rfl

theorem formatRetrievedContext_eq_empty_iff : formatRetrievedContext chunks maxChars = "" ↔
    chosen (choices blockLength maxChars contextHeader.length chunks) = [] := by
  constructor
  · intro hempty
    by_contra h
    rw [formatRetrievedContext_cons h, String.join_cons] at hempty
    have hlength := congrArg String.length hempty
    rw [String.length_append] at hlength
    exact contextHeader_ne_empty (String.length_eq_zero_iff.mp (by
      rw [String.length_empty] at hlength
      omega))
  · exact formatRetrievedContext_nil

end

/-- The context of a list of chunks: each is marked as chosen or not; what is chosen is rendered
whole under the header, and fits; what is not chosen did not fit any more; and nothing is chosen
exactly if no chunk fits alone. -/
theorem retrieved_context_greedy (chunks : List RetrievedChunk) (maxChars : ℤ) :
    let context := formatRetrievedContext chunks maxChars
    ∃ picks : List (RetrievedChunk × Bool), picks.map Prod.fst = chunks ∧
      (chosen picks).Sublist chunks ∧
      (chosen picks = [] ∧ context = "" ∨ chosen picks ≠ [] ∧
        context = String.join (contextHeader :: (chosen picks).map contextBlock)) ∧
      (context.length : ℤ) ≤ max maxChars 0 ∧
      (∀ before chunk after, picks = before ++ (chunk, false) :: after →
        maxChars < contextHeader.length + load blockLength before + (contextBlock chunk).length) ∧
      (context = "" ↔
        ∀ chunk ∈ chunks, maxChars < contextHeader.length + (contextBlock chunk).length) := by
  intro context
  refine ⟨choices blockLength maxChars contextHeader.length chunks, GreedyFit.map_fst_choices,
    ?_, ?_, ?_, fun before chunk after h => (GreedyFit.choice_iff h).mp rfl, ?_⟩
  · have hsublist := @GreedyFit.chosen_sublist _
      (choices blockLength maxChars contextHeader.length chunks)
    rwa [GreedyFit.map_fst_choices] at hsublist
  · by_cases h : chosen (choices blockLength maxChars contextHeader.length chunks) = []
    · exact Or.inl ⟨h, formatRetrievedContext_nil h⟩
    · exact Or.inr ⟨h, formatRetrievedContext_cons h⟩
  · by_cases h : chosen (choices blockLength maxChars contextHeader.length chunks) = []
    · rw [show context = "" from formatRetrievedContext_nil h]
      exact le_max_right _ _
    · have hlength : context.length = contextHeader.length +
          load blockLength (choices blockLength maxChars contextHeader.length chunks) := by
        rw [show context = _ from formatRetrievedContext_cons h, length_join, List.map_cons,
          List.sum_cons, List.map_map]
        rfl
      have hfits := GreedyFit.load_le h
      rw [hlength]
      push_cast
      exact le_max_of_le_left hfits
  · exact formatRetrievedContext_eq_empty_iff.trans GreedyFit.chosen_eq_nil_iff

/-- With a negative budget even nothing is too long. -/
theorem negative_budget_exceeded :
    ¬ ((formatRetrievedContext [] (-1)).length : ℤ) ≤ -1 := by
  decide

end ReviewAgent
