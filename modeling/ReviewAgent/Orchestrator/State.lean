import ReviewAgent.Models.Review

/-! The state of one graph run, and how updates are merged into it. -/
namespace ReviewAgent

/-- A `dict[str, str]`. -/
abbrev NodeErrors : Type := String → Option String

/-- `_merge_dicts`: the right one wins. -/
def mergeDicts (left right : NodeErrors) : NodeErrors := fun name => right name <|> left name

structure GraphState where
  reviewId : String
  prNumber : ℕ
  repositoryOwner : String
  repositoryName : String
  headSha : String
  findings : List Finding
  nodeErrors : NodeErrors
  review : Option Review := none
  routingReason : Option String := none
  diff : Option String := none

/-- What a specialist node returns. -/
structure NodeUpdate where
  findings : List Finding
  nodeErrors : NodeErrors

namespace GraphState

/-- The reducers of `findings` and `node_errors`. -/
def reduce (state : GraphState) (update : NodeUpdate) : GraphState :=
  { state with
    findings := state.findings ++ update.findings
    nodeErrors := mergeDicts state.nodeErrors update.nodeErrors }

/-- The input of an invocation over what is persisted of its thread: a channel without a reducer
takes the input's value, if there is one. -/
def mergeInput (persisted : Option GraphState) (input : GraphState) : GraphState :=
  match persisted with
  | none => input
  | some old =>
    { input with
      findings := old.findings ++ input.findings
      nodeErrors := mergeDicts old.nodeErrors input.nodeErrors
      review := input.review <|> old.review
      routingReason := input.routingReason <|> old.routingReason
      diff := input.diff <|> old.diff }

/-- The state after updates, in the order in which they are merged. -/
def reduceAll (state : GraphState) (updates : List NodeUpdate) : GraphState :=
  updates.foldl reduce state

/-- What a state is about; no node changes it. -/
def subject (state : GraphState) : String × ℕ × String × String × String :=
  (state.reviewId, state.prNumber, state.repositoryOwner, state.repositoryName, state.headSha)

variable {state : GraphState} {updates : List NodeUpdate}

theorem reduceAll_findings :
    (state.reduceAll updates).findings = state.findings ++ updates.flatMap (·.findings) := by
  induction updates generalizing state with
  | nil => simp [reduceAll]
  | cons update updates ih => simpa [reduceAll, reduce] using @ih (state.reduce update)

theorem reduceAll_nodeErrors : (state.reduceAll updates).nodeErrors =
    mergeDicts state.nodeErrors (updates.foldl (fun errors update =>
      mergeDicts errors update.nodeErrors) fun _ => none) := by
  induction updates using List.reverseRecOn with
  | nil => rfl
  | append_singleton updates update ih =>
    have hlast : (state.reduceAll (updates ++ [update])).nodeErrors =
        mergeDicts (state.reduceAll updates).nodeErrors update.nodeErrors := by
      rw [reduceAll, List.foldl_append]
      rfl
    rw [hlast, ih, List.foldl_append]
    funext name
    simp only [List.foldl_cons, List.foldl_nil, mergeDicts]
    cases update.nodeErrors name <;> rfl

/-- Merging updates changes the two accumulating channels only. -/
theorem reduceAll_eq : state.reduceAll updates =
    { state with
      findings := (state.reduceAll updates).findings
      nodeErrors := (state.reduceAll updates).nodeErrors } := by
  induction updates generalizing state with
  | nil => rfl
  | cons update updates ih => exact @ih (state.reduce update)

theorem subject_reduceAll : (state.reduceAll updates).subject = state.subject := by
  rw [reduceAll_eq]
  rfl

/-- A run is about what its input is about. -/
theorem subject_mergeInput (persisted : Option GraphState) :
    (mergeInput persisted state).subject = state.subject := by
  cases persisted <;> rfl

end GraphState

end ReviewAgent
