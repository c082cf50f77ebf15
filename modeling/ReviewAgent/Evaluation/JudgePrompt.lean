import ReviewAgent.Agents.DumpedFindings
import ReviewAgent.Evaluation.GoldenDataset
import ReviewAgent.Models.Review

/-! What the judge is told of a case and of a review, and which reviews look the same to it. -/
namespace ReviewAgent

open Json (Dumpable DumpableItems DumpableMembers Layout Limits Text Value points)

/-- One entry of `_findings_summary`. -/
def Finding.summary (finding : Finding) : Value :=
  .object
    [(points "agent_type", jsonString finding.agentType.value),
      (points "severity", jsonString finding.severity.value),
      (points "category", jsonString finding.category),
      (points "file_path", jsonString finding.filePath),
      (points "confidence", jsonString finding.confidence.str),
      (points "rationale", jsonString finding.rationale)]

/-- `json.dumps(value, indent=2)`. -/
def indented (value : Value) : Text := Json.dumps ⟨some 2⟩ value

/-- `_findings_summary`. -/
def findingsSummary (review : Review) : Text :=
  indented (.array (review.findings.map Finding.summary))

/-- An expected finding, as the prompt has it. -/
def ExpectedFinding.summary (expected : ExpectedFinding) : Value :=
  .object
    [(points "category", jsonString expected.category),
      (points "severity", jsonString expected.severity.value),
      (points "file_path", jsonString expected.filePath),
      (points "must_detect", .bool expected.mustDetect),
      (points "notes", jsonString expected.notes)]

/-- `build_judge_prompt`. -/
def buildJudgePrompt (case : GoldenCase) (review : Review) : Text :=
  let expectedClean := if case.expectedClean then "True" else "False"
  points s!"CASE ID: {case.caseId}\n" ++ points s!"DESCRIPTION: {case.description}\n" ++
    points s!"EXPECTED_CLEAN: {expectedClean}\n\n" ++
    (points "DIFF:\n" ++ case.diffText ++ points "\n\n") ++
    (points "EXPECTED FINDINGS (JSON):\n" ++
      indented (.array (case.expectedFindings.map ExpectedFinding.summary)) ++ points "\n\n") ++
    (points "CANDIDATE REVIEW FINDINGS (JSON):\n" ++ findingsSummary review ++ points "\n")

/-- A finding without its line numbers. -/
structure JudgedFinding where
  agentType : AgentType
  severity : Severity
  category : String
  filePath : String
  confidence : Confidence
  rationale : String
  deriving DecidableEq

def Finding.judged (finding : Finding) : JudgedFinding where
  agentType := finding.agentType
  severity := finding.severity
  category := finding.category
  filePath := finding.filePath
  confidence := finding.confidence
  rationale := finding.rationale

section

variable {finding finding' : Finding} {review review' : Review}

theorem agentType_value_injective : Function.Injective AgentType.value := by
  intro a b h
  cases a <;> cases b <;> simp [AgentType.value] at h ⊢

theorem severity_value_injective : Function.Injective Severity.value := by
  intro a b h
  cases a <;> cases b <;> simp [Severity.value] at h ⊢

theorem confidence_str_injective : Function.Injective Confidence.str := by
  intro c d h
  have hread := congrArg Confidence.ofStr h
  rw [Confidence.ofStr_str, Confidence.ofStr_str] at hread
  exact Option.some.inj hread

theorem jsonString_injective : Function.Injective jsonString :=
  fun _ _ h => points_injective (Value.str.inj h)

/-- A summary tells all of a finding but its lines. -/
theorem summary_eq_iff : finding.summary = finding'.summary ↔ finding.judged = finding'.judged := by
  simp only [Finding.summary, Finding.judged, Value.object.injEq, List.cons.injEq, Prod.mk.injEq,
    true_and, and_true, jsonString_injective.eq_iff, agentType_value_injective.eq_iff,
    severity_value_injective.eq_iff, confidence_str_injective.eq_iff, JudgedFinding.mk.injEq]

/-- Room for what the prompt has: no numbers, and objects in a list. -/
def summaryLimits : Limits := ⟨2, 0⟩

theorem loads_indented {items : List Value} (hdumpable : ∀ item ∈ items, Dumpable summaryLimits item)
    (hnesting : ∀ item ∈ items, Json.nesting item ≤ 1) :
    Json.loads summaryLimits (indented (.array items)) = .ok (.array items) :=
  Json.loads_dumps ⟨some 2⟩ (dumpableItems_of_forall hdumpable)
    (Nat.succ_le_succ (nestingOfItems_le hnesting))

theorem dumpable_summary (finding : Finding) : Dumpable summaryLimits finding.summary := by
  simp only [Finding.summary, jsonString, Dumpable, DumpableMembers, separable_points, true_and]

/-- The summary of a review is read back. -/
theorem loads_findingsSummary (review : Review) :
    Json.loads summaryLimits (findingsSummary review) =
      .ok (.array (review.findings.map Finding.summary)) := by
  refine loads_indented (fun item hitem => ?_) fun item hitem => ?_
  · obtain ⟨finding, -, rfl⟩ := List.mem_map.mp hitem
    exact dumpable_summary finding
  · obtain ⟨finding, -, rfl⟩ := List.mem_map.mp hitem
    exact Nat.le_refl 1

theorem findingsSummary_eq_iff : findingsSummary review = findingsSummary review' ↔
    review.findings.map Finding.judged = review'.findings.map Finding.judged := by
  have hitems : review.findings.map Finding.summary = review'.findings.map Finding.summary ↔
      review.findings.map Finding.judged = review'.findings.map Finding.judged := by
    simp only [← List.forall₂_eq_eq_eq, List.forall₂_map_left_iff, List.forall₂_map_right_iff,
      summary_eq_iff]
  rw [← hitems]
  constructor
  · intro h
    have hread := loads_findingsSummary review
    rw [h, loads_findingsSummary] at hread
    exact (Value.array.inj (Except.ok.inj hread)).symm
  · intro h
    rw [findingsSummary, findingsSummary, h]

/-- Of two reviews of a case the judge is told the same exactly if they have the same findings in
the same order, whatever their lines. -/
theorem judge_prompt_eq_iff (case : GoldenCase) (review review' : Review) :
    buildJudgePrompt case review = buildJudgePrompt case review' ↔
      review.findings.map Finding.judged = review'.findings.map Finding.judged := by
  rw [← findingsSummary_eq_iff, buildJudgePrompt, buildJudgePrompt, List.append_cancel_left_eq,
    List.append_cancel_right_eq, List.append_cancel_left_eq]

end

end ReviewAgent
