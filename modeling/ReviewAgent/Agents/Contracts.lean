import Mathlib.Data.Prod.Lex
import Mathlib.Data.String.Basic
import ReviewAgent.BestPerKey
import ReviewAgent.Models.Findings

/-! Deduplication of findings. -/
namespace ReviewAgent

/-- `AGENT_PRECEDENCE`. -/
def agentPrecedence : List AgentType := [.security, .quality, .tests, .docs]

/-- `_agent_rank`. An unlisted agent ranks last. -/
def agentRank (f : Finding) : ℕ := agentPrecedence.idxOf f.agentType

/-- `_severity_rank`. -/
def severityRank (f : Finding) : ℕ := f.severity.rank

/-- `_tie_break_key`, compared lexicographically. -/
def tieBreakKey (f : Finding) : ℕ ×ₗ String ×ₗ String :=
  toLex (agentRank f, toLex (f.category, f.rationale))

/-- `_is_better`. -/
def isBetter (candidate current : Finding) : Bool :=
  if candidate.severity ≠ current.severity then
    decide (severityRank candidate < severityRank current)
  else if candidate.confidence.value ≠ current.confidence.value then
    decide (candidate.confidence.value > current.confidence.value)
  else decide (tieBreakKey candidate < tieBreakKey current)

/-- `(finding.file_path, finding.line_start)`. -/
def dedupeKey (f : Finding) : String ×ₗ ℕ := toLex (f.filePath, f.lineStart)

def dedupeFindings (findings : List Finding) : List Finding :=
  BestPerKey.survivors isBetter dedupeKey findings

/-- The one order `_is_better` compares by. -/
def findingRank (f : Finding) : ℕ ×ₗ ℚᵒᵈ ×ₗ ℕ ×ₗ String ×ₗ String :=
  toLex (severityRank f, toLex (OrderDual.toDual f.confidence.value, tieBreakKey f))

theorem isBetter_iff (a b : Finding) : isBetter a b = true ↔ findingRank a < findingRank b := by
  unfold isBetter findingRank
  rw [Prod.Lex.toLex_lt_toLex, Prod.Lex.toLex_lt_toLex]
  by_cases hs : a.severity = b.severity
  · by_cases hc : a.confidence.value = b.confidence.value
    · simp [hs, hc, severityRank]
    · simp [hs, hc, severityRank]
  · have hne : severityRank a ≠ severityRank b := fun h => hs (Severity.rank_injective h)
    simp [hs, hne]

theorem severity_of_findingRank {a b : Finding} (h : findingRank a ≤ findingRank b) :
    severityRank a ≤ severityRank b := by
  simp only [findingRank, Prod.Lex.toLex_le_toLex] at h
  omega

/-- A finding that no other at its place beats is critical when one at its place is. -/
theorem dedupeFindings_critical (findings : List Finding) :
    (∃ f ∈ dedupeFindings findings, f.severity = .critical) ↔
      ∃ f ∈ findings, f.severity = .critical := by
  constructor
  · rintro ⟨f, hf, hc⟩
    exact ⟨f, (BestPerKey.mem_survivors isBetter_iff hf).1, hc⟩
  · rintro ⟨f, hf, hc⟩
    obtain ⟨g, hg, hkey⟩ : ∃ g ∈ dedupeFindings findings, dedupeKey g = dedupeKey f :=
      BestPerKey.exists_survivor isBetter_iff hf
    have hle := severity_of_findingRank
      ((BestPerKey.mem_survivors isBetter_iff hg).2 f hf hkey.symm)
    refine ⟨g, hg, Severity.rank_injective ?_⟩
    simp only [severityRank, hc, Severity.rank] at hle ⊢
    omega

theorem length_dedupeFindings_le (findings : List Finding) :
    (dedupeFindings findings).length ≤ findings.length :=
  BestPerKey.length_survivors_le isBetter_iff

/-- The confidences that survive, in order, do not depend on the order of the findings. -/
theorem dedupeFindings_confidences_perm {findings findings' : List Finding}
    (hp : findings.Perm findings') :
    (dedupeFindings findings).map (fun f => f.confidence.value) =
      (dedupeFindings findings').map (fun f => f.confidence.value) := by
  have h : (dedupeFindings findings).map findingRank = (dedupeFindings findings').map findingRank :=
    BestPerKey.map_rank_survivors_perm isBetter_iff hp
  have hvalue : ∀ l : List Finding, l.map (fun f => f.confidence.value) =
      (l.map findingRank).map fun r => OrderDual.ofDual (ofLex (ofLex r).2).1 := by
    intro l
    simp [findingRank]
  rw [hvalue, hvalue, h]

theorem dedupeFindings_best_per_location (findings : List Finding) :
    (dedupeFindings findings).Pairwise (fun f g => dedupeKey f < dedupeKey g) ∧
      (∀ key, key ∈ (dedupeFindings findings).map dedupeKey ↔ key ∈ findings.map dedupeKey) ∧
      (∀ kept ∈ dedupeFindings findings, kept ∈ findings ∧
        ∀ f ∈ findings, dedupeKey f = dedupeKey kept → isBetter f kept = false) ∧
      (∀ more, dedupeFindings (dedupeFindings findings ++ more) =
        dedupeFindings (findings ++ more)) ∧
      dedupeFindings (dedupeFindings findings) = dedupeFindings findings := by
  have happend : ∀ more, dedupeFindings (dedupeFindings findings ++ more) =
      dedupeFindings (findings ++ more) :=
    fun _ => BestPerKey.survivors_append_survivors isBetter_iff
  refine ⟨BestPerKey.survivors_pairwise isBetter_iff,
    fun key => BestPerKey.mem_map_key_survivors isBetter_iff, ?_, happend, ?_⟩
  · intro kept hkept
    obtain ⟨hmem, hbest⟩ := BestPerKey.mem_survivors isBetter_iff hkept
    refine ⟨hmem, fun f hf hkey => ?_⟩
    rw [Bool.eq_false_iff, ne_eq, isBetter_iff, not_lt]
    exact hbest f hf hkey
  · simpa using happend []

end ReviewAgent
