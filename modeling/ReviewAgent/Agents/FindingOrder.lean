import ReviewAgent.Agents.Contracts

/-! The orders of findings: `Finding.__lt__` and `_is_better`. -/
namespace ReviewAgent

variable {a b c : Finding}

/-- `Finding.__lt__`, of another finding. -/
def Finding.lt (self other : Finding) : Bool :=
  if self.severity ≠ other.severity then decide (self.severity.rank < other.severity.rank)
  else decide (self.confidence.value > other.confidence.value)

/-- Neither finding replaces the other. -/
def Incomparable (a b : Finding) : Prop := isBetter a b = false ∧ isBetter b a = false

theorem agentRank_injective {f g : Finding} (h : agentRank f = agentRank g) :
    f.agentType = g.agentType := by
  unfold agentRank at h
  revert h
  generalize f.agentType = a
  generalize g.agentType = b
  cases a <;> cases b <;> decide

theorem findingRank_eq_iff : findingRank a = findingRank b ↔
    a.severity = b.severity ∧ a.confidence.value = b.confidence.value ∧
      a.agentType = b.agentType ∧ a.category = b.category ∧ a.rationale = b.rationale := by
  simp only [findingRank, severityRank, tieBreakKey, EmbeddingLike.apply_eq_iff_eq, Prod.mk.injEq]
  constructor
  · rintro ⟨hseverity, hconfidence, hagent, hcategory, hrationale⟩
    exact ⟨Severity.rank_injective hseverity, hconfidence, agentRank_injective hagent, hcategory,
      hrationale⟩
  · rintro ⟨hseverity, hconfidence, hagent, hcategory, hrationale⟩
    exact ⟨congrArg _ hseverity, hconfidence, by rw [agentRank, agentRank, hagent], hcategory,
      hrationale⟩

theorem isBetter_eq_false_iff : isBetter a b = false ↔ findingRank b ≤ findingRank a := by
  rw [Bool.eq_false_iff, ne_eq, isBetter_iff, not_lt]

theorem incomparable_iff : Incomparable a b ↔ findingRank a = findingRank b := by
  rw [Incomparable, isBetter_eq_false_iff, isBetter_eq_false_iff, and_comm, le_antisymm_iff]

theorem Finding.lt_iff : a.lt b = true ↔ severityRank a < severityRank b ∨
    severityRank a = severityRank b ∧ b.confidence.value < a.confidence.value := by
  unfold Finding.lt severityRank
  by_cases h : a.severity = b.severity
  · simp [h]
  · have hne : a.severity.rank ≠ b.severity.rank := fun he => h (Severity.rank_injective he)
    simp [h, hne]

theorem findingRank_lt_of_lt (h : a.lt b = true) : findingRank a < findingRank b := by
  rw [findingRank, findingRank, Prod.Lex.toLex_lt_toLex, Prod.Lex.toLex_lt_toLex]
  obtain hseverity | ⟨hseverity, hconfidence⟩ := Finding.lt_iff.mp h
  · exact Or.inl hseverity
  · exact Or.inr ⟨hseverity, Or.inl hconfidence⟩

/-- Replacing orders the findings weakly and refines their own order; it leaves tied just the
findings that say the same, whatever their place. -/
theorem isBetter_strict_weak_order (a b c : Finding) :
    isBetter a a = false ∧
      (isBetter a b = true → isBetter b a = false) ∧
      (isBetter a b = true → isBetter b c = true → isBetter a c = true) ∧
      (Incomparable a b → Incomparable b c → Incomparable a c) ∧
      (Incomparable a b ↔ a.severity = b.severity ∧ a.confidence.value = b.confidence.value ∧
        a.agentType = b.agentType ∧ a.category = b.category ∧ a.rationale = b.rationale) ∧
      (a.lt b = true → isBetter a b = true) := by
  simp only [isBetter_eq_false_iff, isBetter_iff, incomparable_iff]
  refine ⟨le_rfl, le_of_lt, lt_trans, Eq.trans, findingRank_eq_iff, findingRank_lt_of_lt⟩

end ReviewAgent
