import ReviewAgent.Agents.FindingOrder
import ReviewAgent.Orchestrator.Responses

/-! Whether the review shows that a specialist failed. -/
namespace ReviewAgent

open Effects
open Json (points)

/-- The finding says what the fallback says, at the same place. -/
structure Finding.StandsFor (f fallback : Finding) : Prop where
  agentType : f.agentType = fallback.agentType
  severity : f.severity = fallback.severity
  category : f.category = fallback.category
  filePath : f.filePath = fallback.filePath
  lineStart : f.lineStart = fallback.lineStart
  confidence : f.confidence.value = fallback.confidence.value
  rationale : f.rationale = fallback.rationale

/-- Findings that stand for each other are those that tie. -/
theorem Finding.standsFor_iff {f fallback : Finding} : f.StandsFor fallback ↔
    dedupeKey f = dedupeKey fallback ∧ findingRank f = findingRank fallback := by
  simp only [findingRank_eq_iff, dedupeKey, EmbeddingLike.apply_eq_iff_eq, Prod.mk.injEq]
  constructor
  · rintro ⟨hagent, hseverity, hcategory, hpath, hline, hconfidence, hrationale⟩
    exact ⟨⟨hpath, hline⟩, hseverity, hconfidence, hagent, hcategory, hrationale⟩
  · rintro ⟨⟨hpath, hline⟩, hseverity, hconfidence, hagent, hcategory, hrationale⟩
    exact ⟨hagent, hseverity, hcategory, hpath, hline, hconfidence, hrationale⟩

/-- A specialist fails, and contributes a fallback in place of findings: its response cannot be
parsed, or its analysis did not happen. -/
inductive FallsBack (setup : AgentSetup) (answers : RunAnswers) (threadId : String)
    (initialState : GraphState) (agentType : AgentType) (fallback : Finding) : Prop
  | unparseable {response e}
      (hresponds : Responds setup (answers.at (.specialist agentType)) agentType
        ((WorkflowEngine.startState answers threadId initialState).diff.getD "") (some threadId)
        response)
      (hparse : parseFindingsFromLlmResponse setup.py setup.modelValidate (points response.text)
        agentType = .error e)
      (hclass : e.isInstance .responseParseError = true)
      (hfallback : parseFailureFallbackFinding agentType e = .ok fallback)
  | unavailable {e}
      (hraises : setup.engine.analysis answers threadId initialState agentType = .error e)
      (hinfra : e.isInstanceOfAny infrastructureFailureExceptions = true)
      (hfallback : infrastructureFailureFallbackFinding agentType e = .ok fallback)

section

variable {setup : AgentSetup} {answers : RunAnswers} {threadId : String}
  {initialState final : GraphState} {agentType : AgentType} {fallback : Finding} {review : Review}

/-- Every fallback is critical, and carries the type of its own agent. -/
theorem FallsBack.marks (h : FallsBack setup answers threadId initialState agentType fallback) :
    fallback.agentType = agentType ∧ fallback.severity = .critical := by
  cases h with
  | unparseable _ _ _ hfallback =>
    obtain ⟨hagent, hseverity, -⟩ := Finding.validate_fields hfallback
    exact ⟨hagent, hseverity⟩
  | unavailable _ _ hfallback =>
    obtain ⟨hagent, hseverity, -⟩ := Finding.validate_fields hfallback
    exact ⟨hagent, hseverity⟩

/-- A node that returns returns what its analysis gives. -/
theorem WorkflowEngine.branchOutcome_ok {engine : WorkflowEngine} {update : NodeUpdate}
    (h : engine.branchOutcome answers threadId (startState answers threadId initialState)
      agentType = .ok update) :
    specialistUpdate agentType (engine.analysis answers threadId initialState agentType) =
      .ok update := by
  obtain ⟨analysed, hanalysed, h⟩ := Program.outcome_bind_ok (tracedSpan_ok h)
  rw [Program.outcome_attempt] at hanalysed
  obtain rfl := Except.ok.inj hanalysed
  exact h

/-- What a run merges was there before, or one of its specialists found it. -/
theorem WorkflowEngine.merged_cases {engine : WorkflowEngine} {updates : List NodeUpdate}
    (hupdates : engine.runUpdates answers threadId initialState = .ok updates) {finding : Finding}
    (h : finding ∈ ((startState answers threadId initialState).reduceAll updates).findings) :
    finding ∈ (startState answers threadId initialState).findings ∨
      ∃ agentType update, engine.branchOutcome answers threadId
        (startState answers threadId initialState) agentType = .ok update ∧
        finding ∈ update.findings := by
  rw [GraphState.reduceAll_findings] at h
  rcases List.mem_append.mp h with h | h
  · exact Or.inl h
  · obtain ⟨update, hupdate, hfinding⟩ := List.mem_flatMap.mp h
    have hmem : Except.ok update ∈ updates.map (Except.ok (ε := Exc)) := List.mem_map_of_mem hupdate
    rw [← runUpdates_ok.mp hupdates] at hmem
    obtain ⟨agentType, -, hbranch⟩ := List.mem_map.mp hmem
    exact Or.inr ⟨agentType, update, hbranch, hfinding⟩

/-- A node returns the fallback of its specialist. -/
theorem FallsBack.update (h : FallsBack setup answers threadId initialState agentType fallback)
    (hthread : threadId ≠ "") : ∃ errors, specialistUpdate agentType
      (setup.engine.analysis answers threadId initialState agentType) =
        .ok ⟨[fallback], errors⟩ := by
  cases h with
  | unparseable hresponds hparse hclass hfallback =>
    have hanalysis : setup.engine.analysis answers threadId initialState agentType =
        .ok [fallback] := by
      rw [WorkflowEngine.analysis, runSpecialist, if_neg hthread]
      refine (outcome_of_responds hresponds).trans ?_
      rw [findingsOrFallback, hparse]
      simp only [hclass, if_true, hfallback]
      rfl
    rw [hanalysis]
    exact ⟨_, rfl⟩
  | unavailable hraises hinfra hfallback =>
    rw [hraises, specialistUpdate, if_neg (by simp [not_agentExecutionError hinfra]), if_pos hinfra,
      hfallback]
    exact ⟨_, rfl⟩

/-- Without a thread id no run ends. -/
theorem threadId_of_run {engine : WorkflowEngine}
    (hrun : (engine.run threadId initialState).outcome answers = .ok final) : threadId ≠ "" := by
  rintro rfl
  obtain ⟨updates, made, hupdates, -, -⟩ := WorkflowEngine.run_ok hrun
  obtain ⟨update, hbranch⟩ := WorkflowEngine.exists_runUpdates.mp ⟨updates, hupdates⟩ .security
  have hraises : engine.analysis answers "" initialState .security =
      .error (.plain .valueError "stub node invoked without a configurable.thread_id") := rfl
  have hupdate := WorkflowEngine.branchOutcome_ok hbranch
  rw [hraises, specialistUpdate_unhandled rfl rfl] at hupdate
  cases hupdate

/-- In a run that ends, a specialist that failed has contributed its fallback. -/
theorem FallsBack.merged (h : FallsBack setup answers threadId initialState agentType fallback)
    (hrun : (setup.engine.run threadId initialState).outcome answers = .ok final) :
    fallback ∈ final.findings := by
  obtain ⟨errors, hfallback⟩ := h.update (threadId_of_run hrun)
  obtain ⟨updates, made, hupdates, -, rfl⟩ := WorkflowEngine.run_ok hrun
  obtain ⟨update, hbranch⟩ := WorkflowEngine.exists_runUpdates.mp ⟨updates, hupdates⟩ agentType
  apply WorkflowEngine.findings_merged hupdates hbranch
  obtain rfl := Except.ok.inj ((WorkflowEngine.branchOutcome_ok hbranch).symm.trans hfallback)
  exact List.mem_singleton_self fallback

/-- A specialist that failed is represented in the review by its fallback exactly if nothing that
the run merged at the fallback's place is better. -/
theorem failed_specialist_represented_iff
    (hrun : (setup.engine.run threadId initialState).outcome answers = .ok final)
    (hreview : final.review = some review)
    (hfails : FallsBack setup answers threadId initialState agentType fallback) :
    (∃ f ∈ review.findings, f.agentType = agentType ∧ f.severity = .critical ∧
        f.StandsFor fallback) ↔
      ∀ g ∈ final.findings, dedupeKey g = dedupeKey fallback → isBetter g fallback = false := by
  have hmerged := hfails.merged hrun
  have hfindings : review.findings = dedupeFindings final.findings := by
    obtain ⟨updates, made, -, hmade, rfl⟩ := WorkflowEngine.run_ok hrun
    obtain rfl := Option.some.inj hreview
    exact reviewOf_findings (aggregateNode_made hmade)
  rw [hfindings]
  constructor
  · rintro ⟨f, hf, -, -, hstands⟩ g hg hkey
    obtain ⟨hplace, hrank⟩ := Finding.standsFor_iff.mp hstands
    have hle := (BestPerKey.mem_survivors isBetter_iff hf).2 g hg (hkey.trans hplace.symm)
    rw [Bool.eq_false_iff, Ne, isBetter_iff, ← hrank]
    exact not_lt.mpr hle
  · intro hbest
    obtain ⟨f, hf, hkey⟩ : ∃ f ∈ dedupeFindings final.findings, dedupeKey f = dedupeKey fallback :=
      BestPerKey.exists_survivor isBetter_iff hmerged
    obtain ⟨hmem, hoptimal⟩ := BestPerKey.mem_survivors isBetter_iff hf
    have hworse := hbest f hmem hkey
    rw [Bool.eq_false_iff, Ne, isBetter_iff, not_lt] at hworse
    have hstands : f.StandsFor fallback := Finding.standsFor_iff.mpr
      ⟨hkey, le_antisymm (hoptimal fallback hmerged hkey.symm) hworse⟩
    exact ⟨f, hf, hstands.agentType.trans hfails.marks.1, hstands.severity.trans hfails.marks.2,
      hstands⟩

end

def silenceError : Exc :=
  responseParseError "no JSON object or array found in the LLM response"

/-- A specialist that answers nothing falls back. -/
theorem silence_fallsBack (agentType : AgentType) : ∃ fallback,
    parseFailureFallbackFinding agentType silenceError = .ok fallback ∧
      FallsBack AgentSetup.asIs (RunAnswers.answering "") "run" .sample agentType fallback := by
  obtain ⟨response, htext, hresponds⟩ := responds_answering "" agentType
  have hparse : parseFindingsFromLlmResponse AgentSetup.asIs.py AgentSetup.asIs.modelValidate
      (points response.text) agentType = .error silenceError := by
    have hnone : extractJsonPayload AgentSetup.asIs.py (points "") = .ok none :=
      extractJsonPayload_of_none (payloadOf_nil _)
    rw [htext]
    simp only [parseFindingsFromLlmResponse, hnone]
    rfl
  obtain ⟨fallback, -, hfallback⟩ := parseFailureFallbackFinding_ok agentType (e := silenceError)
    (by decide)
  exact ⟨fallback, hfallback, .unparseable hresponds hparse rfl hfallback⟩

/-- A run in which no specialist says anything merges their fallbacks, and nothing else. -/
theorem silent_run : ∃ (final : GraphState) (review : Review) (fallbacks : AgentType → Finding),
    (AgentSetup.asIs.engine.run "run" .sample).outcome (RunAnswers.answering "") = .ok final ∧
    final.review = some review ∧ review.findings = dedupeFindings final.findings ∧
    (∀ agentType, parseFailureFallbackFinding agentType silenceError = .ok (fallbacks agentType) ∧
      FallsBack AgentSetup.asIs (RunAnswers.answering "") "run" .sample agentType
        (fallbacks agentType)) ∧
    ∀ f ∈ final.findings, ∃ agentType, f = fallbacks agentType := by
  choose fallbacks hfallbacks hfails using silence_fallsBack
  have hwrites : ∀ node, WritesSwallowed ((RunAnswers.answering "").at node) := by
    intro node event e h
    cases h
  have hupserts : UpsertsSwallowed ((RunAnswers.answering "").at .aggregate) := by
    intro review reason e h
    cases h
  have hbranch : ∀ agentType, ∃ errors, AgentSetup.asIs.engine.branchOutcome
      (RunAnswers.answering "") "run" (WorkflowEngine.startState (RunAnswers.answering "") "run"
        .sample) agentType = .ok ⟨[fallbacks agentType], errors⟩ := by
    intro agentType
    obtain ⟨errors, hupdate⟩ := (hfails agentType).update (by decide)
    exact ⟨errors, (WorkflowEngine.branchOutcome_eq (hwrites _) (by decide)).trans hupdate⟩
  obtain ⟨updates, hupdates⟩ := WorkflowEngine.exists_runUpdates.mpr fun agentType =>
    ⟨_, (hbranch agentType).choose_spec⟩
  obtain ⟨final, review, confidence, hrun, hreview, -⟩ :=
    WorkflowEngine.run_ends (hwrites _) hupserts GraphState.sample_reviewable hupdates
  obtain ⟨updates', made, hupdates', hmade, rfl⟩ := WorkflowEngine.run_ok hrun
  obtain rfl := Option.some.inj hreview
  refine ⟨_, _, fallbacks, hrun, rfl, reviewOf_findings (aggregateNode_made hmade),
    fun agentType => ⟨hfallbacks agentType, hfails agentType⟩, fun f hf => ?_⟩
  rcases WorkflowEngine.merged_cases hupdates' hf with hstart | ⟨agentType, update, hended, hf⟩
  · cases hstart
  · obtain ⟨errors, hfallback⟩ := hbranch agentType
    obtain rfl := Except.ok.inj (hended.symm.trans hfallback)
    exact ⟨agentType, List.mem_singleton.mp hf⟩

/-- No specialist says anything: their fallbacks share one place, and the review has one of them. -/
theorem fallbacks_collide : ¬ ∀ (setup : AgentSetup) (answers : RunAnswers) (threadId : String)
    (initialState final : GraphState) (review : Review) (agentType : AgentType) (fallback : Finding),
    (setup.engine.run threadId initialState).outcome answers = .ok final →
    final.review = some review →
    FallsBack setup answers threadId initialState agentType fallback →
    ∃ f ∈ review.findings, f.agentType = agentType ∧ f.severity = .critical ∧
      f.StandsFor fallback := by
  intro h
  obtain ⟨final, review, fallbacks, hrun, hreview, hfindings, hfallbacks, -⟩ := silent_run
  have hplace : ∀ agentType, dedupeKey (fallbacks agentType) =
      toLex ("<llm-response-unparseable>", 1) := by
    intro agentType
    obtain ⟨-, -, -, hpath, hline, -⟩ := Finding.validate_fields (hfallbacks agentType).1
    rw [dedupeKey, hpath, hline]
    rfl
  obtain ⟨f, hf, hsecurity, -, hfs⟩ := h _ _ _ _ _ _ _ _ hrun hreview (hfallbacks .security).2
  obtain ⟨g, hg, hquality, -, hgs⟩ := h _ _ _ _ _ _ _ _ hrun hreview (hfallbacks .quality).2
  have hkey : dedupeKey g = dedupeKey f := by
    rw [(Finding.standsFor_iff.mp hfs).1, (Finding.standsFor_iff.mp hgs).1, hplace, hplace]
  rw [hfindings] at hf hg
  have hsame : g = f := BestPerKey.survivor_unique isBetter_iff hg hf hkey
  rw [hsame, hsecurity] at hquality
  cases hquality

theorem failed_specialist_represented_iff_security : ∃ final review fallback,
    (AgentSetup.asIs.engine.run "run" .sample).outcome (RunAnswers.answering "") = .ok final ∧
    final.review = some review ∧ ∃ f ∈ review.findings, f.agentType = .security ∧
      f.severity = .critical ∧ f.StandsFor fallback := by
  obtain ⟨final, review, fallbacks, hrun, hreview, -, hfallbacks, hmerged⟩ := silent_run
  refine ⟨final, review, fallbacks .security, hrun, hreview,
    (failed_specialist_represented_iff hrun hreview (hfallbacks .security).2).mpr ?_⟩
  intro g hg _
  obtain ⟨agentType, rfl⟩ := hmerged g hg
  obtain ⟨hagent, hseverity, -, -, -, hconfidence, -⟩ :=
    Finding.validate_fields (hfallbacks agentType).1
  obtain ⟨hagent', hseverity', -, -, -, hconfidence', -⟩ :=
    Finding.validate_fields (hfallbacks .security).1
  by_cases hself : agentType = .security
  · subst hself
    rw [Bool.eq_false_iff, Ne, isBetter_iff]
    exact lt_irrefl _
  · have hlast : agentRank (fallbacks agentType) ≠ 0 := by
      rw [agentRank, hagent]
      revert hself
      cases agentType <;> decide
    have hfirst : agentRank (fallbacks .security) = 0 := by
      rw [agentRank, hagent']
      rfl
    simp [isBetter, hseverity, hseverity', hconfidence, hconfidence', tieBreakKey,
      Prod.Lex.toLex_lt_toLex, hfirst, hlast]

end ReviewAgent
