import ReviewAgent.Observability.TraceRuns

/-! A review's trace ends with the aggregator's decision. -/
namespace ReviewAgent

open Effects

section

variable {α : Type} {r : α → α → Prop} [DecidableRel r]

theorem orderedInsert_append {a : α} {later : List α} (l : List α) (h : ∀ b ∈ later, r a b) :
    (l ++ later).orderedInsert r a = l.orderedInsert r a ++ later := by
  induction l with
  | nil =>
    cases later with
    | nil => rfl
    | cons b later => exact List.orderedInsert_cons_of_le r later (h b List.mem_cons_self)
  | cons c l ih =>
    by_cases hc : r a c
    · simp [hc]
    · simp [hc, ih]

/-- What comes after everything else, in order, stays where it is. -/
theorem insertionSort_append {l later : List α} (hlater : later.Pairwise r)
    (h : ∀ a ∈ l, ∀ b ∈ later, r a b) :
    (l ++ later).insertionSort r = l.insertionSort r ++ later := by
  induction l with
  | nil => exact hlater.insertionSort_eq
  | cons a l ih =>
    rw [List.cons_append, List.insertionSort_cons, List.insertionSort_cons,
      ih fun b hb => h b (List.mem_cons_of_mem _ hb), orderedInsert_append _ (h a List.mem_cons_self)]

omit [DecidableRel r] in
theorem pairwise_of_length_le_one {l : List α} (h : l.length ≤ 1) : l.Pairwise r := by
  cases l with
  | nil => exact List.Pairwise.nil
  | cons a l =>
    obtain rfl : l = [] := List.length_eq_zero_iff.mp (by simpa using h)
    exact List.pairwise_singleton r a

end

/-- No row of the review is from after now. -/
structure Punctual (reviewId : String) (z : Emissions) (w : TraceWorld) : Prop where
  stamp_le : z.stamp ≤ w.now
  rows : ∀ event ∈ w.rows, event.reviewId = reviewId → event.ts ≤ w.now

/-- A node's part before the aggregator starts. -/
def punctualRole (reviewId : String) (since : ℚ) (run : NodeRun) :
    Role OrchestratorSignature Exc (NodeUpdate ⊕ Review × String) TraceWorld Emissions where
  protocol := emission run
  start := { stamp := since }
  ends _ _ := True
  world := Punctual reviewId

/-- The rows of the review are those from before, and then what the aggregator stored since. -/
structure Concluding (run : NodeRun) (base : List AgentEvent) (since : ℚ) (z : Emissions)
    (w : TraceWorld) : Prop where
  since_le : since ≤ z.stamp
  stamp_le : z.stamp ≤ w.now
  word : ∃ word ∈ run.2.spans, z.types <+: word
  events : ∀ event ∈ z.events, since ≤ event.ts ∧ AttributedTo run event
  rows : ∃ stored, (w.rows.filter fun event => event.reviewId = run.1) = base ++ stored ∧
    stored.Sublist z.events

/-- A node's part from the aggregator's start on: the review's specialists have ended. -/
def concludingRole (reviewId : String) (base : List AgentEvent) (since : ℚ) (run : NodeRun) :
    Role OrchestratorSignature Exc (NodeUpdate ⊕ Review × String) TraceWorld Emissions where
  protocol :=
    { emission run with
      allows := fun z op => (run.1 = reviewId → run.2 = .aggregate) ∧ (emission run).allows z op }
  start := { stamp := since }
  ends _ _ := True
  world z w := run = (reviewId, .aggregate) → Concluding run base since z w

section

variable {reviewId : String} {run run' : NodeRun} {z z' : Emissions} {w w' : TraceWorld}
  {event : AgentEvent} {choice : TraceChoice} {since : ℚ} {base : List AgentEvent}

/-- What an operation does to the clock and the rows. -/
theorem tracing_perform {i : ℕ} {op : OrchestratorOp}
    {r : TraceWorld × OrchestratorSignature.Answer op}
    (hr : tracing.perform i w op choice = some r) : r.1.now = w.now ∧
      (r.1.rows = w.rows ∨ ∃ event, op = .insertEvent event ∧ r.1.rows = w.rows ++ [event]) := by
  cases op with
  | insertEvent event =>
    obtain rfl := Option.some.inj hr
    refine ⟨rfl, ?_⟩
    by_cases hstored : choice.stored = true
    · exact Or.inr ⟨event, rfl, if_pos hstored⟩
    · exact Or.inl (if_neg hstored)
  | _ =>
    obtain rfl := Option.some.inj hr
    exact ⟨rfl, Or.inl rfl⟩

theorem emission_stamp_le {op : OrchestratorOp} {i : ℕ}
    {r : TraceWorld × OrchestratorSignature.Answer op} (hle : z.stamp ≤ w.now)
    (hr : tracing.perform i w op choice = some r) :
    z.stamp ≤ ((emission run).next z op r.2).stamp ∧ ((emission run).next z op r.2).stamp ≤ w.now := by
  cases op with
  | now use =>
    obtain rfl := Option.some.inj hr
    exact ⟨hle, le_rfl⟩
  | _ => exact ⟨le_rfl, hle⟩

theorem tracing_move {seconds : ℚ} (hw : tracing.move w seconds = some w') :
    w'.rows = w.rows ∧ w.now ≤ w'.now := by
  change (if _ then _ else _) = _ at hw
  split at hw
  · obtain rfl := Option.some.inj hw
    exact ⟨rfl, by simpa⟩
  · cases hw

/-- Whoever's step it is, what it stores is stamped by now. -/
theorem Punctual.step {i : ℕ} {op : OrchestratorOp}
    {r : TraceWorld × OrchestratorSignature.Answer op} (h : Punctual reviewId z w)
    (hallows : (emission run).allows z op) (hr : tracing.perform i w op choice = some r) :
    ∀ event ∈ r.1.rows, event.reviewId = reviewId → event.ts ≤ r.1.now := by
  obtain ⟨hnow, hrows | ⟨event, rfl, hrows⟩⟩ := tracing_perform hr
  · rw [hrows, hnow]
    exact h.rows
  · rw [hrows, hnow]
    intro event' hmem hid
    rcases List.mem_append.mp hmem with hmem | hmem
    · exact h.rows event' hmem hid
    · obtain rfl := List.mem_singleton.mp hmem
      obtain ⟨-, hts, -⟩ := hallows event' rfl
      exact hts.trans_le h.stamp_le

theorem punctual_respects (W : NodeRun → Prop) :
    tracing.Respects (punctualRole reviewId since) W where
  own := by
    rintro run i z w op choice r - ⟨hle, hrows⟩ hallows hr
    have hnow := (tracing_perform hr).1
    exact ⟨hnow ▸ (emission_stamp_le hle hr).2, Punctual.step ⟨hle, hrows⟩ hallows hr⟩
  other := by
    rintro run run' i z z' w op choice r - - - ⟨hle, hrows⟩ hallows ⟨hle', -⟩ hr
    have hnow := (tracing_perform hr).1
    exact ⟨hnow ▸ hle', Punctual.step ⟨hle, hrows⟩ hallows hr⟩
  move := by
    rintro run z w seconds w' - ⟨hle, hrows⟩ hw
    obtain ⟨hsame, hlater⟩ := tracing_move hw
    exact ⟨hle.trans hlater, fun event hmem hid => (hrows event (hsame ▸ hmem) hid).trans hlater⟩

/-- The aggregator's own step: its decision, or nothing new. -/
theorem Concluding.own (h : Concluding run base since z w) {i : ℕ} {op : OrchestratorOp}
    {r : TraceWorld × OrchestratorSignature.Answer op} (hallows : (emission run).allows z op)
    (hr : tracing.perform i w op choice = some r) :
    Concluding run base since ((emission run).next z op r.2) r.1 := by
  have hnow := (tracing_perform hr).1
  obtain ⟨hafter, hbefore⟩ :=
    (emission_stamp_le h.stamp_le hr : z.stamp ≤ ((emission run).next z op r.2).stamp ∧ _)
  obtain ⟨stored, hrows, hsub⟩ := h.rows
  cases op with
  | insertEvent event =>
    obtain ⟨hattributed, hts, word, hword, hprefix⟩ := hallows event rfl
    refine ⟨h.since_le.trans hafter, hnow ▸ hbefore, ⟨word, hword, ?_⟩, ?_, ?_⟩
    · simpa [Emissions.types, emission] using hprefix
    · intro event' hmem
      rcases List.mem_append.mp hmem with hmem | hmem
      · exact h.events event' hmem
      · obtain rfl := List.mem_singleton.mp hmem
        exact ⟨hts ▸ h.since_le, hattributed⟩
    · obtain ⟨-, hsame | ⟨event', heq, hmore⟩⟩ := tracing_perform hr
      · exact ⟨stored, hsame ▸ hrows, hsub.trans (List.sublist_append_left _ _)⟩
      · obtain rfl := OrchestratorOp.insertEvent.inj heq
        refine ⟨stored ++ [event], ?_, hsub.append (List.Sublist.refl _)⟩
        rw [hmore, List.filter_append, hrows, List.append_assoc, List.filter_singleton]
        simp [hattributed.1]
  | now use =>
    obtain rfl := Option.some.inj hr
    exact ⟨h.since_le.trans hafter, le_rfl, h.word, h.events, stored, hrows, hsub⟩
  | _ =>
    obtain rfl := Option.some.inj hr
    exact h

/-- A step of a node of another review. -/
theorem Concluding.other (h : Concluding run base since z w) (hne : run'.1 ≠ run.1) {i : ℕ}
    {op : OrchestratorOp} {r : TraceWorld × OrchestratorSignature.Answer op}
    (hallows : (emission run').allows z' op) (hr : tracing.perform i w op choice = some r) :
    Concluding run base since z r.1 := by
  have hnow := (tracing_perform hr).1
  refine ⟨h.since_le, hnow ▸ h.stamp_le, h.word, h.events, ?_⟩
  obtain ⟨stored, hrows, hsub⟩ := h.rows
  refine ⟨stored, ?_, hsub⟩
  obtain ⟨-, hsame | ⟨event, rfl, hmore⟩⟩ := tracing_perform hr
  · rw [hsame, hrows]
  · obtain ⟨hattributed, -⟩ := hallows event rfl
    rw [hmore, List.filter_append, hrows, List.filter_singleton]
    simp [hattributed.1, hne]

theorem concluding_respects (W : NodeRun → Prop) :
    tracing.Respects (concludingRole reviewId base since) W where
  own := by
    rintro run i z w op choice r - hworld ⟨-, hallows⟩ hr hrun
    exact (hworld hrun).own hallows hr
  other := by
    rintro run run' i z z' w op choice r hne - - - ⟨honly, hallows⟩ hworld' hr hrun'
    refine (hworld' hrun').other (fun hid => hne ?_) hallows hr
    subst hrun'
    exact (Prod.ext hid (honly hid)).symm
  move := by
    rintro run z w seconds w' - hworld hw hrun
    obtain ⟨hsame, hlater⟩ := tracing_move hw
    obtain ⟨hsince, hle, hword, hevents, hrows⟩ := hworld hrun
    exact ⟨hsince, hle.trans hlater, hword, hevents, hsame ▸ hrows⟩

variable {setup : AgentSetup} {states : NodeRun → GraphState}
  {c c₁ : Machine.Config OrchestratorSignature Exc (NodeUpdate ⊕ Review × String) TraceWorld}
  {before after : List (Machine.Sched TraceChoice ℚ NodeRun)}

/-- Nodes that have started, none of them with a row of the review from later on. -/
theorem punctual_inStep {schedule : List (Machine.Sched TraceChoice ℚ NodeRun)}
    (hnodup : (Machine.started schedule).Nodup)
    (hrows : ∀ event ∈ w.rows, event.reviewId = reviewId → event.ts ≤ w.now)
    (h : tracing.exec (nodeProgram setup states) ⟨w, []⟩ schedule = some c) :
    ∃ stage, Machine.InStep (punctualRole reviewId w.now) (fun _ => True)
      (Machine.started schedule) stage c := by
  refine Machine.exec_inStep [] (punctual_respects fun _ => True) (by simpa using hnodup)
    (fun _ _ => trivial) (fun run hrun => (nodeProgram_keeps rfl).mono fun _ _ _ => trivial)
    (?_ : Machine.InStep _ _ _ (fun _ => { stamp := w.now }) _) h
  exact ⟨rfl, fun i label p hlabel => by simp at hlabel, fun _ _ => ⟨le_rfl, hrows⟩, fun _ _ => rfl⟩

/-- As the aggregator may start: the specialists of the review have ended, all else goes on. -/
theorem concluding_inStep {labels : List NodeRun} {stage : NodeRun → Emissions}
    (hstage : Machine.InStep (punctualRole reviewId since) (fun _ => True) labels stage c)
    (hended : ∀ (i : ℕ) agentType, labels[i]? = some (reviewId, .specialist agentType) →
      c.ended i = true)
    (hagg : (reviewId, Node.aggregate) ∉ labels) :
    Machine.InStep (concludingRole reviewId
        (c.world.rows.filter fun event => event.reviewId = reviewId) c.world.now) (fun _ => True)
      labels (fun run => if run ∈ labels then stage run else { stamp := c.world.now }) c where
  length_eq := hstage.length_eq
  keeps := by
    rintro i ⟨reviewId', node⟩ p hlabel hp
    rw [if_pos (List.mem_of_getElem? hlabel)]
    by_cases hid : reviewId' = reviewId
    · subst hid
      cases node with
      | aggregate => exact absurd (List.mem_of_getElem? hlabel) hagg
      | specialist agentType =>
        obtain ⟨r, hr⟩ := Machine.exists_of_ended (hended i agentType hlabel)
        obtain rfl := Option.some.inj (hr.symm.trans hp)
        trivial
    · exact (hstage.keeps i _ p hlabel hp).weaken (fun z op h => ⟨fun heq => absurd heq hid, h⟩) rfl
        fun _ _ h => h
  world := by
    rintro run - rfl
    rw [if_neg hagg]
    exact ⟨le_rfl, le_rfl, ⟨[.decision], by simp [Node.spans], by simp [Emissions.types]⟩, by simp,
      [], by simp, List.nil_sublist _⟩
  fresh run hrun := if_neg hrun

/-- Once the specialists of a review have ended, the review's trace is complete but for the
aggregator's decision, which comes after all of it, whatever the nodes of other reviews do. -/
theorem decision_ends_trace (hnodup : (Machine.started before ++ Machine.started after).Nodup)
    (hrows : ∀ event ∈ w.rows, event.reviewId = reviewId → event.ts ≤ w.now)
    (hbefore : tracing.exec (nodeProgram setup states) ⟨w, []⟩ before = some c₁)
    (hstarted : ∀ agentType, (reviewId, Node.specialist agentType) ∈ Machine.started before)
    (hended : ∀ (i : ℕ) agentType,
      (Machine.started before)[i]? = some (reviewId, Node.specialist agentType) → c₁.ended i = true)
    (hagg : (reviewId, Node.aggregate) ∉ Machine.started before)
    (hafter : tracing.exec (nodeProgram setup states) c₁ after = some c) :
    ∃ decisions, reconstructReviewTrace c.world.rows reviewId =
        reconstructReviewTrace c₁.world.rows reviewId ++ decisions ∧ decisions.length ≤ 1 ∧
      ∀ event ∈ decisions, event.eventType = .decision ∧
        AttributedTo (reviewId, .aggregate) event := by
  obtain ⟨hbeforeNodup, -, hdisjoint⟩ := List.nodup_append.mp hnodup
  obtain ⟨stage₁, hstage₁⟩ := punctual_inStep hbeforeNodup hrows hbefore
  have hpunctual := (hstage₁.world (reviewId, .aggregate) trivial).rows
  have honly : ∀ run ∈ Machine.started after, run.1 = reviewId → run.2 = .aggregate := by
    rintro ⟨reviewId', node⟩ hrun rfl
    cases node with
    | aggregate => rfl
    | specialist agentType => exact absurd rfl (hdisjoint _ (hstarted agentType) _ hrun)
  obtain ⟨stage₂, hstage₂⟩ := Machine.exec_inStep _ (concluding_respects _) hnodup
    (fun _ _ => trivial) (fun run hrun => (nodeProgram_keeps rfl).weaken
      (fun z op h => ⟨honly run hrun, h⟩) rfl fun _ _ _ => trivial)
    (concluding_inStep hstage₁ hended hagg) hafter
  obtain ⟨-, -, ⟨word, hword, hprefix⟩, hevents, stored, hfilter, hsub⟩ :=
    hstage₂.world (reviewId, .aggregate) trivial rfl
  obtain rfl : word = [.decision] := by simpa [Node.spans] using hword
  have hlength : stored.length ≤ 1 :=
    hsub.length_le.trans (by simpa [Emissions.types] using hprefix.length_le)
  have hlater : ∀ event ∈ c₁.world.rows.filter fun event => event.reviewId = reviewId,
      ∀ event' ∈ stored, event.ts ≤ event'.ts := by
    intro event hmem event' hmem'
    rw [List.mem_filter, decide_eq_true_eq] at hmem
    exact (hpunctual event hmem.1 hmem.2).trans (hevents event' (hsub.subset hmem')).1
  refine ⟨stored, ?_, hlength, fun event hmem => ⟨?_, (hevents event (hsub.subset hmem)).2⟩⟩
  · rw [reconstructReviewTrace, fetchEventsForReview, hfilter]
    exact insertionSort_append (pairwise_of_length_le_one hlength) hlater
  · have htype : event.eventType ∈ (stage₂ (reviewId, .aggregate)).types :=
      List.mem_map_of_mem (hsub.subset hmem)
    simpa using hprefix.subset htype

end

/-- Then the aggregator. -/
def aggregatorLast : List (Machine.Sched TraceChoice ℚ NodeRun) :=
  .start ("run", .aggregate) :: List.replicate 4 (.act 4 .healthy)

/-- Four spans, and then the decision. -/
theorem aggregator_decides_last : ∃ c₁ c, tracing.exec (nodeProgram .sample fun _ => .sample)
      ⟨⟨0, [], 0⟩, []⟩ specialistsInTurns = some c₁ ∧
    tracing.exec (nodeProgram .sample fun _ => .sample) c₁ aggregatorLast = some c ∧
    c.world.rows.length = 13 ∧
    ∃ decisions, reconstructReviewTrace c.world.rows "run" =
        reconstructReviewTrace c₁.world.rows "run" ++ decisions ∧ decisions.length ≤ 1 ∧
      ∀ event ∈ decisions, event.eventType = .decision ∧
        AttributedTo ("run", .aggregate) event := by
  have hends : (tracing.exec (nodeProgram .sample fun _ => .sample) ⟨⟨0, [], 0⟩, []⟩
      specialistsInTurns).map (fun c₁ => ((List.range 4).all c₁.ended,
        (tracing.exec (nodeProgram .sample fun _ => .sample) c₁ aggregatorLast).map
          fun c => c.world.rows.length)) = some (true, some 13) := by
    decide +kernel
  obtain ⟨c₁, hc₁, hpair⟩ := Option.map_eq_some_iff.mp hends
  obtain ⟨hended, hlast⟩ := Prod.mk.inj hpair
  obtain ⟨c, hc, hlength⟩ := Option.map_eq_some_iff.mp hlast
  refine ⟨c₁, c, hc₁, hc, hlength, decision_ends_trace (by decide) (by simp) hc₁ ?_ ?_ (by decide) hc⟩
  · intro agentType
    cases agentType <;> decide
  · intro i agentType hi
    have hfour : i < 4 := (List.getElem?_eq_some_iff.mp hi).1
    exact List.all_eq_true.mp hended i (List.mem_range.mpr hfour)

end ReviewAgent
