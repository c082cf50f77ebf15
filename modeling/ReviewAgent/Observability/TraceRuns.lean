import ReviewAgent.Observability.Traces
import ReviewAgent.Orchestrator.ForcedReview

/-! The trace of a review, however its nodes and those of other reviews interleave. -/
namespace ReviewAgent

open Effects

/-- The clock, `agent_events` in the order of its ids, and how many writes failed, or seemed to. -/
structure TraceWorld where
  now : ℚ
  rows : List AgentEvent
  failures : ℕ := 0

/-- How an operation is answered, and whether an event that is written is stored. -/
structure TraceChoice where
  answers : Answers
  stored : Bool

/-- The nodes' clock, their events, and whatever else they ask: a write may fail and leave its row
all the same. -/
def tracing : Machine OrchestratorSignature TraceWorld TraceChoice ℚ where
  perform
    | _, w, .now _, _ => some (w, w.now)
    | _, w, .insertEvent event, choice =>
      let written := choice.answers (.insertEvent event)
      some ({ w with
        rows := if choice.stored then w.rows ++ [event] else w.rows
        failures := if choice.stored && written.isOk then w.failures else w.failures + 1 }, written)
    | _, w, op, choice => some (w, choice.answers op)
  move w seconds := if 0 ≤ seconds then some { w with now := w.now + seconds } else none

/-- `fetch_events_for_review`: `ORDER BY ts ASC, id ASC`. -/
def fetchEventsForReview (rows : List AgentEvent) (reviewId : String) : List AgentEvent :=
  (rows.filter fun event => event.reviewId = reviewId).insertionSort fun event event' =>
    event.ts ≤ event'.ts

/-- `reconstruct_review_trace`. -/
def reconstructReviewTrace (rows : List AgentEvent) (reviewId : String) : List AgentEvent :=
  fetchEventsForReview rows reviewId

/-- The part of a review's trace that one agent wrote. -/
def agentTrace (rows : List AgentEvent) (run : NodeRun) : List AgentEvent :=
  (reconstructReviewTrace rows run.1).filter fun event => event.agent = some run.2.agent

/-- What the events of an ended node say: a specialist's span is closed as the node ended, and an
aggregator that returned left the decision of its review. -/
def TellsEnd (run : NodeRun) (r : Except Exc (NodeUpdate ⊕ Review × String))
    (events : List AgentEvent) : Prop :=
  match run.2 with
  | .specialist _ => 1 ≤ run.1.length ∧ run.1.length ≤ 200 → SpanClosed run r.isOk events
  | .aggregate => ∀ made, r = .ok (.inr made) → DecisionMade made.1 events

theorem nodeProgram_keeps {setup : AgentSetup} {states : NodeRun → GraphState} {run : NodeRun}
    {z : Emissions} (hz : z.events = []) :
    (nodeProgram setup states run).Keeps (emission run)
      (fun r z => z.clean = true → TellsEnd run r z.events) z := by
  have htypes : z.types = [] := by rw [Emissions.types, hz, List.map_nil]
  obtain ⟨reviewId, node⟩ := run
  cases node with
  | specialist agentType =>
    have hnode := specialistNode_keeps setup agentType
      { states (reviewId, .specialist agentType) with reviewId } rfl htypes
    exact hnode.bind (Q := fun r (z : Emissions) => z.clean = true →
      TellsEnd (reviewId, .specialist agentType) r z.events)
      (fun update z h hclean hid => h ⟨hid, hclean⟩) fun e z h hclean hid => h ⟨hid, hclean⟩
  | aggregate =>
    have hnode := aggregateNode_keeps setup.settings
      { states (reviewId, .aggregate) with reviewId } rfl hz
    refine hnode.bind (Q := fun r (z : Emissions) => z.clean = true →
      TellsEnd (reviewId, .aggregate) r z.events) (fun made z h hclean made' hmade => ?_)
      fun e z h hclean made hmade => by cases hmade
    obtain rfl := Sum.inr.inj (Except.ok.inj hmade)
    exact h made rfl hclean

/-- How the table stands to what a node has written: some of it, and all of it if no write failed. -/
structure WrittenBy (run : NodeRun) (z : Emissions) (w : TraceWorld) : Prop where
  stamp_le : z.stamp ≤ w.now
  word : ∃ word ∈ run.2.spans, z.types <+: word
  ordered : z.events.Pairwise fun event event' => event.ts ≤ event'.ts
  stamped : ∀ event ∈ z.events, event.ts ≤ z.stamp
  stored : (w.rows.filter fun event => AttributedTo run event).Sublist z.events
  complete : w.failures = 0 →
    z.clean = true ∧ (w.rows.filter fun event => AttributedTo run event) = z.events

/-- A node's part in a run that it joins at this time. -/
def nodeRole (since : ℚ) (run : NodeRun) :
    Role OrchestratorSignature Exc (NodeUpdate ⊕ Review × String) TraceWorld Emissions where
  protocol := emission run
  start := { stamp := since }
  ends r z := z.clean = true → TellsEnd run r z.events
  world := WrittenBy run

section

variable {run : NodeRun} {z : Emissions} {w w' : TraceWorld} {event : AgentEvent}
  {choice : TraceChoice} {since : ℚ}

/-- An event of the node itself. -/
theorem WrittenBy.inserts (h : WrittenBy run z w) {i : ℕ} {r : TraceWorld × Except Exc Unit}
    (hallows : (emission run).allows z (.insertEvent event))
    (hr : tracing.perform i w (.insertEvent event) choice = some r) :
    WrittenBy run ((emission run).next z (.insertEvent event) r.2) r.1 := by
  obtain ⟨hattributed, hts, word, hword, hprefix⟩ := hallows event rfl
  obtain rfl := Option.some.inj hr
  refine ⟨h.stamp_le, ⟨word, hword, ?_⟩, ?_, ?_, ?_, ?_⟩
  · simpa [Emissions.types, emission] using hprefix
  · refine List.pairwise_append.mpr ⟨h.ordered, List.pairwise_singleton _ _, ?_⟩
    intro event' hmem event'' hmem''
    obtain rfl := List.mem_singleton.mp hmem''
    rw [hts]
    exact h.stamped event' hmem
  · intro event' hmem
    rcases List.mem_append.mp hmem with hmem | hmem
    · exact h.stamped event' hmem
    · obtain rfl := List.mem_singleton.mp hmem
      exact hts.le
  · show (List.filter _ (if _ then _ else _)).Sublist (z.events ++ [event])
    split
    · rw [List.filter_append]
      exact h.stored.append (List.filter_sublist)
    · exact h.stored.trans (List.sublist_append_left _ _)
  · intro hfailures
    have hkept : (choice.stored && (choice.answers (.insertEvent event)).isOk) = true ∧
        w.failures = 0 := by
      change (if _ then _ else _) = 0 at hfailures
      split at hfailures
      · rename_i hcond
        exact ⟨hcond, hfailures⟩
      · cases hfailures
    obtain ⟨hstored, hok⟩ := Bool.and_eq_true_iff.mp hkept.1
    obtain ⟨hclean, hrows⟩ := h.complete hkept.2
    refine ⟨Bool.and_eq_true_iff.mpr ⟨hclean, hok⟩, ?_⟩
    show List.filter _ (if choice.stored = true then _ else _) = z.events ++ [event]
    rw [if_pos hstored, List.filter_append, hrows, List.filter_singleton]
    simp [hattributed]

/-- Any other operation of the node leaves the table, and can only renew the stamp. -/
theorem WrittenBy.performs (h : WrittenBy run z w) {i : ℕ} {op : OrchestratorOp}
    {r : TraceWorld × OrchestratorSignature.Answer op}
    (hallows : (emission run).allows z op) (hr : tracing.perform i w op choice = some r) :
    WrittenBy run ((emission run).next z op r.2) r.1 := by
  cases op with
  | insertEvent event => exact h.inserts hallows hr
  | now use =>
    obtain rfl := Option.some.inj hr
    exact ⟨le_rfl, h.word, h.ordered, fun event hmem => (h.stamped event hmem).trans h.stamp_le,
      h.stored, h.complete⟩
  | _ =>
    obtain rfl := Option.some.inj hr
    exact h

/-- A step of another node adds no event of this one. -/
theorem WrittenBy.other {run' : NodeRun} {z' : Emissions} (h : WrittenBy run z w) (hne : run ≠ run')
    {i : ℕ} {op : OrchestratorOp} {r : TraceWorld × OrchestratorSignature.Answer op}
    (hallows : (emission run').allows z' op) (hr : tracing.perform i w op choice = some r) :
    WrittenBy run z r.1 := by
  cases op with
  | insertEvent event =>
    obtain ⟨hattributed, -⟩ := hallows event rfl
    obtain rfl := Option.some.inj hr
    have hnot : ¬ AttributedTo run event := by
      intro hown
      refine hne (Prod.ext (hown.1.symm.trans hattributed.1) (Node.agent_injective ?_))
      exact Option.some.inj (hown.2.symm.trans hattributed.2)
    have hrows : ((if choice.stored = true then w.rows ++ [event] else w.rows).filter fun event =>
        AttributedTo run event) = w.rows.filter fun event => AttributedTo run event := by
      split
      · rw [List.filter_append, List.filter_singleton]
        simp [hnot]
      · rfl
    refine ⟨h.stamp_le, h.word, h.ordered, h.stamped, ?_, fun hfailures => ?_⟩
    · show (List.filter _ (if _ then _ else _)).Sublist _
      rw [hrows]
      exact h.stored
    · have hzero : w.failures = 0 := by
        change (if _ then _ else _) = 0 at hfailures
        split at hfailures
        · exact hfailures
        · cases hfailures
      refine ⟨(h.complete hzero).1, ?_⟩
      show List.filter _ (if _ then _ else _) = _
      rw [hrows]
      exact (h.complete hzero).2
  | _ =>
    obtain rfl := Option.some.inj hr
    exact h

theorem WrittenBy.moves (h : WrittenBy run z w) {seconds : ℚ}
    (hw : tracing.move w seconds = some w') : WrittenBy run z w' := by
  change (if _ then _ else _) = _ at hw
  split at hw
  · obtain rfl := Option.some.inj hw
    exact ⟨h.stamp_le.trans (by simpa), h.word, h.ordered, h.stamped, h.stored, h.complete⟩
  · cases hw

theorem tracing_respects (W : NodeRun → Prop) : tracing.Respects (nodeRole since) W where
  own _ _ _ _ _ _ _ _ hworld hallows hr := WrittenBy.performs hworld hallows hr
  other _ _ _ _ _ _ _ _ _ hne _ _ _ hallows hworld hr := WrittenBy.other hworld hne hallows hr
  move _ _ _ _ _ _ hworld hm := WrittenBy.moves hworld hm

/-- Sorting leaves a part that is in order as it is. -/
theorem filter_insertionSort {α : Type} {r : α → α → Prop} [DecidableRel r] {p : α → Bool}
    {l : List α} (h : (l.filter p).Pairwise r) : (l.insertionSort r).filter p = l.filter p := by
  have hsub : (l.filter p).Sublist ((l.insertionSort r).filter p) := by
    have hsorted := (List.sublist_insertionSort h List.filter_sublist).filter p
    rwa [List.filter_filter, List.filter_congr fun _ _ => Bool.and_self _] at hsorted
  exact (hsub.eq_of_length ((List.perm_insertionSort r l).filter p).length_eq.symm).symm

/-- An agent's part of a trace is what the agent stored, in the order in which it did. -/
theorem WrittenBy.agentTrace_eq (h : WrittenBy run z w) :
    agentTrace w.rows run = w.rows.filter fun event => AttributedTo run event := by
  have hfilter : ((w.rows.filter fun event => event.reviewId = run.1).filter fun event =>
      event.agent = some run.2.agent) = w.rows.filter fun event => AttributedTo run event := by
    rw [List.filter_filter]
    refine List.filter_congr fun event _ => ?_
    rw [Bool.and_comm, ← Bool.decide_and]
    rfl
  rw [agentTrace, reconstructReviewTrace, fetchEventsForReview, filter_insertionSort, hfilter]
  rw [hfilter]
  exact h.ordered.sublist h.stored

variable {setup : AgentSetup} {states : NodeRun → GraphState}
  {c : Machine.Config OrchestratorSignature Exc (NodeUpdate ⊕ Review × String) TraceWorld}
  {schedule : List (Machine.Sched TraceChoice ℚ NodeRun)}

/-- The nodes that have started are in step with what they have written. -/
theorem nodes_inStep (hnodup : (Machine.started schedule).Nodup)
    (hfresh : ∀ run ∈ Machine.started schedule, ∀ event ∈ w.rows, ¬ AttributedTo run event)
    (h : tracing.exec (nodeProgram setup states) ⟨w, []⟩ schedule = some c) :
    ∃ stage, Machine.InStep (nodeRole w.now) (fun run => run ∈ Machine.started schedule)
      (Machine.started schedule) stage c := by
  have hstart : Machine.InStep (nodeRole w.now) (fun run => run ∈ Machine.started schedule) []
      (fun run => (nodeRole w.now run).start)
      (⟨w, []⟩ : Machine.Config OrchestratorSignature Exc (NodeUpdate ⊕ Review × String)
        TraceWorld) := by
    refine ⟨rfl, fun i label p hlabel => by simp at hlabel, fun run hrun => ?_, fun _ _ => rfl⟩
    have hnone : (w.rows.filter fun event => AttributedTo run event) = [] :=
      List.filter_eq_nil_iff.mpr fun event hmem => by simpa using hfresh run hrun event hmem
    refine ⟨le_rfl, ?_, List.Pairwise.nil, by simp [nodeRole], ?_, fun _ => ⟨rfl, hnone⟩⟩
    · rcases run with ⟨reviewId, _ | _⟩ <;> simp [Node.spans, Emissions.types, nodeRole]
    · rw [hnone]
      exact List.nil_sublist _
  exact Machine.exec_inStep [] (tracing_respects _) (by simpa using hnodup)
    (fun run hrun => by simpa using hrun) (fun run hrun => nodeProgram_keeps rfl) hstart h

/-- However the nodes of any number of reviews interleave, each agent's part of its review's trace
runs from the start of its span over at most one call to its end; and as long as no write failed it
holds all that the agent has got to, and how the node ended. -/
theorem trace_follows_spans (hnodup : (Machine.started schedule).Nodup)
    (hfresh : ∀ run ∈ Machine.started schedule, ∀ event ∈ w.rows, ¬ AttributedTo run event)
    (h : tracing.exec (nodeProgram setup states) ⟨w, []⟩ schedule = some c) :
    ∀ run ∈ Machine.started schedule, (∃ word ∈ run.2.spans,
        ((agentTrace c.world.rows run).map fun event => event.eventType).Sublist word) ∧
      (c.world.failures = 0 →
        (∃ word ∈ run.2.spans,
          ((agentTrace c.world.rows run).map fun event => event.eventType) <+: word) ∧
        ∀ (i : ℕ) r, (Machine.started schedule)[i]? = some run → c.threads[i]? = some (.done r) →
          TellsEnd run r (agentTrace c.world.rows run)) := by
  intro run hrun
  obtain ⟨stage, hstage⟩ := nodes_inStep hnodup hfresh h
  have hworld : WrittenBy run (stage run) c.world := hstage.world run hrun
  obtain ⟨word, hword, hprefix⟩ := hworld.word
  rw [hworld.agentTrace_eq]
  refine ⟨⟨word, hword, (hworld.stored.map _).trans hprefix.sublist⟩, fun hzero => ?_⟩
  obtain ⟨hclean, hrows⟩ := hworld.complete hzero
  rw [hrows]
  refine ⟨⟨word, hword, hprefix⟩, fun i r hi hdone => ?_⟩
  exact hstage.keeps i run _ hi hdone hclean

end

/-- Everything answers, and every event is stored. -/
def TraceChoice.healthy : TraceChoice := ⟨RunAnswers.healthy.at .aggregate, true⟩

/-- The specialists of a review in turns, with a second after each turn. -/
def specialistsInTurns : List (Machine.Sched TraceChoice ℚ NodeRun) :=
  (specialistNodes.agents.map fun agentType => .start ("run", .specialist agentType)) ++
    (List.replicate 11 ((List.range 4).map (fun i => .act i TraceChoice.healthy) ++
      [.move 1])).flatten

/-- Four spans that overlap, each closed as its node returned. -/
theorem specialists_follow_spans : ∃ c, tracing.exec (nodeProgram .sample fun _ => .sample)
      ⟨⟨0, [], 0⟩, []⟩ specialistsInTurns = some c ∧ c.world.failures = 0 ∧
    (List.range 4).all c.ended = true ∧
    ∀ run ∈ Machine.started specialistsInTurns, (∃ word ∈ run.2.spans,
        ((agentTrace c.world.rows run).map fun event => event.eventType).Sublist word) ∧
      (c.world.failures = 0 →
        (∃ word ∈ run.2.spans,
          ((agentTrace c.world.rows run).map fun event => event.eventType) <+: word) ∧
        ∀ (i : ℕ) r, (Machine.started specialistsInTurns)[i]? = some run →
          c.threads[i]? = some (.done r) → TellsEnd run r (agentTrace c.world.rows run)) := by
  have hends : (tracing.exec (nodeProgram .sample fun _ => .sample) ⟨⟨0, [], 0⟩, []⟩
      specialistsInTurns).map (fun c => (c.world.failures, (List.range 4).all c.ended)) =
        some (0, true) := by
    decide +kernel
  obtain ⟨c, hc, hpair⟩ := Option.map_eq_some_iff.mp hends
  obtain ⟨hfailures, hended⟩ := Prod.mk.inj hpair
  exact ⟨c, hc, hfailures, hended, trace_follows_spans (by decide) (by simp) hc⟩

end ReviewAgent
