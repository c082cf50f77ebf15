import ReviewAgent.Orchestrator.Checkpoints

/-! Across crashes and resumptions: what is recorded of a run stays, and is not computed again. -/
namespace ReviewAgent

open Effects

section

variable (engine : WorkflowEngine) (threadId : String) (initialState : GraphState)

/-- An update that the specialist's branch may return. -/
def BranchMayReturn (agentType : AgentType) (update : NodeUpdate) : Prop :=
  (specialistNode (engine.agents agentType) agentType threadId initialState).MayEnd
    (fun _ _ => True) (.ok update)

/-- What the aggregator may return of merged branches. -/
def AggregateMayReturn (merged : GraphState) (made : Review × String) : Prop :=
  (aggregateNode engine.settings merged).MayEnd (fun _ _ => True) (.ok made)

/-- The branches' updates, merged. -/
def mergedOf (update : AgentType → NodeUpdate) : GraphState :=
  initialState.reduceAll (engine.order.agents.map update)

/-- One update that each branch may return, among them all those recorded. -/
structure Branches (log : List Progress) (update : AgentType → NodeUpdate) : Prop where
  returned : ∀ agentType, BranchMayReturn engine threadId initialState agentType (update agentType)
  recorded : ∀ agentType u, .recorded (.specialist agentType u) ∈ log → u = update agentType

/-- The state is the end of a run, with every result that is recorded. -/
def EndsRun (log : List Progress) (final : GraphState) : Prop :=
  ∃ update made, Branches engine threadId initialState log update ∧
    AggregateMayReturn engine (mergedOf engine initialState update) made ∧
    (∀ made', .recorded (.aggregate made') ∈ log → made' = made) ∧
    final = WorkflowEngine.finalState (mergedOf engine initialState update) made

/-- What a thread's last checkpoint accounts for. -/
def AccountsFor (log : List Progress) : Option Snapshot → Prop
  | none => ∀ write, .recorded write ∉ log
  | some ⟨values, .specialists written⟩ => values = initialState ∧
      (∀ agentType u, written agentType = some u →
        BranchMayReturn engine threadId initialState agentType u) ∧
      (∀ agentType u, .recorded (.specialist agentType u) ∈ log → written agentType = some u) ∧
      ∀ made, .recorded (.aggregate made) ∉ log
  | some ⟨values, .aggregate written⟩ => ∃ update, Branches engine threadId initialState log update ∧
      values = mergedOf engine initialState update ∧
      (∀ made, written = some made → AggregateMayReturn engine values made) ∧
      ∀ made, .recorded (.aggregate made) ∈ log → written = some made
  | some ⟨values, .ended⟩ => EndsRun engine threadId initialState log values

end

/-- Once a node's result is recorded, nothing more is run or recorded of that node. -/
def RecordedOnce (log : List Progress) : Prop :=
  log.Pairwise fun later earlier => ∀ write, earlier = .recorded write → later.node ≠ write.node

/-- What holds of a thread's checkpoint and log at every moment. -/
structure Sound (engine : WorkflowEngine) (threadId : String) (initialState : GraphState)
    (snapshot : Option Snapshot) (log : List Progress) : Prop where
  accounts : AccountsFor engine threadId initialState log snapshot
  settled : RecordedOnce log

section

variable {engine : WorkflowEngine} {threadId : String} {initialState : GraphState}
  {snapshot : Option Snapshot} {log log' : List Progress} {node : Node}
  {update : AgentType → NodeUpdate} {made : Review × String} {write : TaskWrite}

theorem Branches.congr (h : Branches engine threadId initialState log update)
    (hsame : ∀ write, .recorded write ∈ log' → .recorded write ∈ log) :
    Branches engine threadId initialState log' update :=
  ⟨h.returned, fun agentType u hu => h.recorded agentType u (hsame _ hu)⟩

/-- What a checkpoint accounts for is a matter of what is recorded. -/
theorem AccountsFor.congr (h : AccountsFor engine threadId initialState log snapshot)
    (hsame : ∀ write, .recorded write ∈ log' → .recorded write ∈ log) :
    AccountsFor engine threadId initialState log' snapshot := by
  obtain _ | ⟨values, written | written | _⟩ := snapshot
  · exact fun write hwrite => h write (hsame write hwrite)
  · obtain ⟨hvalues, hreturned, hrecorded, hnone⟩ := h
    exact ⟨hvalues, hreturned, fun a u hu => hrecorded a u (hsame _ hu),
      fun made hmade => hnone made (hsame _ hmade)⟩
  · obtain ⟨update, hbranches, hvalues, hreturned, hrecorded⟩ := h
    exact ⟨update, hbranches.congr hsame, hvalues, hreturned,
      fun made hmade => hrecorded made (hsame _ hmade)⟩
  · obtain ⟨update, made, hbranches, hreturned, hrecorded, hvalues⟩ := h
    exact ⟨update, made, hbranches.congr hsame, hreturned,
      fun made' hmade => hrecorded made' (hsame _ hmade), hvalues⟩

theorem recorded_of_ran (h : .recorded write ∈ Progress.ran node :: log) :
    .recorded write ∈ log := by
  rcases List.mem_cons.mp h with h | h
  · cases h
  · exact h

/-- A node without a recorded result may run. -/
theorem Sound.ran (h : Sound engine threadId initialState snapshot log)
    (hnode : ∀ write, .recorded write ∈ log → write.node ≠ node) :
    Sound engine threadId initialState snapshot (.ran node :: log) := by
  refine ⟨h.accounts.congr fun _ => recorded_of_ran, List.pairwise_cons.mpr ⟨?_, h.settled⟩⟩
  rintro _ hmem write rfl
  exact (hnode write hmem).symm

/-- A node without a recorded result may record one. -/
theorem RecordedOnce.record (h : RecordedOnce log)
    (hnode : ∀ write', .recorded write' ∈ log → write'.node ≠ write.node) :
    RecordedOnce (.recorded write :: log) := by
  refine List.pairwise_cons.mpr ⟨?_, h⟩
  rintro _ hmem write' rfl
  exact (hnode write' hmem).symm

end

/-! ### The super-step of the specialists -/

/-- In the specialists' super-step: `got` are the results in hand. -/
structure InHand (engine : WorkflowEngine) (threadId : String) (initialState : GraphState)
    (got : AgentType → Option NodeUpdate) (snapshot : Option Snapshot) (log : List Progress) :
    Prop extends Sound engine threadId initialState snapshot log where
  returned : ∀ agentType u, got agentType = some u →
    BranchMayReturn engine threadId initialState agentType u
  recorded : ∀ agentType u, .recorded (.specialist agentType u) ∈ log → got agentType = some u
  unmade : ∀ made, .recorded (.aggregate made) ∉ log
  waiting : ∀ s, snapshot = some s → ∃ written, s = ⟨initialState, .specialists written⟩

/-- In the fan-in: the merged branches are in hand, and the aggregator's result once there is
one. -/
structure Merging (engine : WorkflowEngine) (threadId : String) (initialState : GraphState)
    (update : AgentType → NodeUpdate) (written : Option (Review × String))
    (snapshot : Option Snapshot) (log : List Progress) :
    Prop extends Sound engine threadId initialState snapshot log where
  branches : Branches engine threadId initialState log update
  returned : ∀ made, written = some made →
    AggregateMayReturn engine (mergedOf engine initialState update) made
  recorded : ∀ made, .recorded (.aggregate made) ∈ log → written = some made
  waiting : ∀ s, snapshot = some s → (∃ w, s = ⟨initialState, .specialists w⟩) ∨
    ∃ w, s = ⟨mergedOf engine initialState update, .aggregate w⟩ ∧ (w = none ∨ w = written)

section

variable {engine : WorkflowEngine} {threadId : String} {initialState : GraphState}
  {got w : AgentType → Option NodeUpdate} {written : Option (Review × String)}
  {snapshot : Option Snapshot} {log : List Progress} {agentType : AgentType} {u : NodeUpdate}
  {update : AgentType → NodeUpdate} {made : Review × String}

/-- No result is recorded of a specialist whose result is not in hand. -/
theorem InHand.untouched (h : InHand engine threadId initialState got snapshot log)
    (hgot : got agentType = none) :
    ∀ write, .recorded write ∈ log → write.node ≠ .specialist agentType := by
  intro write hwrite hnode
  cases write with
  | specialist a v =>
    obtain rfl := Node.specialist.inj hnode
    rw [h.recorded a v hwrite] at hgot
    cases hgot
  | aggregate made => cases hnode

theorem InHand.ran (h : InHand engine threadId initialState got snapshot log)
    (hgot : got agentType = none) :
    InHand engine threadId initialState got snapshot (.ran (.specialist agentType) :: log) :=
  ⟨h.toSound.ran (h.untouched hgot), h.returned, fun a v hv => h.recorded a v (recorded_of_ran hv),
    fun made hmade => h.unmade made (recorded_of_ran hmade), h.waiting⟩

/-- A result is in hand, and not recorded. -/
theorem InHand.take (h : InHand engine threadId initialState got snapshot log)
    (hgot : got agentType = none)
    (hreturned : BranchMayReturn engine threadId initialState agentType u) :
    InHand engine threadId initialState (Function.update got agentType (some u)) snapshot log := by
  refine ⟨h.toSound, fun a v hv => ?_, fun a v hv => ?_, h.unmade, h.waiting⟩
  · by_cases ha : a = agentType
    · subst ha
      rw [Function.update_self] at hv
      exact Option.some.inj hv ▸ hreturned
    · rw [Function.update_of_ne ha] at hv
      exact h.returned a v hv
  · have ha : a ≠ agentType := fun heq => h.untouched hgot _ hv (congrArg Node.specialist heq)
    rw [Function.update_of_ne ha]
    exact h.recorded a v hv

/-- A result is in hand, and recorded. -/
theorem InHand.record
    (h : InHand engine threadId initialState got (some ⟨initialState, .specialists w⟩) log)
    (hgot : got agentType = none)
    (hreturned : BranchMayReturn engine threadId initialState agentType u) :
    InHand engine threadId initialState (Function.update got agentType (some u))
      (some ⟨initialState, .specialists (Function.update w agentType (some u))⟩)
      (.recorded (.specialist agentType u) :: log) := by
  have huntouched := h.untouched hgot
  have htake := h.take hgot hreturned
  obtain ⟨-, hw, hrecorded, -⟩ := h.accounts
  have hlog : ∀ a v, Progress.recorded (.specialist a v) ∈
      Progress.recorded (.specialist agentType u) :: log →
      (a = agentType ∧ v = u) ∨ (a ≠ agentType ∧ Progress.recorded (.specialist a v) ∈ log) := by
    intro a v hv
    rcases List.mem_cons.mp hv with hv | hv
    · cases hv
      exact Or.inl ⟨rfl, rfl⟩
    · exact Or.inr ⟨fun heq => huntouched _ hv (congrArg Node.specialist heq), hv⟩
  have hunmade : ∀ made, Progress.recorded (.aggregate made) ∉
      Progress.recorded (.specialist agentType u) :: log := by
    intro made hmade
    rcases List.mem_cons.mp hmade with hmade | hmade
    · cases hmade
    · exact h.unmade made hmade
  refine ⟨⟨⟨rfl, fun a v hv => ?_, fun a v hv => ?_, hunmade⟩, h.settled.record huntouched⟩,
    htake.returned, fun a v hv => ?_, hunmade, ?_⟩
  · by_cases ha : a = agentType
    · subst ha
      rw [Function.update_self] at hv
      exact Option.some.inj hv ▸ hreturned
    · rw [Function.update_of_ne ha] at hv
      exact hw a v hv
  · rcases hlog a v hv with ⟨rfl, rfl⟩ | ⟨ha, hv⟩
    · exact Function.update_self ..
    · rw [Function.update_of_ne ha]
      exact hrecorded a v hv
  · rcases hlog a v hv with ⟨rfl, rfl⟩ | ⟨ha, hv⟩
    · exact Function.update_self ..
    · exact htake.recorded a v hv
  · rintro s hs
    exact ⟨_, (Option.some.inj hs).symm⟩

/-- With a result of every specialist in hand the branches are merged; that checkpoint may be lost. -/
theorem InHand.merge (h : InHand engine threadId initialState got snapshot log)
    (hgot : ∀ agentType, got agentType = some (update agentType)) {snapshot' : Option Snapshot}
    (hsnapshot : snapshot' = snapshot ∨
      snapshot' = some ⟨mergedOf engine initialState update, .aggregate none⟩) :
    Merging engine threadId initialState update none snapshot' log := by
  have hbranches : Branches engine threadId initialState log update := by
    refine ⟨fun a => h.returned a _ (hgot a), fun a u hu => ?_⟩
    have hsome := h.recorded a u hu
    rw [hgot a] at hsome
    exact (Option.some.inj hsome).symm
  have hunmade : ∀ made, .recorded (.aggregate made) ∈ log → none = some made :=
    fun made hmade => absurd hmade (h.unmade made)
  have hnothing : ∀ made, none = some made →
      AggregateMayReturn engine (mergedOf engine initialState update) made := by
    intro made hmade
    cases hmade
  rcases hsnapshot with rfl | rfl
  · exact ⟨h.toSound, hbranches, hnothing, hunmade, fun s hs => Or.inl (h.waiting s hs)⟩
  · refine ⟨⟨⟨update, hbranches, rfl, hnothing, hunmade⟩, h.settled⟩, hbranches, hnothing, hunmade,
      ?_⟩
    rintro s hs
    exact Or.inr ⟨none, (Option.some.inj hs).symm, Or.inl rfl⟩

/-! ### The fan-in -/

theorem Merging.untouched (h : Merging engine threadId initialState update none snapshot log) :
    ∀ write, .recorded write ∈ log → write.node ≠ .aggregate := by
  intro write hwrite hnode
  cases write with
  | specialist a v => cases hnode
  | aggregate made => cases h.recorded made hwrite

theorem Merging.ran (h : Merging engine threadId initialState update none snapshot log) :
    Merging engine threadId initialState update none snapshot (.ran .aggregate :: log) :=
  ⟨h.toSound.ran h.untouched, h.branches.congr fun _ => recorded_of_ran, h.returned,
    fun made hmade => h.recorded made (recorded_of_ran hmade), h.waiting⟩

theorem Merging.take (h : Merging engine threadId initialState update none snapshot log)
    (hreturned : AggregateMayReturn engine (mergedOf engine initialState update) made) :
    Merging engine threadId initialState update (some made) snapshot log := by
  refine ⟨h.toSound, h.branches, fun made' hmade => Option.some.inj hmade ▸ hreturned,
    fun made' hmade => absurd (h.recorded made' hmade) (Option.some_ne_none made').symm,
    fun s hs => ?_⟩
  rcases h.waiting s hs with hw | ⟨w, hw, hnone⟩
  · exact Or.inl hw
  · exact Or.inr ⟨w, hw, Or.inl (hnone.elim id id)⟩

theorem Merging.record {w : Option (Review × String)}
    (h : Merging engine threadId initialState update none
      (some ⟨mergedOf engine initialState update, .aggregate w⟩) log)
    (hreturned : AggregateMayReturn engine (mergedOf engine initialState update) made) :
    Merging engine threadId initialState update (some made)
      (some ⟨mergedOf engine initialState update, .aggregate (some made)⟩)
      (.recorded (.aggregate made) :: log) := by
  have hbranches : Branches engine threadId initialState (.recorded (.aggregate made) :: log)
      update := by
    refine ⟨h.branches.returned, fun a u hu => ?_⟩
    rcases List.mem_cons.mp hu with hu | hu
    · cases hu
    · exact h.branches.recorded a u hu
  have hmade : ∀ made', Progress.recorded (.aggregate made') ∈
      Progress.recorded (.aggregate made) :: log → some made = some made' := by
    intro made' hmem
    rcases List.mem_cons.mp hmem with hmem | hmem
    · cases hmem
      rfl
    · cases h.recorded made' hmem
  have hsame : ∀ made', some made = some made' →
      AggregateMayReturn engine (mergedOf engine initialState update) made' :=
    fun made' heq => Option.some.inj heq ▸ hreturned
  refine ⟨⟨⟨update, hbranches, rfl, hsame, hmade⟩, h.settled.record h.untouched⟩, hbranches, hsame,
    hmade, ?_⟩
  rintro s hs
  exact Or.inr ⟨some made, (Option.some.inj hs).symm, Or.inr rfl⟩

/-- With the aggregator's result in hand the run has its end; that checkpoint may be lost. -/
theorem Merging.endsRun (h : Merging engine threadId initialState update (some made) snapshot log) :
    EndsRun engine threadId initialState log
      (WorkflowEngine.finalState (mergedOf engine initialState update) made) :=
  ⟨update, made, h.branches, h.returned made rfl,
    fun made' hmade => (Option.some.inj (h.recorded made' hmade)).symm, rfl⟩

end

end ReviewAgent
