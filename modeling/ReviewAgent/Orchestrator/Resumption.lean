import ReviewAgent.Orchestrator.Resumed

/-! Every process of a thread, wherever it is cut short, leaves the thread sound. -/
namespace ReviewAgent

open Effects

/-- An assertion about a thread's own checkpoint and the log. -/
def Of (threadId : String) (P : Option Snapshot → List Progress → Prop) (db : CheckpointDb) : Prop :=
  P (db.threads threadId) db.log

/-- What the processes of a thread count on, and what each of their steps keeps. -/
def threadContract (engine : WorkflowEngine) (threadId : String) (initialState : GraphState) :
    Contract CheckpointDb where
  rely db db' := db'.threads threadId = db.threads threadId ∧ db'.log = db.log
  guarantee db db' := Of threadId (Sound engine threadId initialState) db →
    Of threadId (Sound engine threadId initialState) db'

section

variable {engine : WorkflowEngine} {threadId : String} {initialState : GraphState} {i : ℕ}
  {P : Option Snapshot → List Progress → Prop} {db db' : CheckpointDb} {write : TaskWrite}

theorem stable_of : Stable (threadContract engine threadId initialState).rely (Of threadId P) := by
  rintro db db' ⟨hthread, hlog⟩ h
  rw [Of, hthread, hlog]
  exact h

/-- Other threads leave this one alone. -/
theorem checkpointer_rely {m : String × Option Snapshot}
    (h : (checkpointer threadId).move db m = some db') :
    (threadContract engine threadId initialState).rely db db' := by
  obtain ⟨other, snapshot⟩ := m
  simp only [checkpointer] at h
  split at h
  · cases h
  · rename_i hother
    obtain rfl := Option.some.inj h
    exact ⟨Function.update_of_ne (Ne.symm hother) .., rfl⟩

/-- A write lands on the checkpoint that waits for it, or nowhere. -/
theorem putWrites_cases (db : CheckpointDb) (threadId : String) (write : TaskWrite) :
    db.putWrites threadId write = db ∨ ∃ s s', db.threads threadId = some s ∧
      s.record write = some s' ∧ (db.putWrites threadId write).threads threadId = some s' ∧
      (db.putWrites threadId write).log = .recorded write :: db.log := by
  unfold CheckpointDb.putWrites
  split
  · exact Or.inl rfl
  · rename_i s hs
    split
    · exact Or.inl rfl
    · rename_i s' hs'
      exact Or.inr ⟨s, s', hs, hs', Function.update_self .., rfl⟩

/-- One operation, by what it makes of an assertion that keeps the thread sound. -/
theorem perform_of {op : CheckpointOp}
    {A : CheckpointSignature.Answer op → Option Snapshot → List Progress → Prop}
    (hsound : ∀ answer s log, A answer s log → Sound engine threadId initialState s log)
    (h : ∀ db choice db' answer, Of threadId P db →
      (checkpointer threadId).perform i db op choice = some (db', answer) →
      Of threadId (A answer) db') :
    Triple (checkpointer threadId) i (threadContract engine threadId initialState) (Of threadId P)
      (Program.perform op : Checkpointed _)
      (ByResult (fun answer => Of threadId (A answer)) fun _ _ => False) := by
  apply Triple.perform stable_of
  · intro db choice db' answer hP hperform
    have hA := h db choice db' answer hP hperform
    exact ⟨fun _ => hsound answer _ _ hA, hA⟩
  · exact fun answer => stable_of

/-- A node that may run leaves the assertion under which it may. -/
theorem invoke_of {α : Type} {node : Node} {p : Orchestrated α}
    (hsound : ∀ s log, P s log → Sound engine threadId initialState s log)
    (hran : ∀ s log, P s log → P s (.ran node :: log)) :
    Triple (checkpointer threadId) i (threadContract engine threadId initialState) (Of threadId P)
      (node.invoke p) fun r db => p.MayEnd (fun _ _ => True) r ∧ Of threadId P db := by
  apply Triple.mayEnd stable_of
  intro db op choice db' answer hP hperform
  obtain ⟨rfl, -⟩ := Prod.mk.inj (Option.some.inj hperform)
  have hP' : P (db.threads threadId) (.ran node :: db.log) := hran _ _ hP
  exact ⟨fun _ => hsound _ _ hP', hP'⟩

theorem recordTask_of {got : AgentType → Option NodeUpdate} {agentType : AgentType}
    (hgot : got agentType = none) {ended : Except Exc NodeUpdate}
    (hended : (specialistNode (engine.agents agentType) agentType threadId initialState).MayEnd
      (fun _ _ => True) ended) :
    Triple (checkpointer threadId) i (threadContract engine threadId initialState)
      (Of threadId (InHand engine threadId initialState got))
      (LangGraphWorkflowEngine.recordTask threadId agentType ended)
      (ByResult (fun _ => Of threadId fun s log => ∃ got', InHand engine threadId initialState got' s log ∧
        (∀ u, ended = .ok u → got' agentType = some u) ∧ ∀ a, a ≠ agentType → got' a = got a)
        fun _ _ => False) := by
  cases ended with
  | error e =>
    refine Triple.done stable_of fun db hdb => ⟨got, hdb, fun u hu => ?_, fun a _ => rfl⟩
    cases hu
  | ok u =>
    have hother : ∀ a, a ≠ agentType → Function.update got agentType (some u) a = got a :=
      fun a ha => Function.update_of_ne ha ..
    have hself : ∀ v, Except.ok (ε := Exc) u = .ok v →
        Function.update got agentType (some u) agentType = some v := by
      intro v hv
      obtain rfl := Except.ok.inj hv
      exact Function.update_self ..
    apply perform_of
    · rintro - s log ⟨got', hinhand, -⟩
      exact hinhand.toSound
    · intro db choice db' answer hdb hperform
      obtain ⟨rfl, -⟩ := Prod.mk.inj (Option.some.inj hperform)
      have htake := hdb.take hgot hended
      by_cases hkept : choice.kept = true
      · rw [if_pos hkept]
        obtain hsame | ⟨s, s', hs, hs', hthread, hlog⟩ :=
          putWrites_cases db threadId (.specialist agentType u)
        · rw [hsame]
          exact ⟨_, htake, hself, hother⟩
        · obtain ⟨w, rfl⟩ := hdb.waiting s hs
          obtain rfl := Option.some.inj hs'
          rw [Of, hs] at hdb
          rw [Of, hthread, hlog]
          exact ⟨_, hdb.record hgot hended, hself, hother⟩
      · rw [if_neg hkept]
        exact ⟨_, htake, hself, hother⟩

/-- What the super-step comes to: the results in hand are those of its branches. -/
structure Stepped (engine : WorkflowEngine) (threadId : String) (initialState : GraphState)
    (got : AgentType → Option NodeUpdate) (agents : List AgentType)
    (ended : List (Except Exc NodeUpdate)) (got' : AgentType → Option NodeUpdate)
    (snapshot : Option Snapshot) (log : List Progress) : Prop where
  inHand : InHand engine threadId initialState got' snapshot log
  results : List.Forall₂ (fun agentType r => ∀ u, r = .ok u → got' agentType = some u) agents ended
  others : ∀ agentType, agentType ∉ agents → got' agentType = got agentType

theorem runTasks_of {written : AgentType → Option NodeUpdate} (agents : List AgentType)
    (hnodup : agents.Nodup) (got : AgentType → Option NodeUpdate)
    (hgot : ∀ agentType ∈ agents, got agentType = written agentType) :
    Triple (checkpointer threadId) i (threadContract engine threadId initialState)
      (Of threadId (InHand engine threadId initialState got))
      (LangGraphWorkflowEngine.runTasks engine threadId initialState written agents)
      (ByResult (fun ended => Of threadId fun s log => ∃ got',
        Stepped engine threadId initialState got agents ended got' s log) fun _ _ => False) := by
  induction agents generalizing got with
  | nil => exact Triple.done stable_of fun db hdb => ⟨got, hdb, .nil, fun a _ => rfl⟩
  | cons agentType agents ih =>
    obtain ⟨hfresh, hrest⟩ := List.nodup_cons.mp hnodup
    rw [List.forall_mem_cons] at hgot
    cases hwritten : written agentType with
    | some u =>
      simp only [LangGraphWorkflowEngine.runTasks, hwritten]
      apply (ih hrest got hgot.2).bind
      · rintro ended db ⟨got', hstepped⟩
        refine Triple.done (P := Of threadId (Stepped engine threadId initialState got agents ended
          got')) stable_of (fun db hstepped => ?_) db hstepped
        refine ⟨got', hstepped.inHand, .cons ?_ hstepped.results, fun a ha => ?_⟩
        · intro v hv
          obtain rfl := Except.ok.inj hv
          rw [hstepped.others agentType hfresh, hgot.1, hwritten]
        · exact hstepped.others a fun hmem => ha (List.mem_cons_of_mem _ hmem)
      · exact fun e db hfalse => hfalse.elim
    | none =>
      have hnone : got agentType = none := hgot.1.trans hwritten
      simp only [LangGraphWorkflowEngine.runTasks, hwritten]
      apply (invoke_of (fun s log h => h.toSound) fun s log h => InHand.ran h hnone).attempt.bind
      · rintro ended db ⟨outcome, hok, hended, hdb⟩
        obtain rfl := Except.ok.inj hok
        refine Triple.bind (recordTask_of hnone hended) ?_ (fun e db hfalse => hfalse.elim) db hdb
        rintro - db ⟨got₁, hinhand, htaken, hkept⟩
        have hgot₁ : ∀ a ∈ agents, got₁ a = written a := by
          intro a ha
          rw [hkept a fun heq => hfresh (heq ▸ ha)]
          exact hgot.2 a ha
        refine Triple.bind (ih hrest got₁ hgot₁) ?_ (fun e db hfalse => hfalse.elim) db hinhand
        rintro rest db ⟨got₂, hstepped⟩
        refine Triple.done (P := Of threadId (Stepped engine threadId initialState got₁ agents rest
          got₂)) stable_of (fun db hstepped => ?_) db hstepped
        refine ⟨got₂, hstepped.inHand, .cons ?_ hstepped.results, fun a ha => ?_⟩
        · intro u hu
          rw [hstepped.others agentType hfresh]
          exact htaken u hu
        · rw [List.mem_cons, not_or] at ha
          rw [hstepped.others a ha.2, hkept a ha.1]
      · rintro e db ⟨outcome, hok, -⟩
        cases hok

/-- When no branch raised there is one result in hand for each specialist. -/
theorem results_total (order : BranchOrder) {got : AgentType → Option NodeUpdate}
    {updates : List NodeUpdate}
    (h : List.Forall₂ (fun agentType r => ∀ u, r = .ok u → got agentType = some u) order.agents
      (updates.map (Except.ok (ε := Exc)))) :
    ∃ update, (∀ agentType, got agentType = some (update agentType)) ∧
      updates = order.agents.map update := by
  have hmap : order.agents.map got = updates.map some := by
    rw [List.forall₂_map_right_iff] at h
    rw [← List.forall₂_eq_eq_eq, List.forall₂_map_left_iff, List.forall₂_map_right_iff]
    exact h.imp fun a u hu => hu u rfl
  have hgot : ∀ agentType, ∃ u, got agentType = some u := by
    intro agentType
    have hmem : got agentType ∈ updates.map some :=
      hmap ▸ List.mem_map_of_mem (order.complete agentType)
    obtain ⟨u, -, hu⟩ := List.mem_map.mp hmem
    exact ⟨u, hu.symm⟩
  choose update hupdate using hgot
  refine ⟨update, hupdate, List.map_injective_iff.mpr (Option.some_injective NodeUpdate) ?_⟩
  rw [← hmap, List.map_map]
  exact List.map_congr_left fun a _ => hupdate a

/-- A process that returns has the end of the run. -/
def Concludes (engine : WorkflowEngine) (threadId : String) (initialState : GraphState)
    (r : Except Exc GraphState) (db : CheckpointDb) : Prop :=
  ∀ final, r = .ok final → EndsRun engine threadId initialState db.log final

theorem runAggregate_of {update : AgentType → NodeUpdate} (written : Option (Review × String)) :
    Triple (checkpointer threadId) i (threadContract engine threadId initialState)
      (Of threadId (Merging engine threadId initialState update written))
      (LangGraphWorkflowEngine.runAggregate engine threadId (mergedOf engine initialState update)
        written)
      (ByResult (fun made => Of threadId (Merging engine threadId initialState update (some made)))
        fun _ _ => True) := by
  cases written with
  | some made => exact Triple.done stable_of fun db hdb => hdb
  | none =>
    apply (invoke_of (fun s log h => h.toSound) fun s log h => Merging.ran h).bind
    · rintro made db ⟨hmade, hdb⟩
      refine Triple.bind (perform_of (A := fun _ => Merging engine threadId initialState update
        (some made)) (fun _ s log h => h.toSound) ?_) ?_ (fun e db hfalse => hfalse.elim) db hdb
      · intro db choice db' answer hdb hperform
        obtain ⟨rfl, -⟩ := Prod.mk.inj (Option.some.inj hperform)
        by_cases hkept : choice.kept = true
        · rw [if_pos hkept]
          obtain hsame | ⟨s, s', hs, hs', hthread, hlog⟩ :=
            putWrites_cases db threadId (.aggregate made)
          · rw [hsame]
            exact Merging.take hdb hmade
          · rw [Of, hs] at hdb
            rw [Of, hthread, hlog]
            obtain ⟨w, rfl⟩ | ⟨w, rfl, -⟩ := hdb.waiting s rfl
            · cases hs'
            · obtain rfl := Option.some.inj hs'
              exact hdb.record hmade
        · rw [if_neg hkept]
          exact Merging.take hdb hmade
      · exact fun _ => Triple.done stable_of fun db hdb => hdb
    · exact fun e db h => trivial

theorem fanIn_of {update : AgentType → NodeUpdate} (written : Option (Review × String)) :
    Triple (checkpointer threadId) i (threadContract engine threadId initialState)
      (Of threadId (Merging engine threadId initialState update written))
      (LangGraphWorkflowEngine.fanIn engine threadId (mergedOf engine initialState update) written)
      (Concludes engine threadId initialState) := by
  apply (runAggregate_of written).bind
  · intro made
    refine Triple.bind (perform_of (A := fun _ s log => Sound engine threadId initialState s log ∧
      EndsRun engine threadId initialState log
        (WorkflowEngine.finalState (mergedOf engine initialState update) made))
      (fun _ s log h => h.1) ?_) ?_ fun e db hfalse => hfalse.elim
    · intro db choice db' answer hdb hperform
      obtain ⟨rfl, -⟩ := Prod.mk.inj (Option.some.inj hperform)
      have hends := hdb.endsRun
      split
      · refine ⟨⟨?_, hdb.settled⟩, hends⟩
        rw [CheckpointDb.put_threads]
        exact hends
      · exact ⟨hdb.toSound, hends⟩
    · intro _
      refine Triple.done (P := Of threadId fun s log => Sound engine threadId initialState s log ∧
        EndsRun engine threadId initialState log
          (WorkflowEngine.finalState (mergedOf engine initialState update) made))
        stable_of fun db hdb final hfinal => ?_
      obtain rfl := Except.ok.inj hfinal
      exact hdb.2
  · intro e db _ final hfinal
    cases hfinal

/-- The specialists' super-step, and what follows it. -/
theorem superstep_of (written : AgentType → Option NodeUpdate) :
    Triple (checkpointer threadId) i (threadContract engine threadId initialState)
      (Of threadId (InHand engine threadId initialState written))
      (LangGraphWorkflowEngine.proceed engine threadId ⟨initialState, .specialists written⟩)
      (Concludes engine threadId initialState) := by
  apply (runTasks_of engine.order.agents engine.order.nodup written fun a _ => rfl).bind
  · rintro ended db ⟨got, hstepped⟩
    cases hupdates : updatesOf ended with
    | error e =>
      refine Triple.done (P := Of threadId (Stepped engine threadId initialState written
        engine.order.agents ended got)) stable_of (fun db _ final hfinal => ?_) db hstepped
      cases hfinal
    | ok updates =>
      obtain rfl := updatesOf_ok.mp hupdates
      obtain ⟨update, hupdate, rfl⟩ := results_total engine.order hstepped.results
      refine Triple.bind (perform_of (P := InHand engine threadId initialState got)
        (A := fun _ => Merging engine threadId initialState update none)
        (fun _ s log h => h.toSound) ?_) ?_ (fun e db hfalse => hfalse.elim) db hstepped.inHand
      · intro db choice db' answer hdb hperform
        obtain ⟨rfl, -⟩ := Prod.mk.inj (Option.some.inj hperform)
        split
        · exact hdb.merge hupdate (Or.inr db.put_threads)
        · exact hdb.merge hupdate (Or.inl rfl)
      · exact fun _ => fanIn_of none
  · exact fun e db hfalse => hfalse.elim

/-- A resumption goes on from the checkpoint that it finds. -/
theorem resume_of : Triple (checkpointer threadId) i (threadContract engine threadId initialState)
    (Of threadId (Sound engine threadId initialState))
    (LangGraphWorkflowEngine.resume engine threadId) (Concludes engine threadId initialState) := by
  refine Triple.bind (perform_of (A := fun answer s log => answer = s ∧
    Sound engine threadId initialState s log) (fun _ s log h => h.2) ?_) ?_
    (fun e db hfalse => hfalse.elim)
  · intro db choice db' answer hdb hperform
    obtain ⟨rfl, rfl⟩ := Prod.mk.inj (Option.some.inj hperform)
    exact ⟨rfl, hdb⟩
  · rintro persisted db ⟨hpersisted, hsound⟩
    have haccounts := hsound.accounts
    rw [← hpersisted] at haccounts
    obtain _ | ⟨values, written | written | _⟩ := persisted
    · refine Triple.done (P := Of threadId (Sound engine threadId initialState)) stable_of
        (fun db _ final hfinal => ?_) db hsound
      cases hfinal
    · obtain ⟨rfl, hreturned, hrecorded, hunmade⟩ := haccounts
      refine superstep_of written db ⟨hsound, hreturned, hrecorded, hunmade, fun s hs => ?_⟩
      exact ⟨written, Option.some.inj (hs.symm.trans hpersisted.symm)⟩
    · obtain ⟨update, hbranches, rfl, hreturned, hrecorded⟩ := haccounts
      refine fanIn_of written db ⟨hsound, hbranches, hreturned, hrecorded, fun s hs => ?_⟩
      exact Or.inr ⟨written, Option.some.inj (hs.symm.trans hpersisted.symm), Or.inr rfl⟩
    · refine Triple.done (P := Of threadId fun _ log =>
        EndsRun engine threadId initialState log values) stable_of (fun db hdb final hfinal => ?_)
        db haccounts
      obtain rfl := Except.ok.inj hfinal
      exact hdb

/-- A run on a new thread starts from its input. -/
theorem run_of : Triple (checkpointer threadId) i (threadContract engine threadId initialState)
    (Of threadId fun s log => s = none ∧ Sound engine threadId initialState s log)
    (LangGraphWorkflowEngine.run engine threadId initialState)
    (Concludes engine threadId initialState) := by
  refine Triple.bind (perform_of (A := fun answer s log => answer = none ∧ s = none ∧
    Sound engine threadId initialState s log) (fun _ s log h => h.2.2) ?_) ?_
    (fun e db hfalse => hfalse.elim)
  · intro db choice db' answer hdb hperform
    obtain ⟨rfl, rfl⟩ := Prod.mk.inj (Option.some.inj hperform)
    exact ⟨hdb.1, hdb.1, hdb.2⟩
  · rintro persisted db ⟨rfl, hnone, hsound⟩
    refine Triple.bind (perform_of (P := fun s log => s = none ∧
      Sound engine threadId initialState s log)
      (A := fun _ => InHand engine threadId initialState fun _ => none)
      (fun _ s log h => h.toSound) ?_) ?_ (fun e db hfalse => hfalse.elim) db ⟨hnone, hsound⟩
    · rintro db choice db' answer ⟨hnone, hsound⟩ hperform
      obtain ⟨rfl, -⟩ := Prod.mk.inj (Option.some.inj hperform)
      have hlog : ∀ write, .recorded write ∉ db.log := by
        have haccounts := hsound.accounts
        rwa [hnone] at haccounts
      have hnothing : ∀ agentType u, (none : Option NodeUpdate) = some u →
          BranchMayReturn engine threadId initialState agentType u := by
        intro agentType u hu
        cases hu
      have hrecorded : ∀ agentType u, .recorded (.specialist agentType u) ∈ db.log →
          (none : Option NodeUpdate) = some u := fun agentType u hu => absurd hu (hlog _)
      split
      · refine ⟨⟨?_, hsound.settled⟩, hnothing, hrecorded, fun made => hlog _, fun s hs => ?_⟩
        · rw [CheckpointDb.put_threads]
          exact ⟨rfl, hnothing, hrecorded, fun made => hlog _⟩
        · rw [CheckpointDb.put_threads] at hs
          exact ⟨_, (Option.some.inj hs).symm⟩
      · refine ⟨hsound, hnothing, hrecorded, fun made => hlog _, fun s hs => ?_⟩
        rw [hnone] at hs
        cases hs
    · exact fun _ => superstep_of _

end

end ReviewAgent
