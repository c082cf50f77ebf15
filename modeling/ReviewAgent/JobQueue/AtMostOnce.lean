import ReviewAgent.JobQueue.RedisArq

/-! Concurrent calls of `enqueue`, when an attempt may take effect and still be reported as timed
out: how many jobs a delivery gets. -/
namespace ReviewAgent

open Effects

/-- An `enqueue_job` that placed its job although its caller stopped waiting for it. -/
def Attempt.isLostHandOff (a : Attempt) : Bool :=
  match a.op with
  | .enqueueJob .. => a.outcome == .timesOut true
  | _ => false

/-- An attempt that set the key of this delivery. -/
def Attempt.claims (deliveryId : String) (a : Attempt) : Bool :=
  match a.op with
  | .setNx key _ _ => a.applied && key == idempotencyKey deliveryId
  | _ => false

/-- No call makes another `enqueue_job` attempt after one it gave up had placed its job. -/
def noRepeatedHandOff : Condition (Guarded QueueSignature) (GuardWorld QueueWorld)
    (GuardChoice Outcome) (GuardMove Empty) where
  act i w op _ :=
    match op with
    | .dep (.enqueueJob ..) => (w.dep.attemptsOf i).any Attempt.isLostHandOff = false
    | _ => True
  move _ _ := True

instance (i w op c) : Decidable (noRepeatedHandOff.act i w op c) := by
  unfold noRepeatedHandOff
  dsimp only
  split <;> infer_instance

instance (w m) : Decidable (noRepeatedHandOff.move w m) := isTrue trivial

/-- The jobs on the queue for a delivery. -/
def QueueWorld.jobsFor (w : QueueWorld) (deliveryId : String) : ℕ :=
  w.jobs.countP fun job => job.event.deliveryId = deliveryId

/-- The call that set the delivery's key. -/
def QueueWorld.ClaimedBy (w : QueueWorld) (deliveryId : String) (caller : ℕ) : Prop :=
  (w.attemptsOf caller).any (Attempt.claims deliveryId) = true

/-- Between any two steps: keys have one claimant each, and no delivery has two jobs. -/
structure OneJobEach (w : QueueWorld) : Prop where
  atMostOne : ∀ d, w.jobsFor d ≤ 1
  keyOfJob : ∀ d, ¬ w.HasKey d → w.jobsFor d = 0
  keyOfClaim : ∀ d i, w.ClaimedBy d i → w.HasKey d
  oneClaimant : ∀ d i k, w.ClaimedBy d i → w.ClaimedBy d k → i = k

/-- A call touches its own attempts only, and places jobs only where it has set the key. -/
def caller (i : ℕ) : Contract QueueWorld where
  rely w w' := OneJobEach w → OneJobEach w' ∧ w'.attemptsOf i = w.attemptsOf i ∧
    ∀ d, w.ClaimedBy d i → w'.jobsFor d = w.jobsFor d
  guarantee w w' := OneJobEach w → OneJobEach w' ∧
    (∀ k, k ≠ i → w'.attemptsOf k = w.attemptsOf k) ∧
    ∀ d, w'.jobsFor d = w.jobsFor d ∨ w.ClaimedBy d i

theorem caller_compatible {i k : ℕ} (hik : i ≠ k) {w w' : QueueWorld}
    (hg : (caller i).guarantee w w') : (caller k).rely w w' := by
  intro hw
  obtain ⟨hw', hother, hjobs⟩ := hg hw
  refine ⟨hw', hother k (Ne.symm hik), ?_⟩
  intro d hk
  rcases hjobs d with he | hi
  · exact he
  · exact absurd (hw.oneClaimant d i k hi hk) hik

/-- Before the call has made any attempt. -/
def Unstarted (i : ℕ) (w : QueueWorld) : Prop := OneJobEach w ∧ w.attemptsOf i = []

/-- While the call asks for the key. -/
def Asking (i : ℕ) (w : QueueWorld) : Prop :=
  OneJobEach w ∧ (w.attemptsOf i).any Attempt.isLostHandOff = false

/-- While the call hands the job over: it has set the key, and no job is there unless one of its
own attempts placed it and was given up. -/
def Handing (i : ℕ) (deliveryId : String) (w : QueueWorld) : Prop :=
  OneJobEach w ∧ w.ClaimedBy deliveryId i ∧
    ((w.attemptsOf i).any Attempt.isLostHandOff = false → w.jobsFor deliveryId = 0)

section

variable {i : ℕ} {deliveryId : String}

theorem oneJobEach_stable : Stable (caller i).rely OneJobEach := fun _ _ hr hw => (hr hw).1

theorem unstarted_stable : Stable (caller i).rely (Unstarted i) := by
  rintro w w' hr ⟨hw, ha⟩
  obtain ⟨hw', he, -⟩ := hr hw
  exact ⟨hw', he ▸ ha⟩

theorem asking_stable : Stable (caller i).rely (Asking i) := by
  rintro w w' hr ⟨hw, ha⟩
  obtain ⟨hw', he, -⟩ := hr hw
  exact ⟨hw', he ▸ ha⟩

theorem handing_stable : Stable (caller i).rely (Handing i deliveryId) := by
  rintro w w' hr ⟨hw, hc, hj⟩
  obtain ⟨hw', he, hjobs⟩ := hr hw
  refine ⟨hw', ?_, ?_⟩
  · simpa only [QueueWorld.ClaimedBy, he] using hc
  · simpa only [he, hjobs _ hc] using hj

end

section

variable {w : QueueWorld} {i k ex : ℕ} {d deliveryId value function : String}
  {event : WebhookEvent} {o : Outcome}

theorem attemptsOf_setNx_ne {key : String} (h : k ≠ i) :
    (w.setNx i key value ex o).attemptsOf k = w.attemptsOf k := by
  simp [QueueWorld.attemptsOf, QueueWorld.setNx, Ne.symm h]

theorem attemptsOf_enqueueJob_ne (h : k ≠ i) :
    (w.enqueueJob i function event o).attemptsOf k = w.attemptsOf k := by
  simp [QueueWorld.attemptsOf, QueueWorld.enqueueJob, Ne.symm h]

theorem hasKey_setNx_iff : (w.setNx i (idempotencyKey deliveryId) value ex o).HasKey d ↔
    w.HasKey d ∨ o.applies = true ∧ d = deliveryId := by
  have hinj : idempotencyKey d = idempotencyKey deliveryId ↔ d = deliveryId :=
    ⟨idempotencyKey_injective, fun h => h ▸ rfl⟩
  by_cases hk : idempotencyKey deliveryId ∈ w.keys <;> cases ho : o.applies <;>
    simp_all [QueueWorld.HasKey, QueueWorld.setNx]
  exact or_comm

/-- Setting a key makes the caller its claimant when the key was free and the attempt took
effect, and changes no other claim. -/
theorem claimedBy_setNx : (w.setNx i (idempotencyKey deliveryId) value ex o).ClaimedBy d k ↔
    w.ClaimedBy d k ∨ k = i ∧ o.applies = true ∧ ¬ w.HasKey deliveryId ∧ d = deliveryId := by
  by_cases hk : k = i
  · subst hk
    have hinj : idempotencyKey deliveryId = idempotencyKey d ↔ d = deliveryId :=
      ⟨fun h => (idempotencyKey_injective h).symm, fun h => h ▸ rfl⟩
    simp only [QueueWorld.ClaimedBy, attemptsOf_setNx, List.any_cons, Bool.or_eq_true,
      Attempt.claims, Bool.and_eq_true, beq_iff_eq, hinj, decide_eq_true_eq, QueueWorld.HasKey]
    tauto
  · simp [QueueWorld.ClaimedBy, attemptsOf_setNx_ne hk, hk]

theorem claimedBy_enqueueJob :
    (w.enqueueJob i function event o).ClaimedBy d k ↔ w.ClaimedBy d k := by
  by_cases hk : k = i
  · subst hk
    simp [QueueWorld.ClaimedBy, attemptsOf_enqueueJob, Attempt.claims]
  · simp [QueueWorld.ClaimedBy, attemptsOf_enqueueJob_ne hk]

theorem jobsFor_enqueueJob : (w.enqueueJob i function event o).jobsFor d =
    w.jobsFor d + if o.applies = true ∧ event.deliveryId = d then 1 else 0 := by
  cases ho : o.applies <;> simp [QueueWorld.jobsFor, QueueWorld.enqueueJob, ho, List.countP_cons]

theorem OneJobEach.setNx (h : OneJobEach w) :
    OneJobEach (w.setNx i (idempotencyKey deliveryId) value ex o) where
  atMostOne := h.atMostOne
  keyOfJob d hd := h.keyOfJob d fun hk => hd (hasKey_setNx_iff.mpr (Or.inl hk))
  keyOfClaim d k hc := by
    rcases claimedBy_setNx.mp hc with hc | ⟨-, ho, -, hd⟩
    · exact hasKey_setNx_iff.mpr (Or.inl (h.keyOfClaim d k hc))
    · exact hasKey_setNx_iff.mpr (Or.inr ⟨ho, hd⟩)
  oneClaimant d k k' hc hc' := by
    rcases claimedBy_setNx.mp hc with hc | ⟨hi, -, hk, hd⟩ <;>
      rcases claimedBy_setNx.mp hc' with hc' | ⟨hi', -, hk', hd'⟩
    · exact h.oneClaimant d k k' hc hc'
    · exact absurd (hd' ▸ h.keyOfClaim d k hc) hk'
    · exact absurd (hd ▸ h.keyOfClaim d k' hc') hk
    · exact hi.trans hi'.symm

/-- Placing a job keeps the invariant when the caller holds the key and no job is there yet. -/
theorem OneJobEach.enqueueJob (h : OneJobEach w) (hc : w.ClaimedBy event.deliveryId i)
    (hj : w.jobsFor event.deliveryId = 0) : OneJobEach (w.enqueueJob i function event o) where
  atMostOne d := by
    rw [jobsFor_enqueueJob]
    have := h.atMostOne d
    split
    · rename_i hd
      rw [← hd.2, hj]
    · omega
  keyOfJob d hd := by
    rw [jobsFor_enqueueJob, h.keyOfJob d hd, if_neg]
    rintro ⟨-, rfl⟩
    exact hd (h.keyOfClaim _ _ hc)
  keyOfClaim d k hk := h.keyOfClaim d k (claimedBy_enqueueJob.mp hk)
  oneClaimant d k k' hk hk' :=
    h.oneClaimant d k k' (claimedBy_enqueueJob.mp hk) (claimedBy_enqueueJob.mp hk')

end

/-- After an attempt to set the key. -/
def AfterAsk (i : ℕ) (deliveryId : String) : Except Exc Bool → QueueWorld → Prop
  | .ok true, w => Handing i deliveryId w
  | .ok false, w => Asking i w
  | .error _, w => Asking i w

/-- After an `enqueue_job` attempt. -/
def AfterPlace (i : ℕ) (deliveryId : String) : Except Exc Unit → QueueWorld → Prop
  | .ok _, w => OneJobEach w
  | .error _, w => Handing i deliveryId w

section

variable {queue : RedisJobQueue} {inst : ℕ → ℕ} {i : ℕ} {w : QueueWorld} {o : Outcome}
  {event : WebhookEvent} {deliveryId value : String} {ex : ℕ}

theorem afterAsk_stable (r : Except Exc Bool) :
    Stable (caller i).rely (AfterAsk i deliveryId r) := by
  rcases r with _ | _ | _
  · exact asking_stable
  · exact asking_stable
  · exact handing_stable

theorem afterPlace_stable (r : Except Exc Unit) :
    Stable (caller i).rely (AfterPlace i deliveryId r) := by
  cases r with
  | ok u => exact oneJobEach_stable
  | error e => exact handing_stable

theorem Asking.setNx (h : Asking i w) :
    AfterAsk i deliveryId
      (awaitFuture queue.timeoutPolicy
        (o.future (decide (idempotencyKey deliveryId ∉ w.keys))))
      (w.setNx i (idempotencyKey deliveryId) value ex o) := by
  have hasking : Asking i (w.setNx i (idempotencyKey deliveryId) value ex o) :=
    ⟨h.1.setNx, by simp [attemptsOf_setNx, Attempt.isLostHandOff, h.2]⟩
  cases o with
  | replies =>
    by_cases hk : idempotencyKey deliveryId ∈ w.keys
    · simp only [Outcome.future, awaitFuture, hk, not_true_eq_false, decide_false]
      exact hasking
    · simp only [Outcome.future, awaitFuture, hk, not_false_eq_true, decide_true]
      exact ⟨hasking.1, claimedBy_setNx.mpr (Or.inr ⟨rfl, rfl, hk, rfl⟩),
        fun _ => h.1.keyOfJob deliveryId hk⟩
  | raises e => exact hasking
  | timesOut applied => exact hasking

theorem Handing.enqueueJob {function : String} (h : Handing i event.deliveryId w)
    (hlost : (w.attemptsOf i).any Attempt.isLostHandOff = false) :
    AfterPlace i event.deliveryId (awaitFuture queue.timeoutPolicy (o.future ()))
      (w.enqueueJob i function event o) := by
  obtain ⟨hw, hc, hj⟩ := h
  have hone : OneJobEach (w.enqueueJob i function event o) := hw.enqueueJob hc (hj hlost)
  cases ho : awaitFuture queue.timeoutPolicy (o.future ()) with
  | ok u => exact hone
  | error e =>
    refine ⟨hone, claimedBy_enqueueJob.mpr hc, ?_⟩
    rw [attemptsOf_enqueueJob, jobsFor_enqueueJob, hj hlost]
    cases o with
    | replies => cases ho
    | raises e => simp [Outcome.applies]
    | timesOut applied => cases applied <;> simp [Outcome.applies, Attempt.isLostHandOff]

theorem ask_triple :
    Triple ((queueMachine inst).under noRepeatedHandOff) i (onDep (caller i))
      (fun w => Asking i w.dep)
      (queue.callReliably (queue.setIdempotencyKey (idempotencyKey deliveryId))) fun r w =>
        AfterAsk i deliveryId r w.dep := by
  have hattempt : Triple ((queueMachine inst).under noRepeatedHandOff) i (onDep (caller i))
      (fun w => Asking i w.dep)
      (queue.setIdempotencyKey (idempotencyKey deliveryId)) fun r w =>
        AfterAsk i deliveryId r w.dep := by
    apply decode_triple asking_stable afterAsk_stable
    intro w c w' answer hw h
    obtain ⟨o, -, hd, rfl⟩ := perform_setNx (Machine.perform_under.mp h).2
    refine ⟨Or.inr ?_, hd ▸ hw.setNx⟩
    intro hone
    rw [hd]
    exact ⟨hone.setNx, fun k hk => attemptsOf_setNx_ne hk, fun d => Or.inl rfl⟩
  apply callReliably_triple (Machine.under_within _ _) (I := fun _ => Asking i)
    (R := fun _ => AfterAsk i deliveryId) (fun _ => asking_stable)
    (fun _ => afterAsk_stable) afterAsk_stable
  · exact fun _ _ _ => hattempt
  · intro n w c w' e _ _ hw h
    have hd := guardPerform_dep (Machine.perform_under.mp h).2 (by simp)
    simpa only [AfterAsk, hd] using hw
  · exact fun _ _ _ h => h
  · exact fun _ _ _ _ h => h
  · exact fun _ _ _ _ _ h => h
  · exact fun _ _ _ h => h
  · exact fun _ _ _ _ h => h

theorem hand_triple :
    Triple ((queueMachine inst).under noRepeatedHandOff) i (onDep (caller i))
      (fun w => Handing i event.deliveryId w.dep)
      (queue.callReliably (queue.enqueueArqJob event)) fun _ w => OneJobEach w.dep := by
  have hattempt : Triple ((queueMachine inst).under noRepeatedHandOff) i (onDep (caller i))
      (fun w => Handing i event.deliveryId w.dep) (queue.enqueueArqJob event) fun r w =>
        AfterPlace i event.deliveryId r w.dep := by
    apply decode_triple handing_stable afterPlace_stable
    intro w c w' answer hw h
    obtain ⟨hlost, h⟩ := Machine.perform_under.mp h
    obtain ⟨o, -, hd, rfl⟩ := perform_enqueueJob h
    refine ⟨Or.inr ?_, hd ▸ hw.enqueueJob hlost⟩
    intro hone
    rw [hd]
    refine ⟨hone.enqueueJob hw.2.1 (hw.2.2 hlost), fun k hk => attemptsOf_enqueueJob_ne hk, ?_⟩
    intro d
    by_cases he : event.deliveryId = d
    · exact Or.inr (he ▸ hw.2.1)
    · exact Or.inl (by simp [jobsFor_enqueueJob, he])
  apply callReliably_triple (Machine.under_within _ _) (I := fun _ => Handing i event.deliveryId)
    (R := fun _ => AfterPlace i event.deliveryId) (Q := fun _ => OneJobEach)
    (fun _ => handing_stable) (fun _ => afterPlace_stable) (fun _ => oneJobEach_stable)
  · exact fun _ _ _ => hattempt
  · intro n w c w' e _ _ hw h
    have hd := guardPerform_dep (Machine.perform_under.mp h).2 (by simp)
    simpa only [AfterPlace, hd] using hw
  · exact fun _ _ _ h => h
  · exact fun _ _ _ _ h => h.1
  · exact fun _ _ _ _ _ h => h
  · exact fun _ _ _ h => h.1
  · exact fun _ _ _ _ h => h.1

theorem enqueue_once_triple :
    Triple ((queueMachine inst).under noRepeatedHandOff) i (onDep (caller i))
      (fun w => Unstarted i w.dep) (queue.enqueue event) fun _ w => OneJobEach w.dep := by
  have hask : Triple ((queueMachine inst).under noRepeatedHandOff) i (onDep (caller i))
      (fun w => Unstarted i w.dep)
      (queue.callReliably (queue.setIdempotencyKey (idempotencyKey event.deliveryId))) fun r w =>
        AfterAsk i event.deliveryId r w.dep :=
    ask_triple.pre fun w hw => ⟨hw.1, by simp [hw.2]⟩
  apply hask.bind
  · rintro (_ | _)
    · exact Triple.pure (stable_onDep asking_stable) fun w hw => hw.1
    · apply hand_triple.bind
      · exact fun u => Triple.pure (stable_onDep oneJobEach_stable) fun w hw => hw
      · exact fun _ _ hw => hw
  · exact fun e w hw => hw.1

/-- In every interleaving of calls in which no call repeats a hand-off it gave up although it had
placed the job, no delivery ever has two jobs. -/
theorem at_most_one_job {w : GuardWorld QueueWorld}
    {ss : List (Machine.Sched (GuardChoice Outcome) (GuardMove Empty) WebhookEvent)}
    {c : Machine.Config (Guarded QueueSignature) Exc EnqueueResult (GuardWorld QueueWorld)}
    (hw : w.dep = {})
    (hrun : (queueMachine inst).exec queue.enqueue ⟨w, []⟩ ss = some c)
    (hobey : (queueMachine inst).AllObey noRepeatedHandOff queue.enqueue ⟨w, []⟩ ss) :
    ∀ d, c.world.dep.jobsFor d ≤ 1 := by
  have hempty : OneJobEach w.dep := by
    rw [hw]
    constructor <;> simp [QueueWorld.jobsFor, QueueWorld.ClaimedBy, QueueWorld.attemptsOf]
  have hstart : Configured ((queueMachine inst).under noRepeatedHandOff)
      (fun i => onDep (caller i)) (fun (_ : WebhookEvent) _ _ w => OneJobEach w.dep)
      (fun i w => Unstarted i w.dep)
      (⟨w, []⟩ : Machine.Config (Guarded QueueSignature) Exc EnqueueResult _) :=
    ⟨by simp, fun i _ => ⟨hempty, by simp [hw, QueueWorld.attemptsOf]⟩⟩
  have hend := hstart.exec (fun _ _ => enqueue_once_triple) ?_ ?_
    (fun k => stable_onDep unstarted_stable) (Machine.exec_under hrun hobey)
  · exact (hend.fresh _ (Nat.le_refl _)).1.atMostOne
  · rintro i k w w' hik (he | hg)
    · exact Or.inl he
    · exact Or.inr (caller_compatible hik hg)
  · exact fun k w m w' h => Or.inl (queueMove_dep (Machine.move_under.mp h).2)

end

/-- The schedule of one attempt of call `i`. -/
def callAttempts (i : ℕ) (o : Outcome) :
    List (Machine.Sched (GuardChoice Outcome) (GuardMove Empty) WebhookEvent) :=
  [.act i .go, .act i (.dep o), .act i .go]

/-- One call whose `enqueue_job` places the job, times out, and is retried. -/
def repeatedHandOff :
    List (Machine.Sched (GuardChoice Outcome) (GuardMove Empty) WebhookEvent) :=
  .start .sample :: callAttempts 0 .replies ++ callAttempts 0 (.timesOut true) ++
    [.act 0 (.rand 0)] ++ callAttempts 0 .replies

theorem two_jobs_for_one_delivery :
    ∃ c, (queueMachine id).exec RedisJobQueue.default.enqueue ⟨QueueWorld.initial, []⟩
        repeatedHandOff = some c ∧
      c.world.dep.jobsFor WebhookEvent.sample.deliveryId = 2 := by
  have hreach : (queueMachine id).reaches RedisJobQueue.default.enqueue ⟨QueueWorld.initial, []⟩
      repeatedHandOff (fun w => decide (w.dep.jobsFor WebhookEvent.sample.deliveryId = 2)) =
        true := by
    decide +kernel
  obtain ⟨c, hrun, hcheck⟩ := Machine.exists_of_reaches hreach
  exact ⟨c, hrun, of_decide_eq_true hcheck⟩

/-- Two calls for one delivery, interleaved: the first sets the key, the second is told so, and
the first hands its job over at the second attempt. -/
def racingCalls :
    List (Machine.Sched (GuardChoice Outcome) (GuardMove Empty) WebhookEvent) :=
  [.start .sample, .start .sample, .act 0 .go, .act 1 .go, .act 0 (.dep .replies),
    .act 1 (.dep .replies), .act 0 .go, .act 1 .go] ++ callAttempts 0 (.timesOut false) ++
    [.act 0 (.rand 0)] ++ callAttempts 0 .replies

theorem at_most_one_job_racingCalls :
    ∃ c, (queueMachine id).exec RedisJobQueue.default.enqueue ⟨QueueWorld.initial, []⟩
        racingCalls = some c ∧
      c.world.dep.HasJob WebhookEvent.sample.deliveryId ∧ ∀ d, c.world.dep.jobsFor d ≤ 1 := by
  have hreach : (queueMachine id).reaches RedisJobQueue.default.enqueue ⟨QueueWorld.initial, []⟩
      racingCalls (fun w => decide (w.dep.HasJob WebhookEvent.sample.deliveryId)) = true := by
    decide +kernel
  obtain ⟨c, hrun, hcheck⟩ := Machine.exists_of_reaches hreach
  exact ⟨c, hrun, of_decide_eq_true hcheck, at_most_one_job rfl hrun (by decide +kernel)⟩

end ReviewAgent
