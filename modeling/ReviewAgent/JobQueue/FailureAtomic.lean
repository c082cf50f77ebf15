import ReviewAgent.JobQueue.RedisArq

/-! Redeliveries one after the other, when a failing attempt on Redis has no effect: what a 503
leaves behind. -/
namespace ReviewAgent

open Effects

/-- An attempt after which its caller owns the key of a delivery that has no job. -/
def Attempt.holdsKey (a : Attempt) : Bool :=
  match a.op with
  | .setNx .. => a.applied
  | .enqueueJob .. => !a.applied
  | .answer .. => false

/-- An `enqueue_job` attempt that placed nothing. -/
def Attempt.isFailedHandOff (a : Attempt) : Bool :=
  match a.op with
  | .enqueueJob .. => !a.applied
  | _ => false

/-- The last attempt left a delivery with its key set and its job still to be placed. -/
def QueueWorld.handingOff (w : QueueWorld) : Bool := w.history.head?.any Attempt.holdsKey

/-- The `enqueue_job` attempts that have failed since the key was set. -/
def QueueWorld.failedHandOffs (w : QueueWorld) : ℕ :=
  (w.history.takeWhile Attempt.isFailedHandOff).length

/-- Every attempt on Redis that fails does so with no effect. -/
def cleanAttempts : Condition (Guarded QueueSignature) (GuardWorld QueueWorld)
    (GuardChoice Outcome) (GuardMove Empty) where
  act _ _ op c :=
    match op, c with
    | .dep _, .dep o => o.Clean
    | _, _ => True
  move _ _ := True

instance : ∀ i w op c, Decidable (cleanAttempts.act i w op c)
  | _, _, .dep _, .dep o => inferInstanceAs (Decidable o.Clean)
  | _, _, .dep _, .go | _, _, .dep _, .rand _ | _, _, .admission, _ | _, _, .recordFailure, _
  | _, _, .recordSuccess, _ | _, _, .sleep _, _ | _, _, .rand, _ => isTrue trivial

/-- The second stage of `enqueue` never gives up: while the key is set and the job is not placed
the breaker lets every attempt through, and an attempt that fails is retried. -/
def handOffPersists (queue : RedisJobQueue) (inst : ℕ → ℕ) :
    Condition (Guarded QueueSignature) (GuardWorld QueueWorld) (GuardChoice Outcome)
      (GuardMove Empty) where
  act i w op c :=
    match op, c with
    | .admission, _ => w.dep.handingOff = true → (w.breaker (inst i)).admits w.clock = true
    | .dep (.enqueueJob ..), .dep o =>
      match awaitFuture queue.timeoutPolicy (o.future ()) with
      | .ok _ => True
      | .error e => Retryable queueNonRetryableExceptions e ∧
          w.dep.failedHandOffs + 1 < queue.retryPolicy.attemptLimit
    | _, _ => True
  move _ _ := True

/-- A condition on an attempt that is not answered. -/
def decidableUnlessOk {P : Exc → Prop} [DecidablePred P] :
    ∀ result : Except Exc Unit, Decidable (match result with | .ok _ => True | .error e => P e)
  | .ok _ => isTrue trivial
  | .error e => inferInstanceAs (Decidable (P e))

instance (queue : RedisJobQueue) (inst : ℕ → ℕ) :
    ∀ i w op c, Decidable ((handOffPersists queue inst).act i w op c)
  | _, _, .admission, _ => inferInstanceAs (Decidable (_ = true → _ = true))
  | _, w, .dep (.enqueueJob ..), .dep o =>
    decidableUnlessOk (P := fun e => Retryable queueNonRetryableExceptions e ∧
      w.dep.failedHandOffs + 1 < queue.retryPolicy.attemptLimit)
      (awaitFuture queue.timeoutPolicy (o.future ()))
  | _, _, .dep (.enqueueJob ..), .go | _, _, .dep (.enqueueJob ..), .rand _
  | _, _, .dep (.setNx ..), _ | _, _, .dep (.answer ..), _ | _, _, .recordFailure, _
  | _, _, .recordSuccess, _ | _, _, .sleep _, _ | _, _, .rand, _ => isTrue trivial

/-- Redis is reachable and the breaker lets calls through. -/
def healthyRedis (inst : ℕ → ℕ) : Condition (Guarded QueueSignature) (GuardWorld QueueWorld)
    (GuardChoice Outcome) (GuardMove Empty) where
  act i w op c :=
    match op, c with
    | .admission, _ => (w.breaker (inst i)).admits w.clock = true
    | .dep _, .dep o => o = .replies
    | _, _ => True
  move _ _ := True

instance (inst : ℕ → ℕ) : ∀ i w op c, Decidable ((healthyRedis inst).act i w op c)
  | _, _, .admission, _ => inferInstanceAs (Decidable (_ = true))
  | _, _, .dep _, .dep o => inferInstanceAs (Decidable (o = .replies))
  | _, _, .dep _, .go | _, _, .dep _, .rand _ | _, _, .recordFailure, _
  | _, _, .recordSuccess, _ | _, _, .sleep _, _ | _, _, .rand, _ => isTrue trivial

/-- The environment's moves are unconstrained by each of the three. -/
instance (queue : RedisJobQueue) (inst : ℕ → ℕ) (w m) :
    Decidable ((handOffPersists queue inst).move w m) := isTrue trivial

instance (w m) : Decidable (cleanAttempts.move w m) := isTrue trivial

instance (inst : ℕ → ℕ) (w m) : Decidable ((healthyRedis inst).move w m) := isTrue trivial

/-- Every delivery whose key is set has its job. -/
def Settled (w : QueueWorld) : Prop := ∀ deliveryId, w.HasKey deliveryId → w.HasJob deliveryId

/-- Every key but that of one delivery is settled. -/
def SettledBut (deliveryId : String) (w : QueueWorld) : Prop :=
  ∀ d, d ≠ deliveryId → w.HasKey d → w.HasJob d

def Answered.isUnavailable (a : Answered) : Bool :=
  match a.answer with
  | .httpException 503 _ => true
  | _ => false

def Answered.isDuplicate (a : Answered) : Bool := a.answer == .json "duplicate" a.deliveryId

/-- An answer that left while Redis was settled, and acknowledged nothing but placed jobs. -/
structure Answered.Sound (a : Answered) : Prop where
  settled : a.keySet = true → a.jobPlaced = true
  acknowledged : ∀ status d, a.answer = .json status d → a.jobPlaced = true

def SoundAnswers (w : QueueWorld) : Prop := ∀ a ∈ w.answers, a.Sound

/-- Nobody but the caller acts on Redis, and every answer it gives is sound. -/
def solo : Contract QueueWorld where
  rely _ _ := False
  guarantee w w' := SoundAnswers w → SoundAnswers w'

theorem solo_stable (P : QueueWorld → Prop) : Stable solo.rely P := fun _ _ h _ => h.elim

section

variable {w : QueueWorld} {i ex : ℕ} {key value d : String} {event : WebhookEvent} {o : Outcome}

theorem setNx_of_not_applied (h : o.applies = false ∨ key ∈ w.keys) :
    (w.setNx i key value ex o).keys = w.keys := by
  rcases h with h | h <;> simp [QueueWorld.setNx, h]

end

/-- Between sequential calls: no key without its job, and every answer so far was sound. -/
def AtRest (w : QueueWorld) : Prop := Settled w ∧ SoundAnswers w

theorem AtRest.congr {w w' : QueueWorld} (h : AtRest w) (hk : w'.keys = w.keys)
    (hj : w'.jobs = w.jobs) (ha : w'.answers = w.answers) : AtRest w' := by
  simpa only [AtRest, Settled, SoundAnswers, QueueWorld.HasKey, QueueWorld.HasJob, hk, hj, ha]
    using h

/-- Before `enqueue_job` attempt `n` for a delivery whose key this caller has set. -/
structure Owing (queue : RedisJobQueue) (deliveryId : String) (n : ℕ) (w : QueueWorld) : Prop where
  others : SettledBut deliveryId w
  sound : SoundAnswers w
  handingOff : w.handingOff = true
  failed : w.failedHandOffs + 1 = n
  within : n ≤ queue.retryPolicy.attemptLimit

/-- After an attempt to set the key. -/
def AfterSetNx (queue : RedisJobQueue) (deliveryId : String) : Except Exc Bool → QueueWorld → Prop
  | .ok true, w => Owing queue deliveryId 1 w
  | .ok false, w => AtRest w ∧ w.HasJob deliveryId
  | .error _, w => AtRest w

/-- After `enqueue_job` attempt `n`. -/
def AfterHandOff (queue : RedisJobQueue) (deliveryId : String) (n : ℕ) :
    Except Exc Unit → QueueWorld → Prop
  | .ok _, w => AtRest w ∧ w.HasJob deliveryId
  | .error e, w => Retryable queueNonRetryableExceptions e ∧
      n < queue.retryPolicy.attemptLimit ∧ Owing queue deliveryId (n + 1) w

section

variable {queue : RedisJobQueue} {inst : ℕ → ℕ} {i : ℕ} {deliveryId : String}

/-- The steps of the sequential setting that the condition admits. -/
noncomputable abbrev persistentRedis (queue : RedisJobQueue) (inst : ℕ → ℕ) :
    Machine (Guarded QueueSignature) (GuardWorld QueueWorld) (GuardChoice Outcome)
      (GuardMove Empty) :=
  (queueMachine inst).under (cleanAttempts.and (handOffPersists queue inst))

theorem persistentRedis_within : (persistentRedis queue inst).Within (queueMachine inst) :=
  Machine.under_within _ _

/-- The key is set now, and every other key has its job. -/
theorem owing_of_setNx {w : QueueWorld} {value : String} {ex : ℕ} (h : AtRest w)
    (hk : idempotencyKey deliveryId ∉ w.keys) :
    Owing queue deliveryId 1 (w.setNx i (idempotencyKey deliveryId) value ex .replies) where
  others := by
    intro d hd hkey
    apply h.1
    simp only [QueueWorld.HasKey, QueueWorld.setNx, Outcome.applies, hk] at hkey ⊢
    rcases List.mem_cons.mp (by simpa using hkey) with he | hm
    · exact absurd (idempotencyKey_injective he) hd
    · exact hm
  sound := h.2
  handingOff := by simp [QueueWorld.handingOff, QueueWorld.setNx, Attempt.holdsKey,
    Outcome.applies, hk]
  failed := by simp [QueueWorld.failedHandOffs, QueueWorld.setNx, Attempt.isFailedHandOff]
  within := queue.retryPolicy.one_le_attemptLimit

theorem setIdempotencyKey_triple :
    Triple (persistentRedis queue inst) i (onDep solo) (fun w => AtRest w.dep)
      (queue.setIdempotencyKey (idempotencyKey deliveryId)) fun r w =>
        AfterSetNx queue deliveryId r w.dep := by
  apply decode_triple (solo_stable _) fun _ => solo_stable _
  intro w c w' answer hw h
  obtain ⟨hc, h⟩ := Machine.perform_under.mp h
  obtain ⟨o, rfl, hd, rfl⟩ := perform_setNx h
  have hclean : o.Clean := hc.1
  refine ⟨Or.inr fun hs => hd ▸ hs, ?_⟩
  rw [hd]
  cases o with
  | replies =>
    by_cases hk : idempotencyKey deliveryId ∈ w.dep.keys
    · simp only [Outcome.future, awaitFuture, hk, not_true_eq_false, decide_false]
      exact ⟨hw.congr (setNx_of_not_applied (Or.inr hk)) rfl rfl, hw.1 deliveryId hk⟩
    · simp only [Outcome.future, awaitFuture, hk, not_false_eq_true, decide_true]
      exact owing_of_setNx hw hk
  | raises e => exact hw.congr (setNx_of_not_applied (Or.inl rfl)) rfl rfl
  | timesOut applied =>
    cases applied with
    | false => exact hw.congr (setNx_of_not_applied (Or.inl rfl)) rfl rfl
    | true => exact absurd rfl hclean

theorem enqueueArqJob_triple {event : WebhookEvent} {n : ℕ} :
    Triple (persistentRedis queue inst) i (onDep solo)
      (fun w => Owing queue event.deliveryId n w.dep) (queue.enqueueArqJob event) fun r w =>
        AfterHandOff queue event.deliveryId n r w.dep := by
  apply decode_triple (P := Owing queue event.deliveryId n) (solo_stable _) fun _ => solo_stable _
  intro w c w' answer hw h
  obtain ⟨hc, h⟩ := Machine.perform_under.mp h
  obtain ⟨o, rfl, hd, rfl⟩ := perform_enqueueJob h
  have hclean : o.Clean := hc.1
  refine ⟨Or.inr fun hs => hd ▸ hs, ?_⟩
  rw [hd]
  cases ha : awaitFuture queue.timeoutPolicy (o.future ()) with
  | ok a =>
    obtain ⟨rfl, -⟩ := Outcome.replies_of_future (awaitFuture_ok.mp ha)
    refine ⟨⟨?_, hw.sound⟩, hasJob_of_applies rfl⟩
    intro d hkey
    by_cases he : d = event.deliveryId
    · exact he ▸ hasJob_of_applies rfl
    · exact hasJob_of_hasJob (hw.others d he hkey)
  | error e =>
    have hgo := hc.2
    simp only [handOffPersists, ha] at hgo
    obtain ⟨hre, hn⟩ := hgo
    have happ : o.applies = false := by
      cases hb : o.applies with
      | false => rfl
      | true =>
        rw [Outcome.replies_of_clean hclean hb] at ha
        cases ha
    have hn : n < queue.retryPolicy.attemptLimit := hw.failed ▸ hn
    refine ⟨hre, hn, ?_, hw.sound, ?_, ?_, hn⟩
    · exact fun d he hkey => hasJob_of_hasJob (hw.others d he hkey)
    · simp [QueueWorld.handingOff, QueueWorld.enqueueJob, Attempt.holdsKey, happ]
    · simpa [QueueWorld.failedHandOffs, QueueWorld.enqueueJob, Attempt.isFailedHandOff, happ]
        using hw.failed

theorem claimKey_triple :
    Triple (persistentRedis queue inst) i (onDep solo) (fun w => AtRest w.dep)
      (queue.callReliably (queue.setIdempotencyKey (idempotencyKey deliveryId))) fun r w =>
        AfterSetNx queue deliveryId r w.dep := by
  apply callReliably_triple persistentRedis_within (I := fun _ => AtRest)
    (R := fun _ => AfterSetNx queue deliveryId) (fun _ => solo_stable _)
    (fun _ _ => solo_stable _) (fun _ => solo_stable _)
  · exact fun _ _ _ => setIdempotencyKey_triple
  · intro n w c w' e _ _ hw h
    have hd := guardPerform_dep (persistentRedis_within.perform _ _ _ _ _ h) (by simp)
    simpa only [AfterSetNx, hd] using hw
  · exact fun _ _ _ h => h
  · exact fun _ _ _ _ h => h
  · exact fun _ _ _ _ _ h => h
  · exact fun _ _ _ h => h
  · exact fun _ _ _ _ h => h

/-- The second stage ends only with the job placed. -/
theorem handOff_triple {event : WebhookEvent} :
    Triple (persistentRedis queue inst) i (onDep solo)
      (fun w => Owing queue event.deliveryId 1 w.dep)
      (queue.callReliably (queue.enqueueArqJob event)) fun r w =>
        (∃ u, r = .ok u) ∧ AtRest w.dep ∧ w.dep.HasJob event.deliveryId := by
  apply callReliably_triple persistentRedis_within (I := Owing queue event.deliveryId)
    (R := AfterHandOff queue event.deliveryId)
    (Q := fun r w => (∃ u, r = .ok u) ∧ AtRest w ∧ w.HasJob event.deliveryId)
    (fun _ => solo_stable _) (fun _ _ => solo_stable _) (fun _ => solo_stable _)
  · exact fun _ _ _ => enqueueArqJob_triple
  · intro n w c w' e _ _ hw h
    obtain ⟨hc, h⟩ := Machine.perform_under.mp h
    have hadmits := hc.2 hw.handingOff
    exact absurd (perform_admission h).2.symm (CircuitBreaker.admission_ne_error hadmits e)
  · exact fun _ a _ h => ⟨⟨a, rfl⟩, h⟩
  · exact fun _ _ _ hn h => absurd h.1 hn
  · exact fun _ _ _ _ _ h => h.2.2
  · intro e w _ h
    have := h.2.1
    simp only [RetryPolicy.attemptLimit] at this
    omega
  · intro n e w hd h
    have := RetryPolicy.delayForAttempt_error hd
    have := h.within
    simp only [RetryPolicy.attemptLimit] at this
    omega

theorem enqueue_triple {event : WebhookEvent} :
    Triple (persistentRedis queue inst) i (onDep solo) (fun w => AtRest w.dep)
      (queue.enqueue event) fun r w =>
        AtRest w.dep ∧ ∀ result, r = .ok result → w.dep.HasJob event.deliveryId := by
  apply claimKey_triple.bind _ fun e w hw => ⟨hw, by simp⟩
  rintro (_ | _)
  · exact Triple.pure (stable_onDep (solo_stable (AfterSetNx queue event.deliveryId (.ok false))))
      fun w hw => ⟨hw.1, fun _ _ => hw.2⟩
  · apply handOff_triple.bind _ (by simp)
    intro u
    exact Triple.pure (stable_onDep (solo_stable fun w =>
      (∃ v, Except.ok (ε := Exc) u = .ok v) ∧ AtRest w ∧ w.HasJob event.deliveryId))
      fun w hw => ⟨hw.2.1, fun _ _ => hw.2.2⟩

/-- An answer given at rest is sound when it acknowledges only placed jobs. -/
theorem AtRest.answer {w : QueueWorld} {a : WebhookAnswer} (h : AtRest w)
    (ha : ∀ status d, a = .json status d → w.HasJob deliveryId) :
    AtRest (w.answer deliveryId a) := by
  refine ⟨h.1, ?_⟩
  intro x hx
  rcases List.mem_cons.mp hx with rfl | hx
  · exact ⟨fun hk => decide_eq_true (h.1 _ (of_decide_eq_true hk)),
      fun status d he => decide_eq_true (ha status d he)⟩
  · exact h.2 x hx

/-- One delivery from arrival to answer. -/
theorem receiveWebhook_triple {event : WebhookEvent} :
    Triple (persistentRedis queue inst) i (onDep solo) (fun w => AtRest w.dep)
      (queue.receiveWebhook event) (Returns fun w => AtRest w.dep) := by
  apply enqueue_triple.attempt.bind _ (by simp)
  intro outcome
  apply Triple.perform (stable_onDep (solo_stable fun w =>
    ∃ o, Except.ok (ε := Exc) outcome = .ok o ∧ AtRest w ∧
      ∀ result, o = .ok result → w.HasJob event.deliveryId))
  · rintro w c w' answer ⟨o, ho, hw, hjob⟩ h
    have hd := perform_answer (persistentRedis_within.perform _ _ _ _ _ h)
    suffices hrest : AtRest w'.dep from ⟨Or.inr fun _ => hrest.2, ⟨answer, rfl⟩, hrest⟩
    rw [hd]
    apply hw.answer
    intro status d ha
    obtain rfl := Except.ok.inj ho
    cases outcome with
    | ok result => exact hjob result rfl
    | error e =>
      simp only [RedisJobQueue.answerFor] at ha
      split at ha <;> cases ha
  · exact fun answer w w' hr hw =>
      ⟨hw.1, stable_onDep (solo_stable AtRest) w w' hr hw.2⟩

theorem receiveAll_triple (events : List WebhookEvent) :
    Triple (persistentRedis queue inst) i (onDep solo) (fun w => AtRest w.dep)
      (queue.receiveAll events) (Returns fun w => AtRest w.dep) := by
  induction events with
  | nil => exact Triple.pure (stable_onDep (solo_stable AtRest)) (by simp)
  | cons event events ih =>
    apply receiveWebhook_triple.bind _ (by simp)
    exact fun _ => ih.pre (by simp)

theorem soundAnswers_stable :
    Stable (onDep solo).rely (fun w : GuardWorld QueueWorld => SoundAnswers w.dep) ∧
      Stable (onDep solo).guarantee (fun w : GuardWorld QueueWorld => SoundAnswers w.dep) := by
  refine ⟨stable_onDep (solo_stable SoundAnswers), ?_⟩
  rintro w w' (he | hg) hw
  · simpa only [he] using hw
  · exact hg hw

/-- With Redis healthy each call through the queue's client returns what its function returns. -/
theorem healthy_triple {T : Type} {func : RedisJobQueue.Queued T} {P : QueueWorld → Prop}
    {Q : T → QueueWorld → Prop}
    (hfunc : Triple ((queueMachine inst).under (healthyRedis inst)) i (onDep solo)
      (fun w => P w.dep) func fun r w => ∃ a, r = .ok a ∧ Q a w.dep) :
    Triple ((queueMachine inst).under (healthyRedis inst)) i (onDep solo) (fun w => P w.dep)
      (queue.callReliably func) fun r w => ∃ a, r = .ok a ∧ Q a w.dep := by
  suffices h : Triple ((queueMachine inst).under (healthyRedis inst)) i (onDep solo)
      (fun w => P w.dep ∧ 1 = 1) (queue.callReliably func) fun r w => ∃ a, r = .ok a ∧ Q a w.dep
    from h.pre fun w hw => ⟨hw, rfl⟩
  apply callReliably_triple (Machine.under_within _ _) (I := fun n w => P w ∧ n = 1)
    (R := fun _ r w => ∃ a, r = .ok a ∧ Q a w) (Q := fun r w => ∃ a, r = .ok a ∧ Q a w)
    (fun _ => solo_stable _) (fun _ _ => solo_stable _) (fun _ => solo_stable _)
    (fun _ _ _ => hfunc.pre fun w hw => hw.1)
  · intro n w c w' e _ _ _ h
    obtain ⟨hc, h⟩ := Machine.perform_under.mp h
    exact absurd (perform_admission h).2.symm (CircuitBreaker.admission_ne_error hc e)
  · exact fun _ _ _ h => h
  · simp
  · simp
  · simp
  · rintro n e w hd ⟨-, rfl⟩
    have := RetryPolicy.delayForAttempt_error hd
    omega

theorem healthy_enqueue_triple {event : WebhookEvent} :
    Triple ((queueMachine inst).under (healthyRedis inst)) i (onDep solo) (fun w => AtRest w.dep)
      (queue.enqueue event) fun r w =>
        ∃ result, r = .ok result ∧ w.dep.HasJob event.deliveryId := by
  have hkey : Triple ((queueMachine inst).under (healthyRedis inst)) i (onDep solo)
      (fun w => AtRest w.dep)
      (queue.setIdempotencyKey (idempotencyKey event.deliveryId)) fun r w =>
        ∃ fresh, r = .ok fresh ∧ (fresh = false → w.dep.HasJob event.deliveryId) := by
    apply decode_triple (P := AtRest) (R := fun r w => ∃ fresh, r = .ok fresh ∧
      (fresh = false → w.HasJob event.deliveryId)) (solo_stable _) fun _ => solo_stable _
    intro w c w' answer hw h
    obtain ⟨hc, h⟩ := Machine.perform_under.mp h
    obtain ⟨o, rfl, hd, rfl⟩ := perform_setNx h
    obtain rfl : o = .replies := hc
    refine ⟨Or.inr fun hs => hd ▸ hs, _, rfl, ?_⟩
    intro hfresh
    rw [hd]
    have hkey : w.dep.HasKey event.deliveryId := by simpa [QueueWorld.HasKey] using hfresh
    exact hw.1 _ hkey
  have hjob : Triple ((queueMachine inst).under (healthyRedis inst)) i (onDep solo)
      (fun _ => True) (queue.enqueueArqJob event) fun r w =>
        ∃ u, r = .ok u ∧ w.dep.HasJob event.deliveryId := by
    apply decode_triple (P := fun _ => True) (R := fun r w => ∃ u, r = .ok u ∧
      w.HasJob event.deliveryId) (solo_stable _) fun _ => solo_stable _
    intro w c w' answer hw h
    obtain ⟨hc, h⟩ := Machine.perform_under.mp h
    obtain ⟨o, rfl, hd, rfl⟩ := perform_enqueueJob h
    obtain rfl : o = .replies := hc
    exact ⟨Or.inr fun hs => hd ▸ hs, _, rfl, hd ▸ hasJob_of_applies rfl⟩
  apply (healthy_triple (Q := fun fresh w => fresh = false → w.HasJob event.deliveryId)
    hkey).bind _ (by simp)
  rintro (_ | _)
  · exact Triple.pure (stable_onDep (solo_stable fun w => ∃ a, Except.ok (ε := Exc) false = .ok a ∧
      (a = false → w.HasJob event.deliveryId))) (by simp)
  · apply Triple.pre (P := fun _ => True) _ fun _ _ => trivial
    apply (healthy_triple (P := fun _ => True) (Q := fun _ w => w.HasJob event.deliveryId)
      hjob).bind _ (by simp)
    exact fun u => Triple.pure (stable_onDep (solo_stable fun w =>
      ∃ a, Except.ok (ε := Exc) u = .ok a ∧ w.HasJob event.deliveryId)) (by simp)

/-- As long as the second stage never gives up, a 503 leaves no key without its job, a duplicate
is acknowledged only when its job exists, and once Redis is healthy every event gets its job. -/
theorem unavailable_leaves_no_orphan_key {w w' : GuardWorld QueueWorld}
    {events : List WebhookEvent} {es : List (Machine.Event (GuardChoice Outcome) (GuardMove Empty))}
    {p : RedisJobQueue.Queued Unit} (hrest : AtRest w.dep)
    (hrun : (queueMachine inst).run i w (queue.receiveAll events) es = some (w', p))
    (hclean : (queueMachine inst).Obeys cleanAttempts i w (queue.receiveAll events) es)
    (hpersist : (queueMachine inst).Obeys (handOffPersists queue inst) i w
      (queue.receiveAll events) es) :
    (∀ a ∈ w'.dep.answers, a.isUnavailable = true → a.keySet = true → a.jobPlaced = true) ∧
      (∀ a ∈ w'.dep.answers, a.isDuplicate = true → a.jobPlaced = true) ∧
      ∀ (event : WebhookEvent) es' w'' r, p = .done (.ok ()) →
        (queueMachine inst).run i w' (queue.enqueue event) es' = some (w'', .done r) →
        (queueMachine inst).Obeys (healthyRedis inst) i w' (queue.enqueue event) es' →
        ∃ result, r = .ok result ∧ w''.dep.HasJob event.deliveryId := by
  have hmove : ∀ {C} v (m : GuardMove Empty) v',
      ((queueMachine inst).under C).move v m = some v' → (onDep solo).rely v v' :=
    fun v m v' h => Or.inl (queueMove_dep (Machine.move_under.mp h).2)
  have hunder := Machine.run_under hrun (Machine.obeys_and hclean hpersist)
  have hsound : SoundAnswers w'.dep :=
    (receiveAll_triple events).run_invariant hmove hrest hunder soundAnswers_stable.1
      soundAnswers_stable.2 hrest.2
  refine ⟨fun a ha _ => (hsound a ha).settled, ?_, ?_⟩
  · intro a ha hdup
    exact (hsound a ha).acknowledged _ _ (by simpa [Answered.isDuplicate] using hdup)
  · rintro event es' w'' r rfl hrun' hhealthy
    have hrest' : AtRest w'.dep := ((receiveAll_triple events).run_done hmove hrest hunder).2
    exact healthy_enqueue_triple.run_done hmove hrest' (Machine.run_under hrun' hhealthy)

end

section

/-- What redis-py raises while Redis is down. -/
def redisConnectionError : Exc :=
  .plain (.other "ConnectionError" (.other "RedisError" .exception))
    "Error 111 connecting to localhost:6379. Connection refused."

def refused : Outcome := .raises redisConnectionError

/-- The response leaves. -/
def answerLeaves : List (Machine.Event (GuardChoice Outcome) (GuardMove Empty)) :=
  [.act (.dep .replies)]

/-- Redis goes down between the two stages of a delivery, and is back for its redelivery. -/
def downAfterSetNx : List (Machine.Event (GuardChoice Outcome) (GuardMove Empty)) :=
  attemptEnds .replies ++ attemptEnds refused ++ retryAtOnce ++ attemptEnds refused ++
    retryAtOnce ++ attemptEnds refused ++ answerLeaves ++ attemptEnds .replies ++ answerLeaves

/-- A delivery answered 503 keeps its key, and its redelivery is then a duplicate with no job. -/
theorem unavailable_then_duplicate_without_job :
    ∃ w r, (queueMachine id).run 0 QueueWorld.initial
        (RedisJobQueue.default.receiveAll [.sample, .sample]) downAfterSetNx = some (w, .done r) ∧
      (queueMachine id).Obeys cleanAttempts 0 QueueWorld.initial
        (RedisJobQueue.default.receiveAll [.sample, .sample]) downAfterSetNx ∧
      w.dep.jobs.length = 0 ∧
      w.dep.answers.map (fun a => (a.isUnavailable, a.isDuplicate, a.keySet, a.jobPlaced)) =
        [(false, true, true, false), (true, false, true, false)] := by
  have hfin : (queueMachine id).finishes 0 QueueWorld.initial
      (RedisJobQueue.default.receiveAll [.sample, .sample]) downAfterSetNx (fun _ w =>
        decide (w.dep.jobs.length = 0 ∧
          w.dep.answers.map (fun a => (a.isUnavailable, a.isDuplicate, a.keySet, a.jobPlaced)) =
            [(false, true, true, false), (true, false, true, false)])) = true := by
    decide +kernel
  obtain ⟨w, r, hrun, hcheck⟩ := Machine.exists_of_finishes hfin
  exact ⟨w, r, hrun, by decide +kernel, of_decide_eq_true hcheck⟩

/-- Redis fails once in each stage of a delivery, and then answers. -/
def downOnceEach : List (Machine.Event (GuardChoice Outcome) (GuardMove Empty)) :=
  attemptEnds refused ++ retryAtOnce ++ attemptEnds .replies ++ attemptEnds refused ++
    retryAtOnce ++ attemptEnds .replies ++ answerLeaves

theorem unavailable_leaves_no_orphan_key_downOnceEach :
    ∃ w r, (queueMachine id).run 0 QueueWorld.initial
        (RedisJobQueue.default.receiveAll [.sample]) downOnceEach = some (w, .done r) ∧
      w.dep.jobs.length = 1 ∧
      ∀ a ∈ w.dep.answers, a.isDuplicate = true → a.jobPlaced = true := by
  have hfin : (queueMachine id).finishes 0 QueueWorld.initial
      (RedisJobQueue.default.receiveAll [.sample]) downOnceEach (fun _ w =>
        decide (w.dep.jobs.length = 1)) = true := by
    decide +kernel
  obtain ⟨w, r, hrun, hcheck⟩ := Machine.exists_of_finishes hfin
  refine ⟨w, r, hrun, of_decide_eq_true hcheck, ?_⟩
  have hrest : AtRest QueueWorld.initial.dep :=
    ⟨by simp [Settled, QueueWorld.initial, QueueWorld.HasKey],
      by simp [SoundAnswers, QueueWorld.initial]⟩
  exact (unavailable_leaves_no_orphan_key hrest hrun (by decide +kernel) (by decide +kernel)).2.1

end

end ReviewAgent
