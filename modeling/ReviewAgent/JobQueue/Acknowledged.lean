import ReviewAgent.JobQueue.RedisArq

/-! One first delivery, when an attempt may take effect and still be reported as timed out: which
schedules acknowledge it without a job. -/
namespace ReviewAgent

open Effects

/-- A `SET NX` that set the key although its caller stopped waiting for it. -/
def Attempt.isLostClaim (a : Attempt) : Bool :=
  match a.op with
  | .setNx .. => a.applied && a.outcome == .timesOut true
  | _ => false

/-- A `SET NX` whose answer reached its caller. -/
def Attempt.isAnsweredClaim (a : Attempt) : Bool :=
  match a.op with
  | .setNx .. => a.outcome == .replies
  | _ => false

/-- Some `SET NX` set the key while its caller gave it up, and a later one was answered. -/
def lostThenAnswered : List Attempt → Bool
  | [] => false
  | a :: older => a.isAnsweredClaim && older.any Attempt.isLostClaim || lostThenAnswered older

/-- Nobody but the caller acts on Redis. -/
def alone : Contract QueueWorld where
  rely _ _ := False
  guarantee _ _ := True

theorem alone_stable (P : QueueWorld → Prop) : Stable alone.rely P := fun _ _ h _ => h.elim

/-- Before an attempt to set the key: the key is set exactly when an attempt was lost. -/
structure Claiming (caller : ℕ) (deliveryId : String) (w : QueueWorld) : Prop where
  noJob : ¬ w.HasJob deliveryId
  key : w.HasKey deliveryId ↔ (w.attemptsOf caller).any Attempt.isLostClaim = true
  unanswered : (w.attemptsOf caller).any Attempt.isAnsweredClaim = false

def AfterClaim (caller : ℕ) (deliveryId : String) : Except Exc Bool → QueueWorld → Prop
  | .ok true, w => lostThenAnswered (w.attemptsOf caller) = false
  | .ok false, w => ¬ w.HasJob deliveryId ∧ lostThenAnswered (w.attemptsOf caller) = true
  | .error _, w => Claiming caller deliveryId w

theorem lostThenAnswered_of_unanswered {h : List Attempt}
    (hu : h.any Attempt.isAnsweredClaim = false) : lostThenAnswered h = false := by
  induction h with
  | nil => rfl
  | cons a h ih =>
    simp only [List.any_cons, Bool.or_eq_false_iff] at hu
    simp [lostThenAnswered, hu.1, ih hu.2]

section

variable {queue : RedisJobQueue} {inst : ℕ → ℕ} {i : ℕ} {w : QueueWorld} {o : Outcome}
  {event : WebhookEvent} {deliveryId key value function : String} {ex : ℕ}

theorem lostThenAnswered_enqueueJob :
    lostThenAnswered ((w.enqueueJob i function event o).attemptsOf i) =
      lostThenAnswered (w.attemptsOf i) := by
  simp [attemptsOf_enqueueJob, lostThenAnswered, Attempt.isAnsweredClaim]

theorem hasKey_setNx : (w.setNx i (idempotencyKey deliveryId) value ex o).HasKey deliveryId ↔
    w.HasKey deliveryId ∨ o.applies = true := by
  by_cases hk : idempotencyKey deliveryId ∈ w.keys <;> cases ho : o.applies <;>
    simp_all [QueueWorld.HasKey, QueueWorld.setNx]

/-- An attempt without an answer leaves the key set exactly when it or an earlier one was lost. -/
theorem Claiming.abandoned (h : Claiming i deliveryId w) (ha : o ≠ .replies)
    (hlost : o.applies = true ↔ o = .timesOut true) :
    Claiming i deliveryId (w.setNx i (idempotencyKey deliveryId) value ex o) := by
  refine ⟨h.noJob, ?_, ?_⟩
  · rw [hasKey_setNx, attemptsOf_setNx, List.any_cons, Bool.or_eq_true, ← h.key]
    by_cases hk : idempotencyKey deliveryId ∈ w.keys
    · simp [QueueWorld.HasKey, hk]
    · simp [QueueWorld.HasKey, hk, Attempt.isLostClaim, hlost]
  · simp [attemptsOf_setNx, Attempt.isAnsweredClaim, ha, h.unanswered]

theorem Claiming.setNx (h : Claiming i deliveryId w) :
    AfterClaim i deliveryId
      (awaitFuture queue.timeoutPolicy
        (o.future (decide (idempotencyKey deliveryId ∉ w.keys))))
      (w.setNx i (idempotencyKey deliveryId) value ex o) := by
  have hquiet := lostThenAnswered_of_unanswered h.unanswered
  cases o with
  | replies =>
    by_cases hk : idempotencyKey deliveryId ∈ w.keys
    · have hlost := h.key.mp hk
      simp only [Outcome.future, awaitFuture, hk, not_true_eq_false, decide_false]
      refine ⟨h.noJob, ?_⟩
      simp [attemptsOf_setNx, lostThenAnswered, Attempt.isAnsweredClaim, hlost]
    · have hlost : (w.attemptsOf i).any Attempt.isLostClaim = false :=
        Bool.eq_false_iff.mpr fun hl => hk (h.key.mpr hl)
      simp only [Outcome.future, awaitFuture, hk, not_false_eq_true, decide_true]
      simp [AfterClaim, attemptsOf_setNx, lostThenAnswered, hlost, hquiet]
  | raises e => exact h.abandoned (by simp) (by simp [Outcome.applies])
  | timesOut applied => exact h.abandoned (by simp) (by simp [Outcome.applies])

theorem claim_triple :
    Triple (queueMachine inst) i (onDep alone) (fun w => Claiming i deliveryId w.dep)
      (queue.callReliably (queue.setIdempotencyKey (idempotencyKey deliveryId))) fun r w =>
        AfterClaim i deliveryId r w.dep := by
  have hattempt : Triple (queueMachine inst) i (onDep alone)
      (fun w => Claiming i deliveryId w.dep)
      (queue.setIdempotencyKey (idempotencyKey deliveryId)) fun r w =>
        AfterClaim i deliveryId r w.dep := by
    apply decode_triple (alone_stable _) fun _ => alone_stable _
    intro w c w' answer hw h
    obtain ⟨o, -, hd, rfl⟩ := perform_setNx h
    exact ⟨Or.inr trivial, hd ▸ hw.setNx⟩
  apply callReliably_triple (Machine.within_self _) (I := fun _ => Claiming i deliveryId)
    (R := fun _ => AfterClaim i deliveryId) (fun _ => alone_stable _)
    (fun _ _ => alone_stable _) (fun _ => alone_stable _)
  · exact fun _ _ _ => hattempt
  · intro n w c w' e _ _ hw h
    have hd := guardPerform_dep h (by simp)
    simpa only [AfterClaim, hd] using hw
  · exact fun _ _ _ h => h
  · exact fun _ _ _ _ h => h
  · exact fun _ _ _ _ _ h => h
  · exact fun _ _ _ h => h
  · exact fun _ _ _ _ h => h

/-- The hand-off returns only with the job placed, and makes no claim on the key. -/
theorem place_triple {b : Bool} :
    Triple (queueMachine inst) i (onDep alone)
      (fun w => lostThenAnswered (w.dep.attemptsOf i) = b)
      (queue.callReliably (queue.enqueueArqJob event)) fun r w =>
        lostThenAnswered (w.dep.attemptsOf i) = b ∧
          ∀ u, r = .ok u → w.dep.HasJob event.deliveryId := by
  have hattempt : Triple (queueMachine inst) i (onDep alone)
      (fun w => lostThenAnswered (w.dep.attemptsOf i) = b) (queue.enqueueArqJob event) fun r w =>
        lostThenAnswered (w.dep.attemptsOf i) = b ∧
          ∀ u, r = .ok u → w.dep.HasJob event.deliveryId := by
    apply decode_triple (P := fun w => lostThenAnswered (w.attemptsOf i) = b)
      (R := fun r w => lostThenAnswered (w.attemptsOf i) = b ∧
        ∀ u, r = .ok u → w.HasJob event.deliveryId) (alone_stable _) fun _ => alone_stable _
    intro w c w' answer hw h
    obtain ⟨o, -, hd, rfl⟩ := perform_enqueueJob h
    refine ⟨Or.inr trivial, ?_, ?_⟩
    · rw [hd, lostThenAnswered_enqueueJob, hw]
    · intro u hu
      obtain ⟨rfl, -⟩ := Outcome.replies_of_future (awaitFuture_ok.mp hu)
      exact hd ▸ hasJob_of_applies rfl
  apply callReliably_triple (Machine.within_self _)
    (I := fun _ w => lostThenAnswered (w.attemptsOf i) = b)
    (R := fun _ r w => lostThenAnswered (w.attemptsOf i) = b ∧
      ∀ u, r = .ok u → w.HasJob event.deliveryId)
    (Q := fun r w => lostThenAnswered (w.attemptsOf i) = b ∧
      ∀ u, r = .ok u → w.HasJob event.deliveryId)
    (fun _ => alone_stable _) (fun _ _ => alone_stable _) (fun _ => alone_stable _)
  · exact fun _ _ _ => hattempt
  · intro n w c w' e _ _ hw h
    have hd := guardPerform_dep h (by simp)
    exact ⟨hd ▸ hw, by simp⟩
  · exact fun _ _ _ h => h
  · exact fun _ _ _ _ h => ⟨h.1, by simp⟩
  · exact fun _ _ _ _ _ h => h.1
  · exact fun _ _ _ h => ⟨h.1, by simp⟩
  · exact fun _ _ _ _ h => ⟨h, by simp⟩

/-- What a first delivery leaves behind, by the schedule of its attempts. -/
def Acknowledged (caller : ℕ) (deliveryId : String) (r : Except Exc EnqueueResult)
    (w : QueueWorld) : Prop :=
  (∀ result, r = .ok result → w.HasJob deliveryId) ↔
    lostThenAnswered (w.attemptsOf caller) = false

theorem first_enqueue_triple :
    Triple (queueMachine inst) i (onDep alone) (fun w => Claiming i event.deliveryId w.dep)
      (queue.enqueue event) fun r w => Acknowledged i event.deliveryId r w.dep := by
  apply claim_triple.bind
  · rintro (_ | _)
    · refine Triple.pure (stable_onDep (alone_stable (AfterClaim i event.deliveryId (.ok false)))) ?_
      rintro w ⟨hjob, hlost⟩
      simp [Acknowledged, hjob, hlost]
    · apply place_triple.bind
      · intro u
        refine Triple.pure (stable_onDep (alone_stable fun w =>
          lostThenAnswered (w.attemptsOf i) = false ∧
            ∀ v, Except.ok (ε := Exc) u = .ok v → w.HasJob event.deliveryId)) ?_
        intro w hw
        simp [Acknowledged, hw.1, hw.2 u rfl]
      · intro e w hw
        simp [Acknowledged, hw.1]
  · intro e w hw
    simp [Acknowledged, lostThenAnswered_of_unanswered hw.unanswered]

/-- A first delivery that is acknowledged has its job exactly when no `SET NX` that took effect
was given up and then asked again. -/
theorem acknowledged_iff {w w' : GuardWorld QueueWorld}
    {es : List (Machine.Event (GuardChoice Outcome) (GuardMove Empty))}
    {r : Except Exc EnqueueResult} (hkey : ¬ w.dep.HasKey event.deliveryId)
    (hjob : ¬ w.dep.HasJob event.deliveryId) (hfresh : w.dep.attemptsOf i = [])
    (hrun : (queueMachine inst).run i w (queue.enqueue event) es = some (w', .done r)) :
    (∀ result, r = .ok result → w'.dep.HasJob event.deliveryId) ↔
      lostThenAnswered (w'.dep.attemptsOf i) = false := by
  have hclaiming : Claiming i event.deliveryId w.dep :=
    ⟨hjob, by simp [hkey, hfresh], by simp [hfresh]⟩
  exact first_enqueue_triple.run_done (fun v m v' h => Or.inl (queueMove_dep h)) hclaiming hrun

end

/-- `SET NX` takes effect but times out, and the retry finds the key already set. -/
def lostClaim : List (Machine.Event (GuardChoice Outcome) (GuardMove Empty)) :=
  attemptEnds (.timesOut true) ++ retryAtOnce ++ attemptEnds .replies

theorem acknowledged_without_job :
    ∃ w r, (queueMachine id).run 0 QueueWorld.initial (RedisJobQueue.default.enqueue .sample)
        lostClaim = some (w, .done r) ∧
      (∃ result, r = .ok result) ∧ ¬ w.dep.HasJob WebhookEvent.sample.deliveryId := by
  have hfin : (queueMachine id).finishes 0 QueueWorld.initial
      (RedisJobQueue.default.enqueue .sample) lostClaim (fun r w =>
        r.isOk && decide (¬ w.dep.HasJob WebhookEvent.sample.deliveryId)) = true := by
    decide +kernel
  obtain ⟨w, r, hrun, hcheck⟩ := Machine.exists_of_finishes hfin
  obtain ⟨hok, hjob⟩ := Bool.and_eq_true_iff.mp hcheck
  refine ⟨w, r, hrun, ?_, of_decide_eq_true hjob⟩
  cases r with
  | ok result => exact ⟨result, rfl⟩
  | error e => cases hok

/-- Both stages time out once, the first with no effect, the second with its job placed. -/
def slowStages : List (Machine.Event (GuardChoice Outcome) (GuardMove Empty)) :=
  attemptEnds (.timesOut false) ++ retryAtOnce ++ attemptEnds .replies ++
    attemptEnds (.timesOut true) ++ retryAtOnce ++ attemptEnds .replies

theorem acknowledged_iff_slowStages :
    ∃ w r, (queueMachine id).run 0 QueueWorld.initial (RedisJobQueue.default.enqueue .sample)
        slowStages = some (w, .done r) ∧
      ∀ result, r = .ok result → w.dep.HasJob WebhookEvent.sample.deliveryId := by
  have hfin : (queueMachine id).finishes 0 QueueWorld.initial
      (RedisJobQueue.default.enqueue .sample) slowStages (fun _ w =>
        !lostThenAnswered (w.dep.attemptsOf 0)) = true := by
    decide +kernel
  obtain ⟨w, r, hrun, hcheck⟩ := Machine.exists_of_finishes hfin
  exact ⟨w, r, hrun, (acknowledged_iff (by decide) (by decide) rfl hrun).mpr (by simpa using hcheck)⟩

end ReviewAgent
