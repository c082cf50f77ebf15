import ReviewAgent.Integrations.RevokedTokens
import ReviewAgent.JobQueue.PostedRows
import ReviewAgent.Orchestrator.ForcedReview

/-! Runs of a job over GitHub and the reviews table: when no row claims a post that did not
happen. -/
namespace ReviewAgent

open Effects

section

variable {event : WebhookEvent} {review : Review} {inst : ℕ → ℕ} {i : ℕ}
  {client : RealGitHubClient} {setup : AgentSetup}

theorem postingFor_stable (P : Ledger → Prop) : Stable (postingFor event).rely P := by
  rintro s s' rfl h
  exact h

theorem postingFor_tolerates : Tolerates (postingFor event) i fun _ => True where
  stable := postingFor_stable _
  send _ sent _ hneutral _ :=
    ⟨⟨sent, rfl, signedFor_of_not_post (GitHubRequest.isPost_of_neutral hneutral)⟩, trivial⟩

/-- A check that finds the marker has found it on the pull request. -/
theorem marks_check {pr : PullRequest} {headers reviewId : String} :
    Triple (gitHubMachine inst) i (onLedger (postingFor event)) (Says fun _ => True)
      (client.findExistingReviewIdMarker pr headers reviewId) fun r =>
        Says (Either (fun b s => b = true → marked reviewId (s.reviews pr) = true)
          (fun _ => True) r) := by
  have hN := (gitHubMachine inst).within_self
  have hfetch : Triple (gitHubMachine inst) i (onLedger (postingFor event)) (Says fun _ => True)
      (client.callReliably (RealGitHubClient.attempt (.reviews pr filesPageSize) headers))
      fun r => Says (Either (fun response s => ∀ page : List ExistingReview,
        response.json = .ok page → marked reviewId page = true →
          marked reviewId (s.reviews pr) = true) (fun _ => True) r) := by
    apply says_reliably hN (postingFor_stable _) (fun _ => postingFor_stable _)
    apply says_attempt hN (postingFor_stable _) (fun _ => postingFor_stable _)
    intro w c w' sending _ hp _
    refine ⟨⟨_, rfl, signedFor_of_not_post rfl⟩, ?_⟩
    obtain ⟨c', d, -, hd, -⟩ := perform_dep hp
    cases sending with
    | lost applied e => trivial
    | answered response =>
      have hjson : response.json = .ok ((w.dep.reviews pr).take filesPageSize) :=
        perform_reviews hd
      simp only [Accepts, Sending.outcome]
      split
      · intro page hpage hmarked
        obtain rfl := Except.ok.inj (hjson.symm.trans hpage)
        refine marked_send ?_
        simp only [marked, List.any_eq_true] at hmarked ⊢
        obtain ⟨found, hfound, hcarries⟩ := hmarked
        exact ⟨found, List.mem_of_mem_take hfound, hcarries⟩
      · trivial
  apply hfetch.bind _ fun _ _ _ => trivial
  intro response
  cases hjson : response.json with
  | error e => exact Triple.done (says_stable (postingFor_stable _)) fun _ _ => trivial
  | ok page =>
    exact Triple.done (says_stable (postingFor_stable _)) fun _ hw => hw page hjson

/-- A post that ends normally leaves the event's marker on its pull request. -/
theorem marks_post (hreview : OfEvent event review) :
    Triple (gitHubMachine inst) i (onLedger (postingFor event)) (Says fun _ => True)
      (client.postReviewComment review) fun r =>
        Says (Either (fun _ s => marked event.reviewId (s.reviews event.pullRequest) = true)
          (fun _ => True) r) := by
  have hN := (gitHubMachine inst).within_self
  have ht : Tolerates (postingFor event) i fun _ => True := postingFor_tolerates
  have hdone : ∀ r : Except Exc Unit, Triple (gitHubMachine inst) i (onLedger (postingFor event))
      (Says fun s => marked event.reviewId (s.reviews event.pullRequest) = true) (.done r)
      fun r => Says (Either (fun _ s =>
        marked event.reviewId (s.reviews event.pullRequest) = true) (fun _ => True) r) := by
    rintro (e | u)
    · exact Triple.done (says_stable (postingFor_stable _)) fun _ _ => trivial
    · exact Triple.done (says_stable (postingFor_stable _)) fun _ hw => hw
  apply Triple.bind (keeps_installationHeaders hN ht) _ fun _ _ _ => trivial
  intro headers
  apply marks_check.bind _ fun _ _ _ => trivial
  rintro (_ | _)
  · apply Triple.pre _ fun _ _ => trivial
    apply Triple.bind (keeps_getDiffAndFiles hN ht) _ fun _ _ _ => trivial
    intro value
    cases hrequest : reviewRequest review value.changedFiles with
    | error e => exact Triple.done (says_stable (postingFor_stable _)) fun _ _ => trivial
    | ok body =>
      have hcreate : Triple (gitHubMachine inst) i (onLedger (postingFor event))
          (Says fun _ => True) (client.callReliably
            (RealGitHubClient.attempt (.createReview review.pullRequest body) headers))
          fun r => Says (Either (fun _ s =>
            marked event.reviewId (s.reviews event.pullRequest) = true) (fun _ => True) r) := by
        apply says_reliably hN (postingFor_stable _) (fun _ => postingFor_stable _)
        apply says_attempt hN (postingFor_stable _) (fun _ => postingFor_stable _)
        intro w c w' sending _ _ _
        have hsigned : SignedFor event
            ⟨i, inst i, .createReview review.pullRequest body, headers, sending⟩ := by
          apply signedFor_of_signed hreview
          rintro pr body' hreq
          cases hreq
          exact ⟨rfl, reviewRequest_carries hrequest⟩
        refine ⟨⟨_, rfl, hsigned⟩, ?_⟩
        cases sending with
        | lost applied e => trivial
        | answered response =>
          simp only [Accepts, Sending.outcome]
          split
          · rename_i hstatus
            refine (marked_send_iff hsigned).mpr (Or.inr ?_)
            simp [Sent.adds, Sending.takesEffect, hstatus, GitHubRequest.postsOn,
              hreview.pullRequest]
          · trivial
      apply hcreate.bind _ fun _ _ _ => trivial
      intro response
      cases response.json with
      | error e => exact Triple.done (says_stable (postingFor_stable _)) fun _ _ => trivial
      | ok posted => exact hdone (.ok ())
  · refine Triple.pure (says_stable (postingFor_stable fun s => true = true →
      marked review.reviewId (s.reviews review.pullRequest) = true)) fun w hw => ?_
    have hmarked : marked review.reviewId (w.dep.ledger.reviews review.pullRequest) = true := hw rfl
    rwa [hreview.pullRequest, hreview.reviewId] at hmarked

/-- An operation of the worker writes what it says it writes, or leaves the table. -/
theorem worker_perform {v v' : ReviewsWorld} {op : WorkerOp} {c : WorkerChoice}
    {answer : WorkerSignature.Answer op} (h : worker.perform i v op c = some (v', answer)) :
    v' = v ∨ ∃ made, jobWritten (S := Guarded GitHubSignature) (.inr op) = some made ∧
      v' = v.store made := by
  simp only [worker] at h
  split at h
  · rename_i node review reason
    obtain ⟨rfl, -⟩ := Prod.mk.inj (Option.some.inj h)
    rw [ReviewsWorld.write]
    split
    · exact Or.inr ⟨(review, reason), rfl, rfl⟩
    · exact Or.inl rfl
  · exact Or.inl (Prod.mk.inj (Option.some.inj h)).1.symm

theorem ofEvent_of_subject (h : review.subject = (event.initialState "").subject) :
    OfEvent event review := by
  simp only [Review.subject, GraphState.subject, WebhookEvent.initialState, Prod.mk.injEq] at h
  obtain ⟨hid, hnumber, howner, hname, -⟩ := h
  refine ⟨hid, ?_⟩
  rw [Review.pullRequest, WebhookEvent.pullRequest, hnumber, howner, hname]

/-- The writes that the table has taken are among those made. -/
def Took (event : WebhookEvent) (written : List (Review × String)) (v : ReviewsWorld) : Prop :=
  (∀ made ∈ v.stored, made ∈ written) ∧ ∀ made ∈ written, OfEvent event made.1

/-- When the run ends, the table has taken its review or none. -/
theorem runReviewBlocking_triple {diff : String} :
    Triple worker i (writingFor event) (fun v => v.stored = [])
      (runReviewBlocking setup.engine (event.initialState diff)) fun r v =>
        ∀ result, r = .ok result → ∃ review, result.review = some review ∧ OfEvent event review ∧
          ∀ made ∈ v.stored, made.1 = review := by
  have hwrites : Triple worker i (writingFor event) (Took event [])
      (runReviewBlocking setup.engine (event.initialState diff)) fun r v => ∃ written,
        (∀ result, r = .ok result → EndsIn result written) ∧ Took event written v := by
    refine Triple.of_writes ?_ ?_ (runReviewBlocking_writes (S := Guarded GitHubSignature))
    · rintro written v v' rfl hv
      exact hv
    · intro written v op c v' answer hsubject hv hperform
      rcases worker_perform hperform with rfl | ⟨made, hmade, rfl⟩
      · refine ⟨Or.inl rfl, fun made hmade => List.mem_append_left _ (hv.1 made hmade), ?_⟩
        intro made hmade
        rcases List.mem_append.mp hmade with hmade | hmade
        · exact hv.2 made hmade
        · exact ofEvent_of_subject (hsubject made (Option.mem_toList.mp hmade))
      · have hevent : OfEvent event made.1 := ofEvent_of_subject (hsubject made hmade)
        refine ⟨Or.inr ⟨made, hevent, rfl⟩, ?_, ?_⟩
        · intro other hother
          rcases List.mem_cons.mp hother with rfl | hother
          · exact List.mem_append_right _ (Option.mem_toList.mpr hmade)
          · exact List.mem_append_left _ (hv.1 other hother)
        · intro other hother
          rcases List.mem_append.mp hother with hother | hother
          · exact hv.2 other hother
          · exact ofEvent_of_subject (hsubject other (Option.mem_toList.mp hother))
  apply hwrites.consequence
  · intro v hv
    exact ⟨by simp [hv], by simp⟩
  · rintro r v ⟨written, hends, htook⟩ result hresult
    obtain ⟨made, hreview, -, rfl⟩ := hends result hresult
    refine ⟨made.1, hreview, htook.2 made List.mem_cons_self, ?_⟩
    intro other hother
    rw [List.mem_singleton.mp (htook.1 other hother)]

/-- A part of the job at GitHub, next to what the table holds. -/
theorem gitHubPart {α : Type} {p : Session α} {P : Ledger → Prop}
    {Q : Except Exc α → Ledger → Prop} {F : ReviewsWorld → Prop}
    (h : Triple (gitHubMachine inst) i (onLedger (postingFor event)) (Says P) p
      fun r => Says (Q r)) :
    Triple (jobMachine inst) i (jobFor event) (fun x => Says P x.1 ∧ F x.2) p.left
      fun r x => Says (Q r) x.1 ∧ F x.2 := by
  apply Triple.left _ _ h
  · rintro x x' ⟨hledger, htable⟩
    exact ⟨Or.inr (Or.inl hledger), fun hf => htable ▸ hf⟩
  · exact fun _ _ _ hguarantee => Or.inl ⟨hguarantee, rfl⟩

/-- A part of the job in the worker. -/
theorem workerPart {α : Type} {p : Program WorkerSignature Exc α} {P : ReviewsWorld → Prop}
    {Q : Except Exc α → ReviewsWorld → Prop}
    (h : Triple worker i (writingFor event) P p Q) :
    Triple (jobMachine inst) i (jobFor event) (fun x => True ∧ P x.2) p.right
      fun r x => True ∧ Q r x.2 := by
  apply Triple.right (F := fun _ => True) _ _ h
  · rintro x x' ⟨-, htable⟩
    exact ⟨htable, id⟩
  · exact fun _ _ _ hguarantee => Or.inr ⟨rfl, hguarantee⟩

theorem jobFor_stable (A : Ledger → ReviewsWorld → Prop) :
    Stable (jobFor event).rely fun x => A x.1.dep.ledger x.2 := by
  rintro x x' ⟨hledger, htable⟩ hx
  rwa [hledger, htable]

theorem markProcessed_triple {deliveryId : String} :
    Triple worker i (writingFor event) (fun v => v.stored = []) (markProcessed deliveryId)
      fun _ v => v.stored = [] := by
  have hstable : Stable (writingFor event).rely fun v => v.stored = [] := by
    rintro v v' rfl hv
    exact hv
  show Triple worker i _ _ (.step (.markProcessed deliveryId : WorkerOp)
    fun answer : Except Exc Unit => .done answer) _
  apply Triple.step (A := fun (_ : Except Exc Unit) v => v.stored = []) hstable
  · intro v c v' answer hv hperform
    rcases worker_perform hperform with rfl | ⟨made, hmade, -⟩
    · exact ⟨Or.inl rfl, hv⟩
    · cases hmade
  · exact fun answer => Triple.done hstable fun _ hv => hv

/-- When the run of a job ends, the table has taken its review or none. -/
theorem runJob_triple : Triple (jobMachine inst) i (jobFor event) (fun x => x.2.stored = [])
    (runJob client.toGitHubClient setup.engine event) fun r x =>
      ∀ result, r = .ok result → ∃ review, result.review = some review ∧ OfEvent event review ∧
        ∀ made ∈ x.2.stored, made.1 = review := by
  have hN := (gitHubMachine inst).within_self
  have hdiff : Triple (gitHubMachine inst) i (onLedger (postingFor event)) (Says fun _ => True)
      (client.fetchDiff event.pullRequest event.headSha) fun _ => Says fun _ => True :=
    Keeps.bind (keeps_getDiffAndFiles hN postingFor_tolerates) fun _ =>
      keeps_done (postingFor_stable _) _
  apply Triple.bind ((workerPart markProcessed_triple).pre fun _ hx => ⟨trivial, hx⟩) _ (by simp)
  intro _
  apply Triple.bind ((gitHubPart (F := fun v => v.stored = []) hdiff).pre
    fun _ hx => ⟨trivial, hx.2⟩) _ (by simp)
  intro diff
  exact (workerPart runReviewBlocking_triple).consequence (fun _ hx => ⟨trivial, hx.2⟩)
    fun _ _ hx => hx.2

/-- When a job returns and the table has taken its review as posted, the review's marker is on the
pull request. -/
theorem processWebhookEvent_triple :
    Triple (jobMachine inst) i (jobFor event) (fun x => x.2.stored = [])
      (processWebhookEvent client.toGitHubClient setup.engine event) fun r x =>
        (∃ summary, r = .ok summary) → ∀ made ∈ x.2.stored, made.1.status = .posted →
          marked event.reviewId (x.1.dep.reviews event.pullRequest) = true := by
  apply runJob_triple.bind _ (by simp)
  intro result x hx
  obtain ⟨review, hreview, hevent, hstored⟩ := hx result rfl
  have hpost : Triple (gitHubMachine inst) i (onLedger (postingFor event)) (Says fun _ => True)
      (client.toGitHubClient.postOrQueue review) fun r => Says (Either (fun _ s =>
        review.status = .posted → marked event.reviewId (s.reviews event.pullRequest) = true)
        (fun _ => True) r) := by
    rw [GitHubClient.postOrQueue]
    split
    · apply (marks_post hevent).consequence (fun _ hw => hw)
      rintro (e | u) w hw
      · trivial
      · exact fun _ => hw
    · rename_i hqueued
      exact Triple.done (says_stable (postingFor_stable _)) fun _ _ hposted =>
        absurd hposted hqueued
  rw [dispatch, hreview]
  refine Triple.bind (gitHubPart (F := fun v => ∀ made ∈ v.stored, made.1 = review) hpost) ?_
    (by simp) x ⟨trivial, hstored⟩
  intro _
  apply Triple.pure
  · exact jobFor_stable fun s v => (review.status = .posted →
      marked event.reviewId (s.reviews event.pullRequest) = true) ∧
        ∀ made ∈ v.stored, made.1 = review
  · rintro y ⟨hmarked, hsame⟩ - made hmade hposted
    exact hmarked (hsame made hmade ▸ hposted)

theorem jobMachine_move {x x' : GuardWorld GitHubWorld × ReviewsWorld}
    {m : GuardMove GitHubMove ⊕ Empty} (h : (jobMachine inst).move x m = some x') :
    (jobFor event).rely x x' := by
  cases m with
  | inl m =>
    obtain ⟨w, hw, rfl⟩ := Option.map_eq_some_iff.mp h
    exact ⟨gitHub_move hw, rfl⟩
  | inr m => exact m.elim

/-- Wherever a job has come, GitHub and the table have come on by its requests and writes. -/
theorem job_traces {table : Reviews} {w w' : GuardWorld GitHubWorld} {v' : ReviewsWorld}
    {es : List (Machine.Event (GuardChoice GitHubChoice ⊕ WorkerChoice)
      (GuardMove GitHubMove ⊕ Empty))} {p : Job (Guarded GitHubSignature) JobSummary}
    (hlog : w.dep.log = [])
    (hrun : (jobMachine inst).run i (w, ⟨table, []⟩)
      (processWebhookEvent client.toGitHubClient setup.engine event) es = some ((w', v'), p)) :
    LedgerTrace event w.dep.ledger w'.dep.ledger ∧ TableTrace event table v' := by
  refine processWebhookEvent_triple.run_invariant
    (I := fun x => LedgerTrace event w.dep.ledger x.1.dep.ledger ∧ TableTrace event table x.2)
    (fun _ _ _ => jobMachine_move) rfl hrun
    (jobFor_stable fun s v => LedgerTrace event w.dep.ledger s ∧ TableTrace event table v) ?_ ?_
  · rintro x x' (⟨hguarantee, htable⟩ | ⟨hgitHub, hguarantee⟩) ⟨hledger, hrows⟩
    · rw [htable]
      refine ⟨?_, hrows⟩
      rcases hguarantee with hd | hl | hg
      · rwa [hd]
      · rwa [show x'.1.dep.ledger = x.1.dep.ledger from hl]
      · exact hledger.step hg
    · rw [hgitHub]
      exact ⟨hledger, hrows.step hguarantee⟩
  · refine ⟨⟨fun _ _ h => h, fun pr => ?_⟩, ⟨fun _ => rfl, fun _ h _ => h, rfl, by simp⟩⟩
    simp [GitHubWorld.ledger, hlog]

/-- After any part of a job, the rows that say `POSTED` are of reviews that are on their pull
requests exactly if the job's own row does not say so, or its review's marker was on the row's pull
request before, or GitHub has carried out a request of the job that posts there. That is so whenever
the job returns. -/
theorem posted_rows_truthful_iff {table : Reviews} {w w' : GuardWorld GitHubWorld}
    {v' : ReviewsWorld} {es : List (Machine.Event (GuardChoice GitHubChoice ⊕ WorkerChoice)
      (GuardMove GitHubMove ⊕ Empty))} {p : Job (Guarded GitHubSignature) JobSummary}
    (hlog : w.dep.log = []) (htruthful : Truthful w.dep.reviews table)
    (hrun : (jobMachine inst).run i (w, ⟨table, []⟩)
      (processWebhookEvent client.toGitHubClient setup.engine event) es = some ((w', v'), p)) :
    (Truthful w'.dep.reviews v'.table ↔
      ∀ made ∈ v'.stored.head?, made.1.status = .posted →
        marked event.reviewId (w.dep.reviews (table.rowPullRequest event)) = true ∨
          w'.dep.log.any (Sent.adds (table.rowPullRequest event)) = true) ∧
      ((∃ summary, p = .done (.ok summary)) → table.rowPullRequest event = event.pullRequest →
        Truthful w'.dep.reviews v'.table) := by
  obtain ⟨hledger, htable⟩ := job_traces hlog hrun
  have hiff := truthful_iff hledger htable htruthful
  refine ⟨hiff, ?_⟩
  rintro ⟨summary, rfl⟩ hpr
  refine hiff.mpr fun made hmade hposted => ?_
  have hmarked := processWebhookEvent_triple.run_done (fun _ _ _ => jobMachine_move) rfl hrun
    ⟨summary, rfl⟩ made (List.mem_of_mem_head? hmade) hposted
  rw [hpr]
  exact (hledger.posted _).mp hmarked

end

/-- The specialists, where every review is confident enough to be posted. -/
def AgentSetup.unhesitating : AgentSetup :=
  { AgentSetup.sample with
    settings :=
      { AgentSetup.sample.settings with
        hitlConfidenceThreshold := .ofThousandths 0 Confidence.zeroThousandths_le } }

/-- An operation of the worker in good order. -/
def WorkerChoice.healthy : WorkerChoice where
  answers
    | .markProcessed _ => Except.ok ()
    | .engine op => RunAnswers.healthy op
  outage := none

/-- What happens to a job: an operation of it is resolved, or its world moves. -/
abbrev JobEvent : Type :=
  Machine.Event (GuardChoice GitHubChoice ⊕ WorkerChoice) (GuardMove GitHubMove ⊕ Empty)

def SessionEvent.ofJob : SessionEvent → JobEvent
  | .act c => .act (.inl c)
  | .move m => .move (.inl m)

/-- The schedule of a job until its review is written: marker, cached diff, and the operations of
its run. -/
def reviewWritten : List JobEvent :=
  .act (.inr .healthy) :: .act (.inl (.dep .go)) :: List.replicate 52 (.act (.inr .healthy))

def sampleJob : Job (Guarded GitHubSignature) JobSummary :=
  processWebhookEvent (RealGitHubClient.default "1").toGitHubClient AgentSetup.unhesitating.engine
    .sample

/-- The review is posted, and its row says so. -/
theorem posted_rows_truthful_iff_posted : ∃ w' v' summary,
    (jobMachine id).run 0 (reviewedWorld [], ⟨⟨[], List.nodup_nil⟩, []⟩) sampleJob
      (reviewWritten ++ postGoesThrough.map SessionEvent.ofJob) =
        some ((w', v'), .done (.ok summary)) ∧
    v'.table.rows.map (·.status) = [.posted] ∧ Truthful w'.dep.reviews v'.table := by
  have hreturns : (jobMachine id).returns 0 (reviewedWorld [], ⟨⟨[], List.nodup_nil⟩, []⟩)
      sampleJob (reviewWritten ++ postGoesThrough.map SessionEvent.ofJob)
      (fun _ x => decide (x.2.table.rows.map (·.status) = [.posted])) = true := by
    decide +kernel
  obtain ⟨⟨w', v'⟩, summary, hrun, hstatus⟩ := Machine.exists_of_returns hreturns
  have htruthful : Truthful (reviewedWorld []).dep.reviews ⟨[], List.nodup_nil⟩ := by
    rintro row ⟨⟩
  exact ⟨w', v', summary, hrun, of_decide_eq_true hstatus,
    (posted_rows_truthful_iff rfl htruthful hrun).2 ⟨summary, rfl⟩ rfl⟩

/-- A row that says `POSTED` of a review that is not on its pull request. -/
def claimsTooMuch (x : GuardWorld GitHubWorld × ReviewsWorld) : Bool :=
  x.2.table.rows.any fun row =>
    decide (row.status = .posted) && !marked row.reviewId (x.1.dep.reviews row.pullRequest)

/-- GitHub rejects the credentials when the review is to be posted: the job raises, and the row
that the graph has written says that the review was posted. -/
theorem row_posted_without_post : ¬ ∀ (client : RealGitHubClient) (setup : AgentSetup)
    (event : WebhookEvent) (inst : ℕ → ℕ) (i : ℕ) (table : Reviews)
    (w w' : GuardWorld GitHubWorld) (v' : ReviewsWorld) (es : List JobEvent)
    (p : Job (Guarded GitHubSignature) JobSummary),
    w.dep.log = [] → Truthful w.dep.reviews table →
    (jobMachine inst).run i (w, ⟨table, []⟩)
      (processWebhookEvent client.toGitHubClient setup.engine event) es = some ((w', v'), p) →
    Truthful w'.dep.reviews v'.table := by
  intro h
  have hfinishes : (jobMachine id).finishes 0 (reviewedWorld [], ⟨⟨[], List.nodup_nil⟩, []⟩)
      sampleJob (reviewWritten ++ (mintsJwt ++ lookupHits ++ lookupHits ++
        requestUnauthorized).map SessionEvent.ofJob)
      (fun _ x => claimsTooMuch x) = true := by
    decide +kernel
  obtain ⟨⟨w', v'⟩, r, hrun, hclaims⟩ := Machine.exists_of_finishes hfinishes
  have htruthful := h _ _ _ _ _ _ _ _ _ _ _ rfl (by rintro row ⟨⟩) hrun
  obtain ⟨row, hrow, hclaim⟩ := List.any_eq_true.mp hclaims
  simp only [Bool.and_eq_true, decide_eq_true_eq, Bool.not_eq_true'] at hclaim
  rw [htruthful row hrow hclaim.1] at hclaim
  cases hclaim.2

end ReviewAgent
