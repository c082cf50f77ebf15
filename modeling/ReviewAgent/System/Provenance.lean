import ReviewAgent.Orchestrator.ForcedReview
import ReviewAgent.Reliability.GuardedHistories
import ReviewAgent.System.Subjects

/-! Whatever the system does beyond its own queue and log comes from a verified request. -/
namespace ReviewAgent

open Effects
open Json (Value)

/-- A request that verifies, and whose payload is read as the event. -/
structure Authorizes (deployment : Deployment) (request : WebhookRequest) (event : WebhookEvent) :
    Prop where
  verified : verifySignature deployment.hmac request.body request.signature deployment.secret = .ok ()
  pullRequest : request.event = some pullRequestEvent
  parsed : ∃ members deliveryId receivedAt, jsonLoads deployment.py request.body =
      .ok (.object members) ∧ request.delivery = some deliveryId ∧
    parsePullRequestPayload deployment.py (.object members) deliveryId receivedAt = .ok event

section

variable {deployment : Deployment} {request : WebhookRequest} {event : WebhookEvent}
  {client : RealGitHubClient} {setup : AgentSetup} {payload : Value}

/-! ### The web process -/

/-- An operation that gives the queue only events that the request authorizes. -/
def EnqueuesAuthorized (deployment : Deployment) (request : WebhookRequest)
    (op : RouteSignature.Op) : Prop :=
  ∀ event, op = .inr (.enqueue event) → Authorizes deployment request event

theorem route_authorizes : (receiveWebhook deployment.py deployment.hmac deployment.secret
    request).Issues (EnqueuesAuthorized deployment request) := by
  have hlog : ∀ deliveryId outcome, (emitIngress deliveryId outcome).Issues
      (EnqueuesAuthorized deployment request) :=
    fun deliveryId outcome => Program.issues_left (fun op event h => by cases h) _
  have hignore : ∀ delivery reason, (ignoreDelivery delivery reason).Issues
      (EnqueuesAuthorized deployment request) :=
    fun delivery reason => Program.issues_bind (hlog _ _) fun _ => trivial
  unfold receiveWebhook
  split
  · split
    · trivial
    · split
      · trivial
      · split <;> trivial
  · rename_i hverified
    split
    · split <;> trivial
    · rename_i members hbody
      unfold receiveObject
      split
      · exact hignore _ _
      · rename_i hevent
        split
        · trivial
        · exact hignore _ _
        · unfold actOn
          split
          · trivial
          · trivial
          · rename_i deliveryId hdelivery
            refine Program.issues_bind ⟨fun event h => (by cases h), fun _ => trivial⟩
              fun receivedAt => ?_
            split
            · rename_i event hparsed
              refine Program.issues_bind ⟨?_, fun _ => trivial⟩ fun result => ?_
              · rintro event' h
                cases h
                exact ⟨hverified, by simpa using hevent, members, _, receivedAt, hbody, hdelivery,
                  hparsed⟩
              · split
                · trivial
                · trivial
                · exact Program.issues_bind (hlog _ _) fun _ => trivial
            · split <;> trivial
    · trivial

/-- What the web process may issue for a request: of Redis, jobs of events that it authorizes. -/
def SystemOp.ForRequest (deployment : Deployment) (request : WebhookRequest) : SystemOp → Prop
  | .web (.queue (.dep (.enqueueJob function event))) =>
    function = arqJobFunctionName ∧ Authorizes deployment request event
  | .web _ => True
  | _ => False

theorem enqueue_forRequest {queue : RedisJobQueue} (h : Authorizes deployment request event) :
    (queue.enqueue event).Issues fun op =>
      SystemOp.ForRequest deployment request (.web (.queue op)) := by
  have hbookkeeping : ∀ op : GuardOp QueueSignature, (∀ o, op ≠ .dep o) →
      (∀ s, op = .sleep s → 0 < s) → SystemOp.ForRequest deployment request (.web (.queue op)) := by
    intro op hop _
    cases op with
    | dep o => exact absurd rfl (hop o)
    | _ => trivial
  refine Program.issues_bind (callReliably_issues hbookkeeping ?_) fun wasNewlySet => ?_
  · exact Program.issues_bind (Program.issues_perform trivial) fun _ => Program.issues_done _
  · split
    · refine Program.issues_bind (callReliably_issues hbookkeeping ?_) fun _ => trivial
      exact Program.issues_bind (Program.issues_perform ⟨rfl, h⟩) fun _ => Program.issues_done _
    · trivial

theorem route_forRequest :
    (deployment.route request).Issues (SystemOp.ForRequest deployment request) := by
  refine Program.issues_handle route_authorizes fun op hop => ?_
  match op with
  | .inl op => exact Program.issues_perform trivial
  | .inr .receivedAt => exact Program.issues_perform trivial
  | .inr (.enqueue event) =>
    exact Program.issues_attempt (Program.issues_relabel (enqueue_forRequest (hop event rfl)))

/-! ### The worker process -/

theorem about_issue {α : Type} {node : Node} {p : Orchestrated α}
    (h : p.Issues (OrchestratorOp.About event)) :
    (node.issue p).Issues fun op => (WorkerOp.engine op).About event :=
  Program.issues_relabel h

theorem yields_issue {α : Type} {node : Node} {p : Orchestrated α} {Q : Except Exc α → Prop}
    (h : p.Yields (OrchestratorOp.About event) Q) :
    (node.issue p).Yields (fun op => (WorkerOp.engine op).About event) Q :=
  Program.Yields.relabel h

theorem about_branches {state : GraphState} (hid : state.reviewId = event.reviewId)
    (agentTypes : List AgentType) : (setup.engine.branches event.reviewId state agentTypes).Issues
      fun op => (WorkerOp.engine op).About event := by
  induction agentTypes with
  | nil => trivial
  | cons agentType agentTypes ih =>
    refine Program.issues_bind (Program.issues_attempt (about_issue (about_specialistNode hid)))
      fun _ => ?_
    exact Program.issues_bind ih fun _ => Program.issues_done _

/-- A run checkpoints and writes what its event is about, and ends with a review of that. -/
theorem about_run {diff : String} :
    (setup.engine.run event.reviewId (event.initialState diff)).Yields
      (fun op => (WorkerOp.engine op).About event)
      fun r => ∀ final, r = .ok final → ∀ review, final.review = some review →
        review.subject = event.subject := by
  refine Program.Issues.bind_yields (Program.issues_perform rfl) (fun persisted => ?_) (by simp)
  have hstart : (GraphState.mergeInput persisted (event.initialState diff)).subject =
      event.subject := GraphState.subject_mergeInput persisted
  refine Program.Issues.bind_yields (Program.issues_perform ⟨rfl, hstart⟩) (fun _ => ?_) (by simp)
  refine Program.Issues.bind_yields (about_branches (congrArg Prod.fst hstart) _) (fun ended => ?_)
    (by simp)
  refine Program.ofExcept_yields (fun updates _ => ?_) (by simp)
  have hmerged : ((GraphState.mergeInput persisted (event.initialState diff)).reduceAll
      updates).subject = event.subject := GraphState.subject_reduceAll.trans hstart
  refine Program.Issues.bind_yields (Program.issues_perform ⟨rfl, hmerged⟩) (fun _ => ?_) (by simp)
  refine Program.Yields.bind (yields_issue (about_aggregateNode hmerged)) (fun made hmade => ?_) (by simp)
  refine Program.Issues.bind_yields (Program.issues_perform ⟨rfl, hmerged⟩) (fun _ => ?_) (by simp)
  rintro final hfinal review hreview
  obtain rfl := Except.ok.inj hfinal
  obtain rfl := Option.some.inj hreview
  exact hmade made rfl

/-- An operation of a job that is about the event. -/
abbrev JobAbout (event : WebhookEvent) (op : ((Guarded GitHubSignature).sum WorkerSignature).Op) :
    Prop := (ofJobOp op).About event

theorem about_runJob : (runJob client.toGitHubClient setup.engine event).Yields (JobAbout event)
    fun r => ∀ final, r = .ok final → ∀ review, final.review = some review →
      review.subject = event.subject := by
  have hmark : (markProcessed event.deliveryId).Issues fun op => (SystemOp.worker op).About event :=
    Program.issues_bind (Program.issues_perform rfl) fun _ => Program.issues_done _
  have hfetch : (client.fetchDiff event.pullRequest event.headSha).Issues fun op =>
      (SystemOp.gitHub op).About event := about_fetchDiff
  have hrun : ∀ diff, (runReviewBlocking setup.engine (event.initialState diff)).Yields
      (fun op => (SystemOp.worker op).About event) fun r => ∀ final, r = .ok final →
        ∀ review, final.review = some review → review.subject = event.subject :=
    fun diff => Program.Yields.relabel about_run
  refine Program.Issues.bind_yields (Program.issues_right hmark) (fun _ => ?_) (by simp)
  exact Program.Issues.bind_yields (Program.Issues.left hfetch) (fun diff => (hrun diff).right)
    (by simp)

/-- A job does what its event is about, and nothing else. -/
theorem about_processWebhookEvent :
    (processWebhookEvent client.toGitHubClient setup.engine event).Issues (JobAbout event) := by
  refine (about_runJob.bind (Q := fun _ => True) (fun result hresult => ?_)
    fun _ _ => trivial).issues
  refine Program.Issues.yields ?_ fun _ => trivial
  unfold dispatch
  split
  · rename_i review hreview
    refine Program.issues_bind (Program.Issues.left ?_) fun _ => Program.issues_done _
    unfold GitHubClient.postOrQueue
    split
    · exact about_postReviewComment (hresult result rfl review hreview)
    · exact Program.issues_done _
  · exact Program.issues_done _

/-! ### The system -/

/-- What a thread may issue: for a request, what it authorizes; for the job of an event, what is
about that event. -/
def SystemOp.ForArrival (deployment : Deployment) : Arrival → SystemOp → Prop
  | .request request, op => op.ForRequest deployment request
  | .job payload, op => ∀ event : WebhookEvent, payload = event.modelDump → op.About event

theorem body_forArrival (hint : ∀ n, deployment.py.laxInt (.int n) = some n) (arrival : Arrival) :
    (deployment.body arrival).Issues (SystemOp.ForArrival deployment arrival) := by
  cases arrival with
  | request request => exact Program.issues_bind route_forRequest fun _ => Program.issues_done _
  | job payload =>
    refine Program.issues_bind ?_ fun _ => Program.issues_done _
    by_cases hpayload : ∃ event : WebhookEvent, payload = event.modelDump
    · obtain ⟨event, rfl⟩ := hpayload
      have hjob : (deployment.job event.modelDump).Issues (SystemOp.About event) := by
        rw [Deployment.job, processPayload_modelDump hint]
        exact Program.issues_relabel about_processWebhookEvent
      refine hjob.mono fun op hop event' hdump => ?_
      have hread : WebhookEvent.modelValidate deployment.py event'.modelDump = .ok event' :=
        WebhookEvent.modelValidate_modelDump hint
      rw [← hdump, WebhookEvent.modelValidate_modelDump hint] at hread
      exact Except.ok.inj hread ▸ hop
    · have hany : ∀ p : Systemic JobSummary,
          p.Issues (SystemOp.ForArrival deployment (.job payload)) := by
        intro p
        induction p with
        | done r => trivial
        | step op next ih => exact ⟨fun event h => absurd ⟨event, h⟩ hpayload, ih⟩
      exact hany _

/-- Every job is of an event that an arrived request authorizes, and every operation outside the web
process is about such an event. -/
structure Vouched (deployment : Deployment) (w : SystemWorld) (arrivals : List Arrival) :
    Prop where
  jobs : ∀ job ∈ w.jobs, ∃ request, .request request ∈ arrivals ∧
    Authorizes deployment request job.2
  carriedOut : ∀ op ∈ w.carriedOut, (∀ webOp, op ≠ .web webOp) →
    ∃ request event, .request request ∈ arrivals ∧ Authorizes deployment request event ∧
      op.About event

variable {w : SystemWorld} {arrivals : List Arrival} {op : SystemOp} {applies : Bool}

theorem Vouched.arrives (h : Vouched deployment w arrivals) (arrival : Arrival) :
    Vouched deployment w (arrivals ++ [arrival]) := by
  refine ⟨fun job hjob => ?_, fun op hop hweb => ?_⟩
  · obtain ⟨request, hmem, hauthorizes⟩ := h.jobs job hjob
    exact ⟨request, List.mem_append_left _ hmem, hauthorizes⟩
  · obtain ⟨request, event, hmem, hrest⟩ := h.carriedOut op hop hweb
    exact ⟨request, event, List.mem_append_left _ hmem, hrest⟩

theorem jobsAfter_of_ne (h : ∀ function event, op ≠ .web (.queue (.dep (.enqueueJob function event)))) :
    w.jobsAfter applies op = w.jobs := by
  unfold SystemWorld.jobsAfter
  split
  · exact absurd rfl (h _ _)
  · rfl

/-- A step of the web process: a job that it places is authorized by its request. -/
theorem Vouched.web (h : Vouched deployment w arrivals) (hmem : .request request ∈ arrivals)
    (hop : op.ForRequest deployment request) :
    Vouched deployment ⟨w.jobsAfter applies op, op :: w.carriedOut⟩ arrivals := by
  constructor
  · intro job hjob
    by_cases hplaces : ∃ function event, op = .web (.queue (.dep (.enqueueJob function event)))
    · obtain ⟨function, event, rfl⟩ := hplaces
      simp only [SystemWorld.jobsAfter] at hjob
      split at hjob
      · rcases List.mem_cons.mp hjob with rfl | hjob
        · exact ⟨request, hmem, hop.2⟩
        · exact h.jobs job hjob
      · exact h.jobs job hjob
    · rw [jobsAfter_of_ne fun function event heq => hplaces ⟨function, event, heq⟩] at hjob
      exact h.jobs job hjob
  · intro op' hop' hweb
    rcases List.mem_cons.mp hop' with rfl | hop'
    · cases op' with
      | web webOp => exact absurd rfl (hweb webOp)
      | _ => exact hop.elim
    · exact h.carriedOut op' hop' hweb

/-- A step of the worker process, at the job of an authorized event. -/
theorem Vouched.work (h : Vouched deployment w arrivals) (hjob : MayArrive w (.job payload))
    (hop : op.ForArrival deployment (.job payload)) :
    Vouched deployment ⟨w.jobsAfter applies op, op :: w.carriedOut⟩ arrivals := by
  obtain ⟨event, hmemJob, hdump⟩ := hjob
  obtain ⟨request, hmem, hauthorizes⟩ := h.jobs _ hmemJob
  have habout : op.About event := hop event hdump
  constructor
  · rw [jobsAfter_of_ne fun function event' heq => by
      rw [heq] at habout
      exact habout]
    exact h.jobs
  · intro op' hop' hweb
    rcases List.mem_cons.mp hop' with rfl | hop'
    · exact ⟨request, event, hmem, hauthorizes, habout⟩
    · exact h.carriedOut op' hop' hweb

theorem mem_jobsAfter {job : String × WebhookEvent} (h : job ∈ w.jobs) : job ∈ w.jobsAfter applies op := by
  unfold SystemWorld.jobsAfter
  split
  · split
    · exact List.mem_cons_of_mem _ h
    · exact h
  · exact h

/-- However requests and jobs interleave, and however Redis, GitHub, the databases and the provider
answer: a job carries an event that an arrived request authorizes, and each marker, checkpoint, row
and GitHub request is about such an event. -/
theorem carried_out_for_verified_request (hint : ∀ n, deployment.py.laxInt (.int n) = some n)
    {schedule : List (Machine.Sched SystemChoice Empty Arrival)}
    {c : Machine.Config SystemSignature Exc Unit SystemWorld}
    (hallowed : system.StartsAllowed deployment.body MayArrive ⟨{}, []⟩ schedule)
    (h : system.exec deployment.body ⟨{}, []⟩ schedule = some c) :
    (∀ job ∈ c.world.jobs, ∃ request, .request request ∈ Machine.started schedule ∧
        Authorizes deployment request job.2) ∧
      ∀ op ∈ c.world.carriedOut, (∀ webOp, op ≠ .web webOp) →
        ∃ request event, .request request ∈ Machine.started schedule ∧
          Authorizes deployment request event ∧ op.About event := by
  have hstart : Vouched deployment {} [] :=
    ⟨fun job hjob => (by cases hjob), fun op hop => (by cases hop)⟩
  have hend : Vouched deployment c.world ([] ++ Machine.started schedule) := by
    refine Machine.exec_spawned (J := Vouched deployment) (G := MayArrive)
      (body_forArrival hint) (fun w arrivals arrival hJ hallows => ⟨hJ.arrives arrival, hallows⟩) ?_
      (fun w arrivals m => m.elim) ?_ (fun arrival w m => m.elim) [] (by simp) hstart hallowed h
    · intro w arrivals i arrival op choice r hJ hmem hG hop hr
      obtain ⟨answer, -, rfl⟩ := Option.map_eq_some_iff.mp hr
      cases arrival with
      | request request => exact hJ.web hmem hop
      | job payload => exact hJ.work hG hop
    · intro arrival i w op choice r hG hr
      obtain ⟨answer, -, rfl⟩ := Option.map_eq_some_iff.mp hr
      cases arrival with
      | request request => trivial
      | job payload => exact hG.imp fun _ hmem => ⟨mem_jobsAfter hmem.1, hmem.2⟩
  exact ⟨hend.jobs, hend.carriedOut⟩

end

/-- What an event carries. -/
def WebhookEvent.data (event : WebhookEvent) : ℕ × List String :=
  (event.prNumber, [event.action, event.repositoryOwner, event.repositoryName, event.headSha,
    event.deliveryId, event.receivedAt])

theorem data_injective : Function.Injective WebhookEvent.data := by
  rintro ⟨⟩ ⟨⟩ h
  simp only [WebhookEvent.data, Prod.mk.injEq, List.cons.injEq, and_true] at h
  obtain ⟨rfl, rfl, rfl, rfl, rfl, rfl, rfl⟩ := h
  rfl

/-- The settings' defaults, and one digest for every body. -/
def Deployment.sample : Deployment where
  py := .sample
  hmac := .sample
  secret := "whsec-test"
  queue := .default
  client := .default "42"
  setup := .sample

/-- A signed delivery of the schema's example. -/
def WebhookRequest.sample : WebhookRequest where
  body := Json.asciiBytes ("\x7b\"action\": \"opened\", \"pull_request\": \x7b\"number\": 12345, " ++
    "\"head\": \x7b\"sha\": \"abc123def456abc123def456abc123def456abc1\"\x7d\x7d, " ++
    "\"repository\": \x7b\"name\": \"myapp\", \"owner\": \x7b\"login\": \"myorg\"\x7d\x7d\x7d")
  signature := some "sha256=82de8be6b7d214d7a5d6d47d8c78bb5e6421929ca09d2459f1b6844425a8b36b"
  event := some "pull_request"
  delivery := some "12345678-1234-1234-1234-123456789012"

/-- Events, the queue and the processed markers at work. -/
def SystemChoice.sample : SystemChoice where
  applies := true
  answers
    | .web (.events op) => some (RunAnswers.healthy.at .aggregate op)
    | .web .receivedAt => some "2025-01-15T10:30:00Z"
    | .web (.queue .admission) => some (.ok ())
    | .web (.queue .recordFailure) => some ()
    | .web (.queue .recordSuccess) => some ()
    | .web (.queue (.sleep _)) => some ()
    | .web (.queue .rand) => some (0 : ℚ)
    | .web (.queue (.dep (.setNx ..))) => some (.returned true)
    | .web (.queue (.dep (.enqueueJob ..))) => some (.returned ())
    | .web (.queue (.dep (.answer ..))) => some ()
    | .worker (.markProcessed _) => some (.ok ())
    | _ => none

/-- The request is answered. -/
def requestHandled : List (Machine.Sched SystemChoice Empty Arrival) :=
  .start (.request .sample) :: List.replicate 9 (.act 0 .sample)

/-- Then its job is taken off the queue, and leaves the marker. -/
def jobTaken : List (Machine.Sched SystemChoice Empty Arrival) :=
  [.start (.job WebhookEvent.sample.modelDump), .act 1 .sample]

/-- The request's event is on the queue. -/
theorem requestHandled_jobs : ∃ c, system.exec Deployment.sample.body ⟨{}, []⟩ requestHandled =
    some c ∧ c.world.jobs = [(arqJobFunctionName, .sample)] := by
  have hdata : (system.exec Deployment.sample.body ⟨{}, []⟩ requestHandled).map
      (fun c => c.world.jobs.map fun job => (job.1, job.2.data)) =
        some [(arqJobFunctionName, WebhookEvent.sample.data)] := by
    decide +kernel
  obtain ⟨c, hc, hjobs⟩ := Option.map_eq_some_iff.mp hdata
  have hinjective : Function.Injective fun job : String × WebhookEvent => (job.1, job.2.data) := by
    intro job job' h
    obtain ⟨hname, hevent⟩ := Prod.mk.inj h
    exact Prod.ext hname (data_injective hevent)
  exact ⟨c, hc, List.map_injective_iff.mpr hinjective hjobs⟩

/-- The marker of a job is of a verified request. -/
theorem carried_out_for_sample : ∃ c, system.exec Deployment.sample.body ⟨{}, []⟩
      (requestHandled ++ jobTaken) = some c ∧ c.world.carriedOut.length = 10 ∧
    (∀ job ∈ c.world.jobs, ∃ request, .request request ∈
        Machine.started (requestHandled ++ jobTaken) ∧
      Authorizes .sample request job.2) ∧
    ∀ op ∈ c.world.carriedOut, (∀ webOp, op ≠ .web webOp) →
      ∃ request event, .request request ∈ Machine.started (requestHandled ++ jobTaken) ∧
        Authorizes .sample request event ∧ op.About event := by
  have hcarried : (system.exec Deployment.sample.body ⟨{}, []⟩ (requestHandled ++ jobTaken)).map
      (fun c => c.world.carriedOut.length) = some 10 := by
    decide +kernel
  obtain ⟨c, hc, hlength⟩ := Option.map_eq_some_iff.mp hcarried
  obtain ⟨c₁, hc₁, hjobs⟩ := requestHandled_jobs
  have hallowed : system.StartsAllowed Deployment.sample.body MayArrive ⟨{}, []⟩
      (requestHandled ++ jobTaken) := by
    refine Machine.startsAllowed_append (Machine.startsAllowed_of_forall fun label hlabel w => ?_)
      hc₁ ⟨fun label hlabel => ?_, ?_⟩
    · obtain rfl : label = .request .sample := by simpa [requestHandled] using hlabel
      trivial
    · obtain rfl := Machine.Sched.start.inj hlabel
      exact ⟨.sample, by simp [hjobs], rfl⟩
    · split
      · trivial
      · exact Machine.startsAllowed_of_forall fun label hlabel => by simp at hlabel
  exact ⟨c, hc, hlength, carried_out_for_verified_request (fun _ => rfl) hallowed hc⟩

end ReviewAgent
