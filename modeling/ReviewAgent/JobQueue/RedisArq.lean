import ReviewAgent.Models.Webhook
import ReviewAgent.Reliability.Guarded
import ReviewAgent.Reliability.Timeout

/-! The Redis/ARQ job queue, and the part of the webhook route that answers for it. -/
namespace ReviewAgent

open Effects

def idempotencyKeyPrefix : String := "pr-review-agent:webhook-delivery:"

def idempotencyValue : String := "1"

def arqJobFunctionName : String := "process_webhook_event"

/-- `_NON_RETRYABLE_EXCEPTIONS` of the queue. -/
def queueNonRetryableExceptions : List ExcClass :=
  [.typeError, .valueError, .keyError, .attributeError, .circuitOpenError]

def queueCircuitBreakerName : String := "redis_job_queue"

/-- What the webhook route sends back for an event it acts on. -/
inductive WebhookAnswer where
  | json (status : String) (deliveryId : String)
  | httpException (statusCode : ℕ) (detail : String)
  | serverError (e : Exc)
  deriving DecidableEq

/-- Redis operations of the queue, and the answer leaving for GitHub. -/
inductive QueueOp where
  | setNx (key value : String) (ex : ℕ)
  | enqueueJob (function : String) (event : WebhookEvent)
  | answer (deliveryId : String) (a : WebhookAnswer)

abbrev QueueSignature : Signature where
  Op := QueueOp
  Answer
    | .setNx .. => Future Bool
    | .enqueueJob .. => Future Unit
    | .answer .. => Unit

structure RedisJobQueue where
  ttlSeconds : ℕ
  retryPolicy : RetryPolicy
  timeoutPolicy : TimeoutPolicy

structure EnqueueResult where
  enqueued : Bool
  deliveryId : String
  deriving DecidableEq

def queueUnavailable (e : Exc) : Exc :=
  .plain .queueUnavailableError
    ("job queue is temporarily unavailable (Redis unreachable " ++
      s!"or circuit breaker open): {e.message}")

def idempotencyKey (deliveryId : String) : String := idempotencyKeyPrefix ++ deliveryId

theorem idempotencyKey_injective {a b : String} (h : idempotencyKey a = idempotencyKey b) :
    a = b := by
  have := congrArg String.toList h
  simp only [idempotencyKey, String.toList_append, List.append_cancel_left_eq] at this
  exact String.toList_inj.mp this

namespace RedisJobQueue

variable (queue : RedisJobQueue)

/-- Programs of the queue. -/
abbrev Queued (α : Type) : Type := Program (Guarded QueueSignature) Exc α

/-- `_call_reliably`. -/
def callReliably {D : Signature} {T : Type} (func : Program (Guarded D) Exc T) :
    Program (Guarded D) Exc T :=
  ReviewAgent.callReliably queue.retryPolicy queueNonRetryableExceptions queueUnavailable func

/-- `_set_idempotency_key`. -/
def setIdempotencyKey (key : String) : Queued Bool := do
  let future ← dep (D := QueueSignature) (.setNx key idempotencyValue queue.ttlSeconds)
  Program.ofExcept (awaitFuture queue.timeoutPolicy future)

/-- `_enqueue_arq_job`. -/
def enqueueArqJob (event : WebhookEvent) : Queued Unit := do
  let future ← dep (D := QueueSignature) (.enqueueJob arqJobFunctionName event)
  Program.ofExcept (awaitFuture queue.timeoutPolicy future)

def enqueue (event : WebhookEvent) : Queued EnqueueResult := do
  let wasNewlySet ← queue.callReliably (queue.setIdempotencyKey (idempotencyKey event.deliveryId))
  if wasNewlySet then do
    queue.callReliably (queue.enqueueArqJob event)
    pure ⟨true, event.deliveryId⟩
  else pure ⟨false, event.deliveryId⟩

/-- What `receive_webhook` makes of the outcome of `enqueue`. -/
def answerFor : Except Exc EnqueueResult → WebhookAnswer
  | .ok result => .json (if result.enqueued then "accepted" else "duplicate") result.deliveryId
  | .error e =>
    if e.isInstance .queueUnavailableError then
      .httpException 503 s!"job queue temporarily unavailable: {e.message}"
    else .serverError e

/-- The end of `receive_webhook`, from the parsed event on. -/
def receiveWebhook (event : WebhookEvent) : Queued Unit := do
  let outcome ← (queue.enqueue event).attempt
  dep (D := QueueSignature) (.answer event.deliveryId (answerFor outcome))

/-- Deliveries arriving one after the other. -/
def receiveAll : List WebhookEvent → Queued Unit
  | [] => pure ()
  | event :: events => do
    queue.receiveWebhook event
    receiveAll events

end RedisJobQueue

/-- The settings' default delay before the second attempt. -/
theorem defaultBaseDelay_nonneg : (0 : ℚ) ≤ 1 / 10 := by decide +kernel

theorem defaultBaseDelay_le : (1 / 10 : ℚ) ≤ 2 := by decide +kernel

/-- The queue under the default settings. -/
def RedisJobQueue.default : RedisJobQueue where
  ttlSeconds := 7 * 24 * 60 * 60
  retryPolicy := ⟨3, 1 / 10, 2, true, one_le_defaultMaxAttempts, defaultBaseDelay_nonneg,
    defaultBaseDelay_le⟩
  timeoutPolicy := ⟨10, defaultTimeout_pos⟩

/-- The queue's breaker under the default settings, before its first call. -/
def RedisJobQueue.defaultBreaker : CircuitBreaker where
  config := ⟨5, 30, one_le_defaultThreshold, defaultResetTimeout_pos⟩
  name := queueCircuitBreakerName

structure ArqJob where
  function : String
  event : WebhookEvent

/-- One attempt on Redis: who made it, how it ended, whether it changed anything. -/
structure Attempt where
  caller : ℕ
  op : QueueOp
  outcome : Outcome
  applied : Bool

/-- An answer, with what Redis held for its delivery when it left. -/
structure Answered where
  deliveryId : String
  answer : WebhookAnswer
  keySet : Bool
  jobPlaced : Bool

/-- Redis as the queue sees it. `history` and `answers` are newest first and never read back. -/
structure QueueWorld where
  keys : List String := []
  jobs : List ArqJob := []
  history : List Attempt := []
  answers : List Answered := []

namespace QueueWorld

variable (w : QueueWorld)

/-- Some job for the delivery is on the queue. -/
def HasJob (deliveryId : String) : Prop := ∃ job ∈ w.jobs, job.event.deliveryId = deliveryId

instance (deliveryId : String) : Decidable (w.HasJob deliveryId) :=
  inferInstanceAs (Decidable (∃ job ∈ w.jobs, _))

def HasKey (deliveryId : String) : Prop := idempotencyKey deliveryId ∈ w.keys

instance (deliveryId : String) : Decidable (w.HasKey deliveryId) :=
  inferInstanceAs (Decidable (_ ∈ _))

/-- The attempts of one caller, newest first. -/
def attemptsOf (caller : ℕ) : List Attempt :=
  w.history.filter fun a => a.caller = caller

/-- `SET key value NX EX ttl`, within the lifetime of the keys. -/
def setNx (caller : ℕ) (key value : String) (ex : ℕ) (o : Outcome) : QueueWorld :=
  let applied := o.applies && decide (key ∉ w.keys)
  { w with
    keys := if applied then key :: w.keys else w.keys
    history := ⟨caller, .setNx key value ex, o, applied⟩ :: w.history }

/-- `enqueue_job` without a job id: each effective call stores a fresh job. -/
def enqueueJob (caller : ℕ) (function : String) (event : WebhookEvent) (o : Outcome) :
    QueueWorld :=
  { w with
    jobs := if o.applies then ⟨function, event⟩ :: w.jobs else w.jobs
    history := ⟨caller, .enqueueJob function event, o, o.applies⟩ :: w.history }

def answer (deliveryId : String) (a : WebhookAnswer) : QueueWorld :=
  { w with answers :=
      ⟨deliveryId, a, decide (w.HasKey deliveryId), decide (w.HasJob deliveryId)⟩ :: w.answers }

end QueueWorld

section

variable {w : QueueWorld} {i ex : ℕ} {d key value function : String} {event : WebhookEvent}
  {o : Outcome}

theorem hasJob_of_hasJob (h : w.HasJob d) :
    (w.enqueueJob i function event o).HasJob d := by
  obtain ⟨job, hjob, hd⟩ := h
  refine ⟨job, ?_, hd⟩
  simp only [QueueWorld.enqueueJob]
  split <;> simp [hjob]

theorem hasJob_of_applies (h : o.applies = true) :
    (w.enqueueJob i function event o).HasJob event.deliveryId := by
  refine ⟨⟨function, event⟩, ?_, rfl⟩
  simp [QueueWorld.enqueueJob, h]

theorem attemptsOf_setNx : (w.setNx i key value ex o).attemptsOf i =
    ⟨i, .setNx key value ex, o, o.applies && decide (key ∉ w.keys)⟩ :: w.attemptsOf i := by
  simp [QueueWorld.attemptsOf, QueueWorld.setNx]

theorem attemptsOf_enqueueJob : (w.enqueueJob i function event o).attemptsOf i =
    ⟨i, .enqueueJob function event, o, o.applies⟩ :: w.attemptsOf i := by
  simp [QueueWorld.attemptsOf, QueueWorld.enqueueJob]

end

/-- Redis. Nothing but the callers changes it. -/
def redis : Machine QueueSignature QueueWorld Outcome Empty where
  perform caller w
    | .setNx key value ex, o =>
      some (w.setNx caller key value ex o, o.future (decide (key ∉ w.keys)))
    | .enqueueJob function event, o =>
      some (w.enqueueJob caller function event o, o.future ())
    | .answer deliveryId a, _ => some (w.answer deliveryId a, ())
  move _ m := m.elim

/-- The queue's clients (one per process) over the shared Redis. -/
abbrev queueMachine (inst : ℕ → ℕ) : Machine (Guarded QueueSignature) (GuardWorld QueueWorld)
    (GuardChoice Outcome) (GuardMove Empty) :=
  guarded redis inst

/-- Redis and the clients at start-up, under the default settings. -/
def QueueWorld.initial : GuardWorld QueueWorld where
  breaker _ := RedisJobQueue.defaultBreaker
  clock := 0
  running := []
  dep := {}

section

variable {inst : ℕ → ℕ} {i : ℕ} {w w' : GuardWorld QueueWorld} {c : GuardChoice Outcome}

theorem perform_setNx {key value : String} {ex : ℕ} {answer : Future Bool}
    (h : (queueMachine inst).perform i w (.dep (.setNx key value ex)) c = some (w', answer)) :
    ∃ o, c = .dep o ∧ w'.dep = w.dep.setNx i key value ex o ∧
      answer = o.future (decide (key ∉ w.dep.keys)) := by
  cases c <;> simp only [guarded, guardPerform, redis] at h <;> cases h
  exact ⟨_, rfl, rfl, rfl⟩

theorem perform_enqueueJob {function : String} {event : WebhookEvent} {answer : Future Unit}
    (h : (queueMachine inst).perform i w (.dep (.enqueueJob function event)) c =
      some (w', answer)) :
    ∃ o, c = .dep o ∧ w'.dep = w.dep.enqueueJob i function event o ∧ answer = o.future () := by
  cases c <;> simp only [guarded, guardPerform, redis] at h <;> cases h
  exact ⟨_, rfl, rfl, rfl⟩

theorem perform_answer {deliveryId : String} {a : WebhookAnswer} {answer : Unit}
    (h : (queueMachine inst).perform i w (.dep (.answer deliveryId a)) c = some (w', answer)) :
    w'.dep = w.dep.answer deliveryId a := by
  cases c <;> simp only [guarded, guardPerform, redis] at h <;> cases h
  rfl

theorem queueMove_dep {w w' : GuardWorld QueueWorld} {m : GuardMove Empty}
    (h : (queueMachine inst).move w m = some w') : w'.dep = w.dep :=
  (guardMove_dep h).resolve_right fun ⟨m, _⟩ => m.elim

end

/-- The schedule of one attempt: admission, Redis, the record of the outcome. -/
def attemptEnds (o : Outcome) : List (Machine.Event (GuardChoice Outcome) (GuardMove Empty)) :=
  [.act .go, .act (.dep o), .act .go]

/-- The draw that makes the next attempt follow at once. -/
def retryAtOnce : List (Machine.Event (GuardChoice Outcome) (GuardMove Empty)) :=
  [.act (.rand 0)]

end ReviewAgent
