import ReviewAgent.JobQueue.InMemory
import ReviewAgent.JobQueue.Payload
import ReviewAgent.Reliability.Scripted

/-! The Redis queue against the in-memory one, while Redis answers every operation. -/
namespace ReviewAgent

open Effects
open Json (Value)

/-- A job as ARQ holds it. -/
structure ArqPayload where
  function : String
  argument : Value

/-- What a worker makes of a payload. -/
def ArqPayload.load (py : Interpreter) (payload : ArqPayload) : Except Exc WebhookEvent :=
  WebhookEvent.modelValidate py payload.argument

/-- Redis: its clock, when each key that was ever set expires, and ARQ's queue in the order of the
calls. -/
structure RedisServer where
  clock : ℚ := 0
  expiresAt : String → Option ℚ := fun _ => none
  queued : List ArqPayload := []

namespace RedisServer

variable (s : RedisServer)

/-- A key holds until the moment it expires. -/
def Live (key : String) : Prop := ∃ t, s.expiresAt key = some t ∧ s.clock < t

/-- A key was set, and is gone. -/
def Expired (key : String) : Prop := ∃ t, s.expiresAt key = some t ∧ t ≤ s.clock

instance (key : String) : Decidable (s.Live key) :=
  match h : s.expiresAt key with
  | none => isFalse fun ⟨t, ht, _⟩ => by simp [h] at ht
  | some t => decidable_of_iff (s.clock < t) ⟨fun hlt => ⟨t, h, hlt⟩,
      fun ⟨t', ht', hlt⟩ => (Option.some.inj (h.symm.trans ht')) ▸ hlt⟩

/-- `SET key value NX EX ttl`. -/
def setNx (key : String) (ex : ℕ) : RedisServer :=
  if s.Live key then s
  else { s with expiresAt := Function.update s.expiresAt key (some (s.clock + ex)) }

/-- `enqueue_job`. -/
def enqueueJob (function : String) (event : WebhookEvent) : RedisServer :=
  { s with queued := s.queued ++ [⟨function, event.modelDump⟩] }

/-- The key of an event set, and its job stored. -/
def accept (ttl : ℕ) (event : WebhookEvent) : RedisServer where
  clock := s.clock
  expiresAt := Function.update s.expiresAt (idempotencyKey event.deliveryId) (some (s.clock + ttl))
  queued := s.queued ++ [⟨arqJobFunctionName, event.modelDump⟩]

/-- The jobs as a worker reads them. -/
def jobs (py : Interpreter) : List (Except Exc WebhookEvent) := s.queued.map (·.load py)

def elapse (seconds : ℚ) : RedisServer := { s with clock := s.clock + seconds }

/-- Redis when every operation succeeds at its first attempt. -/
def healthy : Script QueueSignature RedisServer
  | .setNx key _ ex, s => (.returned (decide (¬ s.Live key)), s.setNx key ex)
  | .enqueueJob function event, s => (.returned (), s.enqueueJob function event)
  | .answer .., s => ((), s)

end RedisServer

/-- Redis behind the reliability layer. -/
abbrev redisScript (draw : ℚ) : Script (Guarded QueueSignature) (ScriptedClient RedisServer) :=
  guardScript RedisServer.healthy (fun seconds s => s.elapse seconds) draw

/-- The Redis queue as its callers see it, with the clock running between the calls. -/
def RedisJobQueue.asJobQueue (queue : RedisJobQueue) (draw : ℚ) :
    JobQueue (ScriptedClient RedisServer) where
  enqueue event s := (queue.enqueue event).play (redisScript draw) s
  elapse seconds s := s.pass (fun seconds s => s.elapse seconds) seconds

/-- The queue at start-up, over an empty Redis. -/
def RedisServer.atStart (config : CircuitBreakerConfig) (start : ℚ) :
    ScriptedClient RedisServer where
  breaker := { config, name := queueCircuitBreakerName }
  clock := start
  dep := { clock := start }

/-- No id is enqueued again once `ttl` seconds have passed since its first acceptance, the time of
which `accepted` keeps. -/
def WithinTtl (ttl : ℕ) : (accepted : String → Option ℚ) → (now : ℚ) → List QueueStep → Prop
  | _, _, [] => True
  | accepted, now, .advance seconds :: steps => WithinTtl ttl accepted (now + seconds) steps
  | accepted, now, .enqueue event :: steps =>
    match accepted event.deliveryId with
    | none =>
      WithinTtl ttl (Function.update accepted event.deliveryId (some now)) now steps
    | some t => now < t + ttl ∧ WithinTtl ttl accepted now steps

section

variable {queue : RedisJobQueue} {draw : ℚ} {s : ScriptedClient RedisServer}
  {q : InMemoryJobQueue} {event : WebhookEvent} {py : Interpreter}

/-- The check of the key: `True` if there was no live one. -/
theorem play_setIdempotencyKey (hclosed : s.breaker.state = .closed) (key : String) :
    (queue.callReliably (queue.setIdempotencyKey key)).play (redisScript draw) s =
      (.ok (decide (¬ s.dep.Live key)),
        { s with
          breaker := s.breaker.recordSuccess
          dep := s.dep.setNx key queue.ttlSeconds }) := by
  have hset : (queue.setIdempotencyKey key).play (redisScript draw) s =
      (.ok (decide (¬ s.dep.Live key)),
        { s with dep := s.dep.setNx key queue.ttlSeconds }) := rfl
  exact play_callReliably_closed hclosed hset

theorem play_enqueueArqJob (hclosed : s.breaker.state = .closed) (event : WebhookEvent) :
    (queue.callReliably (queue.enqueueArqJob event)).play (redisScript draw) s =
      (.ok (),
        { s with
          breaker := s.breaker.recordSuccess
          dep := s.dep.enqueueJob arqJobFunctionName event }) := by
  have hjob : (queue.enqueueArqJob event).play (redisScript draw) s =
      (.ok (), { s with dep := s.dep.enqueueJob arqJobFunctionName event }) := rfl
  exact play_callReliably_closed hclosed hjob

/-- A call finds the key of its delivery, and changes nothing in Redis. -/
theorem play_enqueue_live (hclosed : s.breaker.state = .closed)
    (hlive : s.dep.Live (idempotencyKey event.deliveryId)) :
    (queue.enqueue event).play (redisScript draw) s =
      (.ok ⟨false, event.deliveryId⟩, { s with breaker := s.breaker.recordSuccess }) := by
  rw [RedisJobQueue.enqueue, Program.play_bind_ok (play_setIdempotencyKey hclosed _)]
  simp only [hlive, not_true, decide_false, RedisServer.setNx, if_true]
  rfl

/-- A call finds no key, sets it and stores a job. -/
theorem play_enqueue_accepts (hclosed : s.breaker.state = .closed)
    (hlive : ¬ s.dep.Live (idempotencyKey event.deliveryId)) :
    (queue.enqueue event).play (redisScript draw) s =
      (.ok ⟨true, event.deliveryId⟩,
        { s with
          breaker := s.breaker.recordSuccess
          dep := s.dep.accept queue.ttlSeconds event }) := by
  rw [RedisJobQueue.enqueue, Program.play_bind_ok (play_setIdempotencyKey hclosed _)]
  simp only [hlive, not_false_iff, decide_true, RedisServer.setNx, if_false, if_true]
  rw [Program.play_bind_ok (play_enqueueArqJob rfl event)]
  rfl

/-- A call has one result on both queues, and gives both the same jobs. -/
def SameCall (py : Interpreter) (queue : RedisJobQueue) (draw : ℚ) (event : WebhookEvent)
    (s : ScriptedClient RedisServer) (q : InMemoryJobQueue) : Prop :=
  ((queue.asJobQueue draw).enqueue event s).1 = .ok (q.enqueue event).1 ∧
    ∃ added : List WebhookEvent,
      ((queue.asJobQueue draw).enqueue event s).2.dep.jobs py =
        s.dep.jobs py ++ added.map .ok ∧
      (q.enqueue event).2.jobs = q.jobs ++ added

/-- Redis takes an event that the other queue refuses. -/
def Reaccepts (py : Interpreter) (queue : RedisJobQueue) (draw : ℚ) (event : WebhookEvent)
    (s : ScriptedClient RedisServer) (q : InMemoryJobQueue) : Prop :=
  ((queue.asJobQueue draw).enqueue event s).1 = .ok ⟨true, event.deliveryId⟩ ∧
    ((queue.asJobQueue draw).enqueue event s).2.dep.jobs py = s.dep.jobs py ++ [.ok event] ∧
    q.enqueue event = (⟨false, event.deliveryId⟩, q)

/-- Every id the one queue has seen has, or had, its key in Redis. -/
structure Follows (py : Interpreter) (s : ScriptedClient RedisServer) (q : InMemoryJobQueue) :
    Prop where
  closed : s.breaker.state = .closed
  seen : ∀ d, d ∈ q.seenDeliveryIds ↔ ∃ t, s.dep.expiresAt (idempotencyKey d) = some t
  jobs : ∃ jobs : List WebhookEvent, s.dep.jobs py = jobs.map .ok ∧
    firstPerDelivery jobs = q.jobs ∧
    ∀ d, d ∈ q.seenDeliveryIds ↔ (jobs.any fun job => job.deliveryId = d) = true

/-- A key that was set is live or expired. -/
theorem RedisServer.live_or_expired {s : RedisServer} {key : String} {t : ℚ}
    (h : s.expiresAt key = some t) : s.Live key ∨ s.Expired key :=
  (lt_or_ge s.clock t).imp (fun hlt => ⟨t, h, hlt⟩) fun hle => ⟨t, h, hle⟩

theorem RedisServer.not_live_of_expired {s : RedisServer} {key : String} (h : s.Expired key) :
    ¬ s.Live key := by
  rintro ⟨t, ht, hlt⟩
  obtain ⟨t', ht', hle⟩ := h
  obtain rfl := Option.some.inj (ht.symm.trans ht')
  exact absurd hlt (not_lt.mpr hle)

/-- A call meets a live key, an expired one, or an id neither queue has seen. -/
theorem Follows.cases (h : Follows py s q) (d : String) :
    (s.dep.Live (idempotencyKey d) ∧ d ∈ q.seenDeliveryIds) ∨
      (s.dep.Expired (idempotencyKey d) ∧ d ∈ q.seenDeliveryIds) ∨
      (¬ s.dep.Live (idempotencyKey d) ∧ ¬ s.dep.Expired (idempotencyKey d) ∧
        d ∉ q.seenDeliveryIds) := by
  by_cases hseen : d ∈ q.seenDeliveryIds
  · obtain ⟨t, ht⟩ := (h.seen d).mp hseen
    rcases RedisServer.live_or_expired ht with hlive | hexpired
    · exact Or.inl ⟨hlive, hseen⟩
    · exact Or.inr (Or.inl ⟨hexpired, hseen⟩)
  · refine Or.inr (Or.inr ⟨?_, ?_, hseen⟩)
    · rintro ⟨t, ht, -⟩
      exact hseen ((h.seen d).mpr ⟨t, ht⟩)
    · rintro ⟨t, ht, -⟩
      exact hseen ((h.seen d).mpr ⟨t, ht⟩)

/-- Accepting an event sets its key, and no other. -/
theorem expiresAt_accept {server : RedisServer} {ttl : ℕ} {d : String} :
    (server.accept ttl event).expiresAt (idempotencyKey d) =
      if d = event.deliveryId then some (server.clock + ttl)
      else server.expiresAt (idempotencyKey d) := by
  split
  · rename_i hd
    rw [hd]
    exact Function.update_self ..
  · rename_i hd
    exact Function.update_of_ne (fun hkey => hd (idempotencyKey_injective hkey)) ..

variable (hint : ∀ n, py.laxInt (.int n) = some n)
include hint

/-- What Redis stores, a worker reads back. -/
theorem jobs_accept (server : RedisServer) (ttl : ℕ) (event : WebhookEvent) :
    (server.accept ttl event).jobs py = server.jobs py ++ [.ok event] := by
  simp only [RedisServer.accept, RedisServer.jobs, List.map_append, List.map_cons, List.map_nil,
    ArqPayload.load, WebhookEvent.modelValidate_modelDump hint]

/-- One call compared: Redis takes back an expired id, and otherwise does as the other queue. -/
theorem Follows.call (h : Follows py s q) (event : WebhookEvent) :
    (s.dep.Expired (idempotencyKey event.deliveryId) →
        Reaccepts py queue draw event s q) ∧
      (¬ s.dep.Expired (idempotencyKey event.deliveryId) →
        SameCall py queue draw event s q) := by
  rcases h.cases event.deliveryId with ⟨hlive, hseen⟩ | ⟨hexpired, hseen⟩ | ⟨hlive, hexpired, hseen⟩
  · refine ⟨fun he => absurd hlive (RedisServer.not_live_of_expired he), fun _ => ?_⟩
    simp only [SameCall, RedisJobQueue.asJobQueue, play_enqueue_live h.closed hlive,
      InMemoryJobQueue.enqueue_seen hseen, true_and]
    exact ⟨[], by simp⟩
  · refine ⟨fun _ => ?_, fun he => absurd hexpired he⟩
    simp only [Reaccepts, RedisJobQueue.asJobQueue, InMemoryJobQueue.enqueue_seen hseen, and_true,
      play_enqueue_accepts h.closed (RedisServer.not_live_of_expired hexpired), true_and]
    exact jobs_accept hint s.dep queue.ttlSeconds event
  · refine ⟨fun he => absurd he hexpired, fun _ => ?_⟩
    simp only [SameCall, RedisJobQueue.asJobQueue, play_enqueue_accepts h.closed hlive,
      InMemoryJobQueue.enqueue_unseen hseen, true_and]
    exact ⟨[event], jobs_accept hint s.dep queue.ttlSeconds event, rfl⟩

theorem Follows.enqueue (h : Follows py s q) (event : WebhookEvent) :
    Follows py ((queue.asJobQueue draw).enqueue event s).2 (q.enqueue event).2 := by
  obtain ⟨jobs, hjobs, hfirst, hseen⟩ := h.jobs
  rcases h.cases event.deliveryId with ⟨hlive, hin⟩ | ⟨hexpired, hin⟩ | ⟨hlive, -, hin⟩
  · simp only [RedisJobQueue.asJobQueue, play_enqueue_live h.closed hlive,
      InMemoryJobQueue.enqueue_seen hin]
    exact ⟨rfl, h.seen, h.jobs⟩
  · simp only [RedisJobQueue.asJobQueue, InMemoryJobQueue.enqueue_seen hin,
      play_enqueue_accepts h.closed (RedisServer.not_live_of_expired hexpired)]
    refine ⟨rfl, fun d => ?_, jobs ++ [event], ?_, ?_, fun d => ?_⟩
    · rw [expiresAt_accept]
      split
      · rename_i hd
        simp [hd, hin]
      · exact h.seen d
    · rw [jobs_accept hint, hjobs, List.map_append]
      rfl
    · rw [firstPerDelivery_concat, firstPerDelivery_any, if_pos ((hseen _).mp hin), hfirst]
    · rw [List.any_append, Bool.or_eq_true, ← hseen d]
      refine ⟨Or.inl, fun hor => hor.elim id fun hlast => ?_⟩
      have hd : event.deliveryId = d := by simpa using hlast
      exact hd ▸ hin
  · simp only [RedisJobQueue.asJobQueue, play_enqueue_accepts h.closed hlive,
      InMemoryJobQueue.enqueue_unseen hin]
    have hnot : ¬ (jobs.any fun job => job.deliveryId = event.deliveryId) = true :=
      fun hany => hin ((hseen _).mpr hany)
    refine ⟨rfl, fun d => ?_, jobs ++ [event], ?_, ?_, fun d => ?_⟩
    · rw [expiresAt_accept, Finset.mem_insert]
      split
      · rename_i hd
        simp [hd]
      · rename_i hd
        rw [h.seen d]
        exact or_iff_right hd
    · rw [jobs_accept hint, hjobs, List.map_append]
      rfl
    · rw [firstPerDelivery_concat, firstPerDelivery_any, if_neg hnot, hfirst]
    · rw [List.any_append, Bool.or_eq_true, ← hseen d, Finset.mem_insert, or_comm]
      simp [eq_comm]

/-- A run keeps the two queues together. -/
theorem Follows.run (h : Follows py s q) (steps : List QueueStep) :
    Follows py ((queue.asJobQueue draw).run s steps).2 (InMemoryJobQueue.asJobQueue.run q steps).2 := by
  induction steps generalizing s q with
  | nil => exact h
  | cons step steps ih =>
    cases step with
    | enqueue event => exact ih (h.enqueue hint event)
    | advance seconds => exact ih ⟨h.closed, h.seen, h.jobs⟩

omit hint in
/-- While no id has come back late, a key expires `ttl` seconds after the first acceptance. -/
structure InTime (py : Interpreter) (ttl : ℕ) (accepted : String → Option ℚ) (now : ℚ)
    (s : ScriptedClient RedisServer) (q : InMemoryJobQueue) : Prop where
  closed : s.breaker.state = .closed
  clock : s.dep.clock = now
  key : ∀ d, s.dep.expiresAt (idempotencyKey d) = (accepted d).map (· + (ttl : ℚ))
  seen : ∀ d, d ∈ q.seenDeliveryIds ↔ ∃ t, accepted d = some t
  jobs : s.dep.jobs py = q.jobs.map .ok

variable {accepted : String → Option ℚ} {now : ℚ}

/-- The first call of an id is accepted by both. -/
theorem InTime.accepts (draw : ℚ) (h : InTime py queue.ttlSeconds accepted now s q)
    (hnone : accepted event.deliveryId = none) :
    (queue.asJobQueue draw).enqueue event s = (.ok (q.enqueue event).1,
        { s with
          breaker := s.breaker.recordSuccess
          dep := s.dep.accept queue.ttlSeconds event }) ∧
      InTime py queue.ttlSeconds (Function.update accepted event.deliveryId (some now)) now
        { s with
          breaker := s.breaker.recordSuccess
          dep := s.dep.accept queue.ttlSeconds event } (q.enqueue event).2 := by
  have hkey : s.dep.expiresAt (idempotencyKey event.deliveryId) = none := by
    rw [h.key, hnone, Option.map_none]
  have hlive : ¬ s.dep.Live (idempotencyKey event.deliveryId) := by
    rintro ⟨t, ht, -⟩
    rw [hkey] at ht
    cases ht
  have hin : event.deliveryId ∉ q.seenDeliveryIds := by simp [h.seen, hnone]
  rw [InMemoryJobQueue.enqueue_unseen hin]
  refine ⟨play_enqueue_accepts h.closed hlive, rfl, h.clock, fun d => ?_, fun d => ?_, ?_⟩
  · rw [expiresAt_accept]
    split
    · rename_i hd
      simp [hd, h.clock]
    · rename_i hd
      rw [Function.update_of_ne hd, h.key]
  · rw [Finset.mem_insert, h.seen]
    by_cases hd : d = event.deliveryId
    · simp [hd]
    · simp [hd]
  · rw [jobs_accept hint, h.jobs, List.map_append]
    rfl

omit hint in
/-- A later call within the lifetime of the key is refused by both. -/
theorem InTime.refuses (draw : ℚ) (h : InTime py queue.ttlSeconds accepted now s q) {t : ℚ}
    (hsome : accepted event.deliveryId = some t) (hlt : now < t + queue.ttlSeconds) :
    (queue.asJobQueue draw).enqueue event s =
        (.ok (q.enqueue event).1, { s with breaker := s.breaker.recordSuccess }) ∧
      InTime py queue.ttlSeconds accepted now
        { s with breaker := s.breaker.recordSuccess } (q.enqueue event).2 := by
  have hlive : s.dep.Live (idempotencyKey event.deliveryId) :=
    ⟨t + queue.ttlSeconds, by rw [h.key, hsome, Option.map_some], by rw [h.clock]; exact hlt⟩
  have hin : event.deliveryId ∈ q.seenDeliveryIds := (h.seen _).mpr ⟨t, hsome⟩
  rw [InMemoryJobQueue.enqueue_seen hin]
  exact ⟨play_enqueue_live h.closed hlive, rfl, h.clock, h.key, h.seen, h.jobs⟩

/-- Over a run in which no id comes back late the two queues return the same and hold the same. -/
theorem InTime.run {steps : List QueueStep} (h : InTime py queue.ttlSeconds accepted now s q)
    (hsteps : WithinTtl queue.ttlSeconds accepted now steps) :
    ((queue.asJobQueue draw).run s steps).1 = (InMemoryJobQueue.asJobQueue.run q steps).1 ∧
      ((queue.asJobQueue draw).run s steps).2.dep.jobs py =
        (InMemoryJobQueue.asJobQueue.run q steps).2.jobs.map .ok := by
  induction steps generalizing s q accepted now with
  | nil => exact ⟨rfl, h.jobs⟩
  | cons step steps ih =>
    cases step with
    | advance seconds =>
      exact ih ⟨h.closed, by rw [← h.clock]; rfl, h.key, h.seen, h.jobs⟩ hsteps
    | enqueue event =>
      rw [WithinTtl] at hsteps
      cases haccepted : accepted event.deliveryId with
      | none =>
        rw [haccepted] at hsteps
        obtain ⟨hcall, hnext⟩ := h.accepts hint draw haccepted
        obtain ⟨hresults, hjobs⟩ := ih hnext hsteps
        simp only [JobQueue.run, hcall]
        exact ⟨congrArg _ hresults, hjobs⟩
      | some t =>
        rw [haccepted] at hsteps
        obtain ⟨hcall, hnext⟩ := h.refuses draw haccepted hsteps.1
        obtain ⟨hresults, hjobs⟩ := ih hnext hsteps.2
        simp only [JobQueue.run, hcall]
        exact ⟨congrArg _ hresults, hjobs⟩

end

/-- The Redis queue refines the in-memory one: while no id comes back after its key expired, every
call returns the same on both and they hold the same jobs; whatever comes, a call differs only by
taking back an id the key of which has expired. -/
theorem redisJobQueue_refines_inMemory (py : Interpreter)
    (hint : ∀ n, py.laxInt (.int n) = some n) (queue : RedisJobQueue)
    (config : CircuitBreakerConfig) (draw start : ℚ) (steps : List QueueStep) :
    let redis := (queue.asJobQueue draw).run (RedisServer.atStart config start) steps
    let memory := InMemoryJobQueue.asJobQueue.run {} steps
    (WithinTtl queue.ttlSeconds (fun _ => none) start steps →
      redis.1 = memory.1 ∧ redis.2.dep.jobs py = memory.2.jobs.map .ok) ∧
    (∀ event,
      (redis.2.dep.Expired (idempotencyKey event.deliveryId) →
        Reaccepts py queue draw event redis.2 memory.2) ∧
      (¬ redis.2.dep.Expired (idempotencyKey event.deliveryId) →
        SameCall py queue draw event redis.2 memory.2)) ∧
    ∃ jobs : List WebhookEvent, redis.2.dep.jobs py = jobs.map .ok ∧
      firstPerDelivery jobs = memory.2.jobs := by
  intro redis memory
  have hintime : InTime py queue.ttlSeconds (fun _ => none) start
      (RedisServer.atStart config start) {} := ⟨rfl, rfl, fun _ => rfl, by simp, rfl⟩
  have hstart : Follows py (RedisServer.atStart config start) {} :=
    ⟨rfl, by simp [RedisServer.atStart], [], rfl, rfl, by simp⟩
  have hfollows : Follows py redis.2 memory.2 := hstart.run hint steps
  refine ⟨hintime.run hint, fun event => hfollows.call hint event, ?_⟩
  obtain ⟨jobs, hjobs, hfirst, -⟩ := hfollows.jobs
  exact ⟨jobs, hjobs, hfirst⟩

/-- A delivery, redelivered a minute later. -/
def redelivery : List QueueStep := [.enqueue .sample, .advance 60, .enqueue .sample]

theorem redelivery_withinTtl :
    WithinTtl RedisJobQueue.default.ttlSeconds (fun _ => none) 0 redelivery := by
  simp only [redelivery, WithinTtl, Function.update_self, and_true]
  decide +kernel

theorem redisJobQueue_refines_inMemory_redelivery :
    let redis := (RedisJobQueue.default.asJobQueue 0).run
      (RedisServer.atStart RedisJobQueue.defaultBreaker.config 0) redelivery
    let memory := InMemoryJobQueue.asJobQueue.run {} redelivery
    redis.1 = memory.1 ∧ redis.2.dep.jobs .sample = memory.2.jobs.map .ok :=
  (redisJobQueue_refines_inMemory .sample (fun _ => rfl) .default _ 0 0 redelivery).1
    redelivery_withinTtl

end ReviewAgent
