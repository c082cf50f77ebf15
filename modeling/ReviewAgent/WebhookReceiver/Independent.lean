import ReviewAgent.Database.EventRepository
import ReviewAgent.WebhookReceiver.Router

/-! Requests one after the other, over an events store that comes and goes. -/
namespace ReviewAgent

open Effects
open Json (Value)

/-- What a queue has been asked and has answered, in order, and how often the clock was read. -/
structure IngressWorld (Q : Type) where
  queue : Q
  calls : List (WebhookEvent × Except Exc EnqueueResult) := []
  readings : ℕ := 0

section

variable {Q : Type}

/-- A queue that answers as its state says, and a clock. -/
def ingressScript (enqueue : WebhookEvent → Q → Except Exc EnqueueResult × Q)
    (receivedAt : ℕ → String) : Script IngressSignature (IngressWorld Q)
  | .receivedAt, w => (receivedAt w.readings, { w with readings := w.readings + 1 })
  | .enqueue event, w =>
    ((enqueue event w.queue).1,
      { w with
        queue := (enqueue event w.queue).2
        calls := w.calls ++ [(event, (enqueue event w.queue).1)] })

/-- The responses to requests, one after the other. -/
def serveAll {σ : Type} (script : Script RouteSignature σ) (py : Interpreter) (hmac : HmacSha256)
    (secret : String) : List WebhookRequest → σ → List (Except Exc RouteReply) × σ
  | [], s => ([], s)
  | request :: requests, s =>
    let served := (receiveWebhook py hmac secret request).play script s
    let later := serveAll script py hmac secret requests served.2
    (served.1 :: later.1, later.2)

/-- The same ingress, beside whatever repository. -/
def SameIngress (s t : EventRepository × IngressWorld Q) : Prop := s.2 = t.2

variable {schedule schedule' : EventsSchedule} {rest rest' : Answers}
  {queue : Script IngressSignature (IngressWorld Q)}

/-- An emission ends normally, whatever becomes of the row. -/
theorem play_emit (event : AgentEvent) (r : EventRepository) :
    ((emit event).play (schedule.orchestrator rest) r).1 = .ok () := by
  rw [emit, Program.tryCatch_def, Program.play_andThen]
  have hwritten : ((attemptOp (.insertEvent event) fun written => written).play
      (schedule.orchestrator rest) r) = (insertEvent event).play schedule.guarded r := rfl
  rw [hwritten]
  cases houtcome : ((insertEvent event).play schedule.guarded r).1 with
  | ok u => rfl
  | error e =>
    obtain ⟨hintegrity, hcaught⟩ := (insertEvent_outage houtcome).swallowed
    simp only [Program.onError, hintegrity, hcaught]
    rfl

/-- Whether fields are in bounds does not depend on the time they carry. -/
theorem validate_unit_congr {fields fields' : EventFields} (h : fields.checks = fields'.checks) :
    (AgentEvent.validate fields).map (fun _ => ()) =
      (AgentEvent.validate fields').map fun _ => () := by
  cases hfind : fields.checks.find? fun check => !check.2 with
  | none =>
    have hvalid : ∀ check ∈ fields.checks, check.2 = true := by simpa using hfind
    rw [AgentEvent.validate_ok hvalid, AgentEvent.validate_ok (h ▸ hvalid)]
    rfl
  | some check =>
    have hfirst : (fields.checks.find? fun check => !check.2).map Prod.fst = some check.1 := by
      rw [hfind]
      rfl
    rw [AgentEvent.validate_error hfirst, AgentEvent.validate_error (h ▸ hfirst)]

theorem play_emitAt (use : ClockUse) (fields : ℚ → EventFields) (r : EventRepository) :
    ((emitAt use fields).play (schedule.orchestrator rest) r).1 =
      (AgentEvent.validate (fields (schedule.clock r.readings))).map fun _ => () := by
  have hread : (ask (.now use)).play (schedule.orchestrator rest) r =
      (.ok (schedule.clock r.readings), { r with readings := r.readings + 1 }) := rfl
  rw [emitAt, Program.play_bind_ok hread, Program.bind_def, Program.play_andThen]
  cases hvalid : AgentEvent.validate (fields (schedule.clock r.readings)) with
  | ok event => exact play_emit event _
  | error e => rfl

/-- A decision is emitted, or refused for its fields, alike over every events store. -/
theorem emitIngress_agrees (deliveryId outcome : String) :
    (emitIngress deliveryId outcome).Agrees ((schedule.orchestrator rest).sum queue)
      ((schedule'.orchestrator rest').sum queue) SameIngress := by
  intro s t h
  rw [emitIngress, Program.play_left, Program.play_left]
  refine ⟨?_, h⟩
  simp only [emitDecision, play_emitAt]
  exact validate_unit_congr rfl

/-- What the route asks of the queue and the clock is answered alike. -/
theorem ingress_agrees (op : IngressOp) :
    ((Program.perform (S := IngressSignature) op).right : Ingress _).Agrees
      ((schedule.orchestrator rest).sum queue) ((schedule'.orchestrator rest').sum queue)
      SameIngress := by
  intro s t h
  rw [Program.play_right, Program.play_right, show s.2 = t.2 from h]
  exact ⟨rfl, rfl⟩

theorem ignoreDelivery_agrees (delivery : Option String) (reason : String) :
    (ignoreDelivery delivery reason).Agrees ((schedule.orchestrator rest).sum queue)
      ((schedule'.orchestrator rest').sum queue) SameIngress :=
  (emitIngress_agrees _ _).bind fun _ => Program.agrees_done _

theorem enqueueEvent_agrees (event : WebhookEvent) :
    (enqueueEvent event).Agrees ((schedule.orchestrator rest).sum queue)
      ((schedule'.orchestrator rest').sum queue) SameIngress := by
  refine (ingress_agrees (.enqueue event)).bind fun result => ?_
  split
  · exact Program.agrees_done _
  · exact Program.agrees_done _
  · exact (emitIngress_agrees _ _).bind fun _ => Program.agrees_done _

variable {py : Interpreter} {hmac : HmacSha256} {secret : String}

theorem actOn_agrees (payload : Value) (delivery : Option String) :
    (actOn py payload delivery).Agrees ((schedule.orchestrator rest).sum queue)
      ((schedule'.orchestrator rest').sum queue) SameIngress := by
  unfold actOn
  split
  · exact Program.agrees_done _
  · exact Program.agrees_done _
  · refine (ingress_agrees .receivedAt).bind fun receivedAt => ?_
    split
    · exact enqueueEvent_agrees _
    · split
      · exact Program.agrees_done _
      · exact Program.agrees_done _

/-- One request is answered alike over every events store, and leaves the same ingress. -/
theorem receiveWebhook_agrees (request : WebhookRequest) :
    (receiveWebhook py hmac secret request).Agrees ((schedule.orchestrator rest).sum queue)
      ((schedule'.orchestrator rest').sum queue) SameIngress := by
  unfold receiveWebhook
  split
  · repeat' split
    all_goals exact Program.agrees_done _
  · split
    · split
      · exact Program.agrees_done _
      · exact Program.agrees_done _
    · unfold receiveObject
      split
      · exact ignoreDelivery_agrees _ _
      · split
        · exact Program.agrees_done _
        · exact ignoreDelivery_agrees _ _
        · exact actOn_agrees _ _
    · exact Program.agrees_done _

/-- Over any two schedules of the events store, from any two states of its repository, the same
requests get the same responses, and the queue the same calls with the same results. -/
theorem ingress_independent_of_events (py : Interpreter) (hmac : HmacSha256) (secret : String)
    (enqueue : WebhookEvent → Q → Except Exc EnqueueResult × Q) (receivedAt : ℕ → String)
    (schedule schedule' : EventsSchedule) (rest rest' : Answers) (r r' : EventRepository)
    (requests : List WebhookRequest) (w : IngressWorld Q) :
    let served := serveAll ((schedule.orchestrator rest).sum (ingressScript enqueue receivedAt))
      py hmac secret requests (r, w)
    let served' := serveAll ((schedule'.orchestrator rest').sum (ingressScript enqueue receivedAt))
      py hmac secret requests (r', w)
    served.1 = served'.1 ∧ served.2.2.calls = served'.2.2.calls := by
  suffices ∀ s t : EventRepository × IngressWorld Q, SameIngress s t →
      (serveAll ((schedule.orchestrator rest).sum (ingressScript enqueue receivedAt)) py hmac secret
          requests s).1 =
        (serveAll ((schedule'.orchestrator rest').sum (ingressScript enqueue receivedAt)) py hmac
          secret requests t).1 ∧
      SameIngress
        (serveAll ((schedule.orchestrator rest).sum (ingressScript enqueue receivedAt)) py hmac
          secret requests s).2
        (serveAll ((schedule'.orchestrator rest').sum (ingressScript enqueue receivedAt)) py hmac
          secret requests t).2 by
    obtain ⟨hreplies, hworlds⟩ := this (r, w) (r', w) rfl
    exact ⟨hreplies, congrArg IngressWorld.calls hworlds⟩
  induction requests with
  | nil => exact fun s t h => ⟨rfl, h⟩
  | cons request requests ih =>
    intro s t h
    obtain ⟨hreply, hnext⟩ := @receiveWebhook_agrees Q schedule schedule' rest rest'
      (ingressScript enqueue receivedAt) py hmac secret request s t h
    obtain ⟨hreplies, hworlds⟩ := ih _ _ hnext
    exact ⟨congrArg₂ _ hreply hreplies, hworlds⟩

end

end ReviewAgent
