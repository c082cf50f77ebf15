import ReviewAgent.Effects.Sum
import ReviewAgent.JobQueue.RedisArq
import ReviewAgent.Observability.Events
import ReviewAgent.WebhookReceiver.Parser
import ReviewAgent.WebhookReceiver.Validator

/-! The webhook route. -/
namespace ReviewAgent

open Effects
open Json (Bytes Value lookup points)

/-- The raw body and the headers that the route reads. -/
structure WebhookRequest where
  body : Bytes
  signature : Option String
  event : Option String
  delivery : Option String

/-- What the route asks of the queue and of the clock. -/
inductive IngressOp where
  -- `datetime.now(UTC).isoformat()`
  | receivedAt
  | enqueue (event : WebhookEvent)

abbrev IngressSignature : Signature where
  Op := IngressOp
  Answer
    | .receivedAt => String
    | .enqueue _ => Except Exc EnqueueResult

/-- The events store beside the queue. -/
abbrev RouteSignature : Signature := OrchestratorSignature.sum IngressSignature

abbrev RouteAnswers : Type := (op : RouteSignature.Op) → RouteSignature.Answer op

abbrev Ingress (α : Type) : Type := Program RouteSignature Exc α

/-- How the route ends when nothing escapes it. -/
inductive RouteReply where
  | ignored (reason : String)
  | handled (status deliveryId : String)
  | httpException (statusCode : ℕ) (detail : String)

/-- The status GitHub sees; an exception that escapes is a 500. -/
def httpStatus : Except Exc RouteReply → ℕ
  | .ok (.ignored _) => 200
  | .ok (.handled _ _) => 200
  | .ok (.httpException statusCode _) => statusCode
  | .error _ => 500

def pullRequestEvent : String := "pull_request"

def runIdForDelivery (deliveryId : String) : String := "webhook-" ++ deliveryId

/-- `delivery_id or "no-delivery-id"`. -/
def deliveryOrDefault : Option String → String
  | none => "no-delivery-id"
  | some deliveryId => if deliveryId = "" then "no-delivery-id" else deliveryId

/-- `value in SUPPORTED_ACTIONS`: a list or a dict has no hash. -/
def inSupportedActions : Value → Except Exc Bool
  | .str s => .ok (supportedActions.any fun action => points action = s)
  | .array _ => .error (.plain .typeError "unhashable type: 'list'")
  | .object _ => .error (.plain .typeError "unhashable type: 'dict'")
  | _ => .ok false

/-- `payload.get("action")`. -/
def actionOf (members : List (Json.Text × Value)) : Value :=
  (lookup (points "action") members).getD .null

/-- `emit_decision_async`. -/
def emitIngress (deliveryId outcome : String) : Ingress Unit :=
  (emitDecision (runIdForDelivery deliveryId) none outcome none).left

/-- A delivery that is acknowledged but not acted on. -/
def ignoreDelivery (delivery : Option String) (reason : String) : Ingress RouteReply := do
  emitIngress (deliveryOrDefault delivery) "rejected"
  pure (.ignored reason)

/-- The end of the route, from the parsed event on. -/
def enqueueEvent (event : WebhookEvent) : Ingress RouteReply := do
  let result ← (Program.perform (S := IngressSignature) (.enqueue event)).right
  match RedisJobQueue.answerFor result with
  | .serverError e => throw e
  | .httpException statusCode detail => pure (.httpException statusCode detail)
  | .json status deliveryId => do
    emitIngress event.deliveryId status
    pure (.handled status deliveryId)

/-- The route for a supported action. -/
def actOn (py : Interpreter) (payload : Value) (delivery : Option String) : Ingress RouteReply :=
  match delivery with
  | none | some "" => pure (.httpException 400 "missing X-GitHub-Delivery header")
  | some deliveryId => do
    let receivedAt ← (Program.perform (S := IngressSignature) .receivedAt).right
    match parsePullRequestPayload py payload deliveryId receivedAt with
    | .ok event => enqueueEvent event
    | .error e =>
      if e.isInstanceOfAny [.keyError, .validationError] then
        pure (.httpException 400 s!"malformed pull_request payload: {e.message}")
      else throw e

/-- The route for a body that is a JSON object. -/
def receiveObject (py : Interpreter) (request : WebhookRequest) (members : List (Json.Text × Value)) :
    Ingress RouteReply :=
  if request.event ≠ some pullRequestEvent then
    let eventType := request.event.elim .null fun event => .str (points event)
    ignoreDelivery request.delivery s!"unsupported event type: {py.repr eventType}"
  else
    match inSupportedActions (actionOf members) with
    | .error e => throw e
    | .ok false =>
      ignoreDelivery request.delivery s!"unsupported action: {py.repr (actionOf members)}"
    | .ok true => actOn py (.object members) request.delivery

def receiveWebhook (py : Interpreter) (hmac : HmacSha256) (secret : String)
    (request : WebhookRequest) : Ingress RouteReply :=
  match verifySignature hmac request.body request.signature secret with
  | .error e =>
    if e.isInstance missingSignatureError then pure (.httpException 401 e.message)
    else if e.isInstance malformedSignatureError then
      pure (.httpException 400 s!"malformed signature header: {e.message}")
    else if e.isInstance invalidSignatureError then pure (.httpException 401 e.message)
    else throw e
  | .ok () =>
    match jsonLoads py request.body with
    | .error e =>
      if e.isInstance jsonDecodeError then
        pure (.httpException 400 s!"malformed JSON body: {e.message}")
      else throw e
    | .ok (.object members) => receiveObject py request members
    | .ok _ => pure (.httpException 400 "webhook payload must be a JSON object")

end ReviewAgent
