import ReviewAgent.Interpreter
import ReviewAgent.Models.Webhook

/-! From the body of a webhook request to its event. -/
namespace ReviewAgent

open Json (Bytes Value lookup points)

/-- `SUPPORTED_ACTIONS`. -/
def supportedActions : List String := ["opened", "synchronize", "reopened"]

/-- `json.loads(raw_body)`. -/
def jsonLoads (py : Interpreter) (body : Bytes) : Except Exc Value :=
  match Json.bodyText? body with
  | none => .error (.plain unicodeDecodeError "")
  | some text => (Json.decode py.limits text).mapError (decoderError py text)

/-- `type(value).__name__`. -/
def typeName : Value → String
  | .null => "NoneType"
  | .bool _ => "bool"
  | .int _ => "int"
  | .float _ => "float"
  | .str _ => "str"
  | .array _ => "list"
  | .object _ => "dict"

/-- `value[key]`. -/
def subscript (value : Value) (key : String) : Except Exc Value :=
  match value with
  | .object members =>
    match lookup (points key) members with
    | some v => .ok v
    | none => .error (.plain .keyError s!"'{key}'")
  | .array _ => .error (.plain .typeError "list indices must be integers or slices, not str")
  | .str _ => .error (.plain .typeError "string indices must be integers, not 'str'")
  | v => .error (.plain .typeError s!"'{typeName v}' object is not subscriptable")

/-- `WebhookEvent(...)`. -/
def WebhookEvent.validate (py : Interpreter)
    (action prNumber repositoryOwner repositoryName headSha : Value)
    (deliveryId receivedAt : String) : Except Exc WebhookEvent :=
  match strField action, py.laxInt prNumber, strField repositoryOwner, strField repositoryName,
    strField headSha with
  | some action, some prNumber, some repositoryOwner, some repositoryName, some headSha =>
    if h₁ : 1 ≤ action.length ∧ action.length ≤ 50 then
      if h₂ : 0 < prNumber then
        if h₃ : 1 ≤ repositoryOwner.length ∧ repositoryOwner.length ≤ 255 then
          if h₄ : 1 ≤ repositoryName.length ∧ repositoryName.length ≤ 255 then
            if h₅ : isHeadSha headSha then
              if h₆ : isDeliveryId deliveryId then
                .ok
                  { action, prNumber := prNumber.toNat, repositoryOwner, repositoryName, headSha,
                    deliveryId, receivedAt, action_length := h₁, prNumber_pos := by omega,
                    repositoryOwner_length := h₃, repositoryName_length := h₄,
                    headSha_shape := h₅, deliveryId_shape := h₆ }
              else .error (validationError "WebhookEvent" "delivery_id")
            else .error (validationError "WebhookEvent" "head_sha")
          else .error (validationError "WebhookEvent" "repository_name")
        else .error (validationError "WebhookEvent" "repository_owner")
      else .error (validationError "WebhookEvent" "pr_number")
    else .error (validationError "WebhookEvent" "action")
  | none, _, _, _, _ => .error (validationError "WebhookEvent" "action")
  | _, none, _, _, _ => .error (validationError "WebhookEvent" "pr_number")
  | _, _, none, _, _ => .error (validationError "WebhookEvent" "repository_owner")
  | _, _, _, none, _ => .error (validationError "WebhookEvent" "repository_name")
  | _, _, _, _, none => .error (validationError "WebhookEvent" "head_sha")

def parsePullRequestPayload (py : Interpreter) (payload : Value) (deliveryId receivedAt : String) :
    Except Exc WebhookEvent := do
  let action ← subscript payload "action"
  let pullRequest ← subscript payload "pull_request"
  let repository ← subscript payload "repository"
  let number ← subscript pullRequest "number"
  let owner ← subscript repository "owner"
  let login ← subscript owner "login"
  let name ← subscript repository "name"
  let head ← subscript pullRequest "head"
  let sha ← subscript head "sha"
  WebhookEvent.validate py action number login name sha deliveryId receivedAt

end ReviewAgent
