import ReviewAgent.JsonFields
import ReviewAgent.WebhookReceiver.Parser

/-! What a job carries of its event: a JSON dump, read back through the contract. -/
namespace ReviewAgent

open Json (Text Value lookup points)

namespace WebhookEvent

/-- The fields of an event, by name. -/
def members (event : WebhookEvent) : List (Text × Value) :=
  [(points "action", jsonString event.action),
    (points "pr_number", .int event.prNumber),
    (points "repository_owner", jsonString event.repositoryOwner),
    (points "repository_name", jsonString event.repositoryName),
    (points "head_sha", jsonString event.headSha),
    (points "delivery_id", jsonString event.deliveryId),
    (points "received_at", jsonString event.receivedAt)]

/-- `model_dump(mode="json")`. -/
def modelDump (event : WebhookEvent) : Value := .object event.members

def requiredField (members : List (Text × Value)) (field : String) : Except Exc Value :=
  match lookup (points field) members with
  | some value => .ok value
  | none => .error (validationError "WebhookEvent" field)

def requiredString (members : List (Text × Value)) (field : String) : Except Exc String := do
  let value ← requiredField members field
  match strField value with
  | some s => .ok s
  | none => .error (validationError "WebhookEvent" field)

/-- `WebhookEvent.model_validate`. -/
def modelValidate (py : Interpreter) : Value → Except Exc WebhookEvent
  | .object members => do
    let action ← requiredField members "action"
    let prNumber ← requiredField members "pr_number"
    let repositoryOwner ← requiredField members "repository_owner"
    let repositoryName ← requiredField members "repository_name"
    let headSha ← requiredField members "head_sha"
    let deliveryId ← requiredString members "delivery_id"
    let receivedAt ← requiredString members "received_at"
    validate py action prNumber repositoryOwner repositoryName headSha deliveryId receivedAt
  | _ => .error (validationError "WebhookEvent" "")

variable {py : Interpreter} {event : WebhookEvent}

/-- The contract takes back the fields of an event, when an integer passes for itself. -/
theorem validate_self (hint : ∀ n, py.laxInt (.int n) = some n) :
    validate py (jsonString event.action) (.int event.prNumber)
      (jsonString event.repositoryOwner) (jsonString event.repositoryName)
      (jsonString event.headSha) event.deliveryId event.receivedAt = .ok event := by
  have hpos : (0 : ℤ) < event.prNumber := by exact_mod_cast event.prNumber_pos
  simp only [validate, strField_jsonString, hint, event.action_length, hpos,
    event.repositoryOwner_length, event.repositoryName_length, event.headSha_shape,
    event.deliveryId_shape, and_self, dite_true, Int.toNat_natCast]

theorem members_nodup : (event.members.map Prod.fst).Nodup := by
  have hnames : ["action", "pr_number", "repository_owner", "repository_name", "head_sha",
      "delivery_id", "received_at"].Nodup := by decide
  exact (List.Nodup.map points_injective hnames :)

theorem requiredField_members {field : String} {value : Value}
    (h : (points field, value) ∈ event.members) :
    requiredField event.members field = .ok value := by
  rw [requiredField, lookup_of_mem members_nodup h]

theorem requiredString_members {field s : String}
    (h : (points field, jsonString s) ∈ event.members) :
    requiredString event.members field = .ok s := by
  rw [requiredString, requiredField_members h]
  simp only [bind, Except.bind, strField_jsonString]

/-- A dumped event is read back as it was. -/
theorem modelValidate_modelDump (hint : ∀ n, py.laxInt (.int n) = some n) :
    modelValidate py event.modelDump = .ok event := by
  have haction : requiredField event.members "action" = .ok (jsonString event.action) :=
    requiredField_members (by simp [members])
  have hnumber : requiredField event.members "pr_number" = .ok (.int event.prNumber) :=
    requiredField_members (by simp [members])
  have howner : requiredField event.members "repository_owner" =
      .ok (jsonString event.repositoryOwner) := requiredField_members (by simp [members])
  have hname : requiredField event.members "repository_name" =
      .ok (jsonString event.repositoryName) := requiredField_members (by simp [members])
  have hsha : requiredField event.members "head_sha" = .ok (jsonString event.headSha) :=
    requiredField_members (by simp [members])
  have hid : requiredString event.members "delivery_id" = .ok event.deliveryId :=
    requiredString_members (by simp [members])
  have hat : requiredString event.members "received_at" = .ok event.receivedAt :=
    requiredString_members (by simp [members])
  rw [modelDump, modelValidate, haction, hnumber, howner, hname, hsha, hid, hat]
  exact validate_self hint

end WebhookEvent

end ReviewAgent
