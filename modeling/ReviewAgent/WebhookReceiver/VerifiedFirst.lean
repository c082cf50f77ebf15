import Mathlib.Logic.Relation
import ReviewAgent.WebhookReceiver.Router

/-! Nothing happens before the signature is verified. -/
namespace ReviewAgent

open Effects
open Json (Bytes Value lookup points)
open Relation (ReflTransGen)

section

variable {hmac : HmacSha256} {body : Bytes} {header : Option String} {h secret : String}
  {digits digits' : List Char}

theorem signatureDigits_unique (hd : SignatureDigits h digits) (hd' : SignatureDigits h digits') :
    digits = digits' := List.append_cancel_left (hd.1.symm.trans hd'.1)

theorem sameIgnoringCase_hexdigest : SameIgnoringCase digits (hmac.hexdigest secret body).toList ↔
    (hmac.hexdigest secret body).toList = digits.map Char.toLower := by
  rw [SameIgnoringCase, hexdigest_toLower, eq_comm]

/-- A request verifies, or it fails in one of three ways. -/
theorem verifySignature_cases (hmac : HmacSha256) (body : Bytes) (header : Option String)
    (secret : String) :
    (header = none ∧ ∃ message, verifySignature hmac body header secret =
      .error (.plain missingSignatureError message)) ∨
    (∃ h, header = some h ∧ (∀ digits, ¬ SignatureDigits h digits) ∧
      ∃ message, verifySignature hmac body header secret =
        .error (.plain malformedSignatureError message)) ∨
    (∃ h digits, header = some h ∧ SignatureDigits h digits ∧
      ¬ SameIgnoringCase digits (hmac.hexdigest secret body).toList ∧
      ∃ message, verifySignature hmac body header secret =
        .error (.plain invalidSignatureError message)) ∨
    (∃ h digits, header = some h ∧ SignatureDigits h digits ∧
      SameIgnoringCase digits (hmac.hexdigest secret body).toList ∧
      verifySignature hmac body header secret = .ok ()) := by
  cases header with
  | none => exact Or.inl ⟨rfl, _, rfl⟩
  | some h =>
    by_cases hd : ∃ digits, SignatureDigits h digits
    · obtain ⟨digits, hd⟩ := hd
      have hverify := verifySignature_digits hmac body secret hd
      by_cases hsame : SameIgnoringCase digits (hmac.hexdigest secret body).toList
      · rw [if_neg (not_not.mpr (sameIgnoringCase_hexdigest.mp hsame))] at hverify
        exact Or.inr (Or.inr (Or.inr ⟨h, digits, rfl, hd, hsame, hverify⟩))
      · rw [if_pos fun heq => hsame (sameIgnoringCase_hexdigest.mpr heq)] at hverify
        exact Or.inr (Or.inr (Or.inl ⟨h, digits, rfl, hd, hsame, _, hverify⟩))
    · have hnone : ∀ digits, ¬ SignatureDigits h digits := fun digits hs => hd ⟨digits, hs⟩
      exact Or.inr (Or.inl ⟨h, rfl, hnone, verifySignature_malformed hnone⟩)

end

/-- What a request must look like to end its verification with an error of the class. -/
def FailsBy (hmac : HmacSha256) (body : Bytes) (header : Option String) (secret : String)
    (cls : ExcClass) : Prop :=
  ∃ e, verifySignature hmac body header secret = .error e ∧ e.cls = cls

section

variable {hmac : HmacSha256} {body : Bytes} {header : Option String} {secret : String}

theorem failsBy_of_error {cls cls' : ExcClass} {message : String}
    (h : verifySignature hmac body header secret = .error (.plain cls' message)) :
    FailsBy hmac body header secret cls ↔ cls' = cls := by
  simp [FailsBy, h]

theorem not_failsBy_of_ok {cls : ExcClass} (h : verifySignature hmac body header secret = .ok ()) :
    ¬ FailsBy hmac body header secret cls := by
  simp [FailsBy, h]

theorem failsBy_missing_iff :
    FailsBy hmac body header secret missingSignatureError ↔ header = none := by
  rcases verifySignature_cases hmac body header secret with
    ⟨rfl, m, hm⟩ | ⟨h, rfl, -, m, hm⟩ | ⟨h, digits, rfl, -, -, m, hm⟩ | ⟨h, digits, rfl, -, -, hm⟩
  · simp [failsBy_of_error hm]
  · simp [failsBy_of_error hm, malformedSignatureError, missingSignatureError]
  · simp [failsBy_of_error hm, invalidSignatureError, missingSignatureError]
  · simp [not_failsBy_of_ok hm]

theorem failsBy_malformed_iff : FailsBy hmac body header secret malformedSignatureError ↔
    ∃ h, header = some h ∧ ∀ digits, ¬ SignatureDigits h digits := by
  rcases verifySignature_cases hmac body header secret with
    ⟨rfl, m, hm⟩ | ⟨h, rfl, hd, m, hm⟩ | ⟨h, digits, rfl, hd, -, m, hm⟩ |
      ⟨h, digits, rfl, hd, -, hm⟩
  · simp [failsBy_of_error hm, malformedSignatureError, missingSignatureError]
  · simpa [failsBy_of_error hm] using hd
  · simpa [failsBy_of_error hm, malformedSignatureError, invalidSignatureError] using ⟨digits, hd⟩
  · simpa [not_failsBy_of_ok hm] using ⟨digits, hd⟩

/-- The digits of a header, if it has them, decide. -/
theorem exists_digits_iff {h : String} {digits : List Char} (hd : SignatureDigits h digits)
    {P : List Char → Prop} :
    (∃ h' digits', some h = some h' ∧ SignatureDigits h' digits' ∧ P digits') ↔ P digits := by
  constructor
  · rintro ⟨h', digits', hh, hd', hP⟩
    obtain rfl := Option.some.inj hh
    exact signatureDigits_unique hd' hd ▸ hP
  · intro hP
    exact ⟨h, digits, rfl, hd, hP⟩

theorem failsBy_invalid_iff : FailsBy hmac body header secret invalidSignatureError ↔
    ∃ h digits, header = some h ∧ SignatureDigits h digits ∧
      ¬ SameIgnoringCase digits (hmac.hexdigest secret body).toList := by
  rcases verifySignature_cases hmac body header secret with
    ⟨rfl, m, hm⟩ | ⟨h, rfl, hd, m, hm⟩ | ⟨h, digits, rfl, hd, hs, m, hm⟩ |
      ⟨h, digits, rfl, hd, hs, hm⟩
  · simp [failsBy_of_error hm, missingSignatureError, invalidSignatureError]
  · simp [failsBy_of_error hm, malformedSignatureError, invalidSignatureError, hd]
  · rw [failsBy_of_error hm, exists_digits_iff hd]
    simp [hs]
  · rw [exists_digits_iff hd]
    simp [not_failsBy_of_ok hm, hs]

theorem verifySignature_ok_iff : verifySignature hmac body header secret = .ok () ↔
    ∃ h digits, header = some h ∧ SignatureDigits h digits ∧
      SameIgnoringCase digits (hmac.hexdigest secret body).toList := by
  rcases verifySignature_cases hmac body header secret with
    ⟨rfl, m, hm⟩ | ⟨h, rfl, hd, m, hm⟩ | ⟨h, digits, rfl, hd, hs, m, hm⟩ |
      ⟨h, digits, rfl, hd, hs, hm⟩
  · simp [hm]
  · simp [hm, hd]
  · rw [exists_digits_iff hd]
    simp [hm, hs]
  · rw [exists_digits_iff hd]
    simp [hm, hs]

end

/-- A queue and an events store, however they behave. -/
structure Backends (Q E χ : Type) where
  enqueue : Q → WebhookEvent → χ → Q × Except Exc EnqueueResult
  events : E → (op : OrchestratorOp) → χ → E × OrchestratorSignature.Answer op
  receivedAt : χ → String

/-- The queue and the store behind the route. -/
def Backends.machine {Q E χ : Type} (b : Backends Q E χ) : Machine RouteSignature (Q × E) χ Empty where
  perform _ w
    | .inl op, c => some ((w.1, (b.events w.2 op c).1), (b.events w.2 op c).2)
    | .inr .receivedAt, c => some (w, b.receivedAt c)
    | .inr (.enqueue event), c =>
      some (((b.enqueue w.1 event c).1, w.2), (b.enqueue w.1 event c).2)
  move _ m := m.elim

/-- The request verifies, and is a pull request event with a supported action. -/
def Qualifies (py : Interpreter) (hmac : HmacSha256) (secret : String) (request : WebhookRequest) :
    Prop :=
  verifySignature hmac request.body request.signature secret = .ok () ∧
    request.event = some pullRequestEvent ∧
    ∃ members, jsonLoads py request.body = .ok (.object members) ∧
      ∃ action ∈ supportedActions, lookup (points "action") members = some (.str (points action))

/-- One event of a request that qualifies is given to the queue. -/
def EnqueuedFor {Q E χ : Type} (b : Backends Q E χ) (py : Interpreter) (hmac : HmacSha256)
    (secret : String) (requests : List WebhookRequest) (q q' : Q) : Prop :=
  ∃ request ∈ requests, Qualifies py hmac secret request ∧
    ∃ event c, (b.enqueue q event c).1 = q'

section

variable {py : Interpreter} {hmac : HmacSha256} {secret : String} {request : WebhookRequest}

/-- An operation that only a request that qualifies may issue. -/
def EnqueuesOnlyIf (P : Prop) (op : RouteSignature.Op) : Prop :=
  ∀ event, op = .inr (.enqueue event) → P

theorem emitIngress_issues {P : Prop} (deliveryId outcome : String) :
    (emitIngress deliveryId outcome).Issues (EnqueuesOnlyIf P) :=
  Program.issues_left (fun op event h => by cases h) _

theorem ignoreDelivery_issues {P : Prop} (delivery : Option String) (reason : String) :
    (ignoreDelivery delivery reason).Issues (EnqueuesOnlyIf P) :=
  Program.issues_bind (emitIngress_issues _ _) fun _ => trivial

theorem enqueueEvent_issues {P : Prop} (hP : P) (event : WebhookEvent) :
    (enqueueEvent event).Issues (EnqueuesOnlyIf P) := by
  refine Program.issues_bind ⟨fun _ _ => hP, fun _ => trivial⟩ fun result => ?_
  split
  · trivial
  · trivial
  · exact Program.issues_bind (emitIngress_issues _ _) fun _ => trivial

theorem actOn_issues {P : Prop} (hP : P) (payload : Value) (delivery : Option String) :
    (actOn py payload delivery).Issues (EnqueuesOnlyIf P) := by
  unfold actOn
  split
  · trivial
  · trivial
  · refine Program.issues_bind ⟨fun event h => ?_, fun _ => trivial⟩ fun receivedAt => ?_
    · cases h
    · split
      · exact enqueueEvent_issues hP _
      · split <;> trivial

/-- A membership test that succeeds found a supported action. -/
theorem inSupportedActions_true {action : Value} (h : inSupportedActions action = .ok true) :
    ∃ name ∈ supportedActions, action = .str (points name) := by
  unfold inSupportedActions at h
  split at h
  · rename_i s
    obtain ⟨name, hname, hs⟩ := List.any_eq_true.mp (Except.ok.inj h)
    exact ⟨name, hname, by rw [of_decide_eq_true hs]⟩
  · cases h
  · cases h
  · cases h

/-- The route gives the queue an event only for a request that qualifies. -/
theorem receiveWebhook_issues : (receiveWebhook py hmac secret request).Issues
    (EnqueuesOnlyIf (Qualifies py hmac secret request)) := by
  unfold receiveWebhook
  split
  · split
    · trivial
    · split
      · trivial
      · split <;> trivial
  · rename_i hverify
    split
    · split <;> trivial
    · rename_i members hbody
      unfold receiveObject
      split
      · exact ignoreDelivery_issues _ _
      · rename_i hevent
        split
        · trivial
        · exact ignoreDelivery_issues _ _
        · rename_i haction
          obtain ⟨name, hname, hlookup⟩ := inSupportedActions_true haction
          have hfound : lookup (points "action") members = some (.str (points name)) := by
            cases hl : lookup (points "action") members <;> simp_all [actionOf]
          exact actOn_issues ⟨hverify, by simpa using hevent, members, hbody, name, hname, hfound⟩
            _ _
    · trivial

/-- The status that answers a failed verification. -/
def rejectionStatus (cls : ExcClass) : ℕ := if cls = malformedSignatureError then 400 else 401

/-- A request that fails verification issues nothing, and its status depends on the way alone. -/
theorem receiveWebhook_rejected (py : Interpreter) {e : Exc}
    (h : verifySignature hmac request.body request.signature secret = .error e) :
    ∃ reply, receiveWebhook py hmac secret request = .done (.ok reply) ∧
      httpStatus (.ok reply) = rejectionStatus e.cls := by
  have hcases := verifySignature_cases hmac request.body request.signature secret
  simp only [h, Except.error.injEq, reduceCtorEq, and_false, exists_false, or_false] at hcases
  rw [receiveWebhook, h]
  rcases hcases with ⟨-, m, rfl⟩ | ⟨-, -, -, m, rfl⟩ | ⟨-, -, -, -, -, m, rfl⟩ <;> exact ⟨_, rfl, rfl⟩

/-- The queue goes from one content to the other by events of requests that qualify. -/
theorem queue_reached {Q E χ : Type} (b : Backends Q E χ) {w : Q × E}
    {schedule : List (Machine.Sched χ Empty WebhookRequest)}
    {c : Machine.Config RouteSignature Exc RouteReply (Q × E)}
    (h : b.machine.exec (receiveWebhook py hmac secret) ⟨w, []⟩ schedule = some c) :
    ReflTransGen (EnqueuedFor b py hmac secret (Machine.started schedule)) w.1 c.world.1 := by
  refine Machine.exec_preserves
    (I := fun w' => ReflTransGen (EnqueuedFor b py hmac secret (Machine.started schedule)) w.1 w'.1)
    [] (fun request => receiveWebhook_issues) (fun _ m => m.elim) ?_ (by simp) .refl h
  intro request hrequest i w' op choice r hop hr hreached
  cases op with
  | inl op =>
    obtain rfl := Option.some.inj hr
    exact hreached
  | inr op =>
    cases op with
    | receivedAt =>
      obtain rfl := Option.some.inj hr
      exact hreached
    | enqueue event =>
      obtain rfl := Option.some.inj hr
      exact hreached.tail ⟨request, hrequest, hop event rfl, event, choice, rfl⟩

/-- A request that fails verification leaves the queue and the events store as they are. -/
theorem rejected_unchanged {Q E χ : Type} (b : Backends Q E χ) {e : Exc} {i : ℕ} {w w' : Q × E}
    {es : List (Machine.Event χ Empty)} {p : Ingress RouteReply}
    (h : verifySignature hmac request.body request.signature secret = .error e)
    (hrun : b.machine.run i w (receiveWebhook py hmac secret request) es = some (w', p)) :
    w' = w := by
  obtain ⟨reply, hreply, -⟩ := receiveWebhook_rejected py h
  rw [hreply] at hrun
  match es with
  | [] => exact (Prod.mk.inj (Option.some.inj hrun)).1.symm
  | .act choice :: es => cases hrun
  | .move m :: es => exact m.elim

/-- Verification accepts exactly the headers with the digest of the body, and fails in one of three
ways otherwise. Requests that fail in the same way get the same status and change nothing. Nothing
but requests that verify and carry a supported pull request action ever changes the queue. -/
theorem verified_first (py : Interpreter) (hmac : HmacSha256) (secret : String) :
    (∀ body header,
      (verifySignature hmac body header secret = .ok () ↔
        ∃ h digits, header = some h ∧ SignatureDigits h digits ∧
          SameIgnoringCase digits (hmac.hexdigest secret body).toList) ∧
      (FailsBy hmac body header secret missingSignatureError ↔ header = none) ∧
      (FailsBy hmac body header secret malformedSignatureError ↔
        ∃ h, header = some h ∧ ∀ digits, ¬ SignatureDigits h digits) ∧
      (FailsBy hmac body header secret invalidSignatureError ↔
        ∃ h digits, header = some h ∧ SignatureDigits h digits ∧
          ¬ SameIgnoringCase digits (hmac.hexdigest secret body).toList)) ∧
    (∀ (r₁ r₂ : WebhookRequest) (cls : ExcClass), FailsBy hmac r₁.body r₁.signature secret cls →
      FailsBy hmac r₂.body r₂.signature secret cls →
      (∀ answers₁ answers₂, httpStatus ((receiveWebhook py hmac secret r₁).outcome answers₁) =
        httpStatus ((receiveWebhook py hmac secret r₂).outcome answers₂)) ∧
      ∀ r ∈ [r₁, r₂], ∀ (Q E χ : Type) (b : Backends Q E χ) i w es w' p,
        b.machine.run i w (receiveWebhook py hmac secret r) es = some (w', p) → w' = w) ∧
    ∀ (Q E χ : Type) (b : Backends Q E χ) w schedule c,
      b.machine.exec (receiveWebhook py hmac secret) ⟨w, []⟩ schedule = some c →
      ReflTransGen (EnqueuedFor b py hmac secret (Machine.started schedule)) w.1 c.world.1 := by
  refine ⟨fun body header => ⟨verifySignature_ok_iff, failsBy_missing_iff, failsBy_malformed_iff,
    failsBy_invalid_iff⟩, ?_, fun Q E χ b w schedule c => queue_reached b⟩
  rintro r₁ r₂ cls ⟨e₁, h₁, rfl⟩ ⟨e₂, h₂, hcls⟩
  obtain ⟨reply₁, hreply₁, hstatus₁⟩ := receiveWebhook_rejected py h₁
  obtain ⟨reply₂, hreply₂, hstatus₂⟩ := receiveWebhook_rejected py h₂
  constructor
  · intro answers₁ answers₂
    rw [hreply₁, hreply₂]
    exact (hstatus₁.trans (by rw [hcls])).trans hstatus₂.symm
  · intro r hr Q E χ b i w es w' p hrun
    simp only [List.mem_cons, List.not_mem_nil, or_false] at hr
    rcases hr with rfl | rfl
    · exact rejected_unchanged b h₁ hrun
    · exact rejected_unchanged b h₂ hrun

/-- Two unsigned requests, with different bodies and headers, are answered alike. -/
theorem verified_first_unsigned : ∀ answers₁ answers₂,
    httpStatus ((receiveWebhook .sample .sample "whsec-test"
      ⟨Json.asciiBytes "\x7b\x7d", none, some "pull_request", none⟩).outcome answers₁) =
    httpStatus ((receiveWebhook .sample .sample "whsec-test"
      ⟨[0xFF], none, some "ping", some "1"⟩).outcome answers₂) :=
  ((verified_first .sample .sample "whsec-test").2.1 _ _ missingSignatureError ⟨_, rfl, rfl⟩
    ⟨_, rfl, rfl⟩).1

end

end ReviewAgent
