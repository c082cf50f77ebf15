import ReviewAgent.WebhookReceiver.Router

/-! When an authentic webhook request gets a documented answer. -/
namespace ReviewAgent

open Effects
open Json (Bytes Value lookup points)

/-- A path through objects ends at a value, at a key that is missing, or at a value without keys. -/
inductive PathEnd where
  | value (v : Value)
  | missing
  | noKeys

def follow : Value → List String → PathEnd
  | v, [] => .value v
  | .object members, key :: path =>
    match lookup (points key) members with
    | some v => follow v path
    | none => .missing
  | _, _ :: _ => .noKeys

/-- The paths that a pull request payload needs, in the order they are read. -/
def payloadPaths : List (List String) :=
  [["pull_request"], ["repository"], ["pull_request", "number"], ["repository", "owner", "login"],
    ["repository", "name"], ["pull_request", "head", "sha"]]

def PathEnd.isGap : PathEnd → Bool
  | .value _ => false
  | _ => true

/-- Where the first of the paths without a value ends. -/
def firstGap (paths : List (List String)) (payload : Value) : Option PathEnd :=
  (paths.map (follow payload)).find? PathEnd.isGap

/-- The bytes are text, and reading it stays within the limits of the interpreter. -/
def Decodable (py : Interpreter) (body : Bytes) : Prop :=
  ∃ text, Json.bodyText? body = some text ∧ ∀ failure,
    ¬ Json.Begins py.limits (Json.skipSpace text) (.error failure)

/-- The body is a JSON object with these members. -/
def IsObject (py : Interpreter) (body : Bytes) (members : List (Json.Text × Value)) : Prop :=
  ∃ text rest, Json.bodyText? body = some text ∧
    Json.Begins py.limits (Json.skipSpace text) (.ok (.object members, rest)) ∧
    Json.skipSpace rest = []

def HasHash : Value → Prop
  | .array _ => False
  | .object _ => False
  | _ => True

/-- The route acts on the request. -/
def ActedOn (request : WebhookRequest) (members : List (Json.Text × Value)) : Prop :=
  request.event = some pullRequestEvent ∧ ∃ name ∈ supportedActions, actionOf members = .str (points name)

/-- Room for the delivery id in the `review_id` of an event. -/
def ShortDelivery (request : WebhookRequest) : Prop :=
  (deliveryOrDefault request.delivery).length ≤ 192

/-- An action that has a hash, room for the delivery id of an ignored request, and a payload whose
first missing value is missing from an object. -/
structure Answerable (request : WebhookRequest) (members : List (Json.Text × Value)) : Prop where
  hashable : request.event = some pullRequestEvent → HasHash (actionOf members)
  shortDelivery : ¬ ActedOn request members → ShortDelivery request
  noGap : ActedOn request members → request.delivery ≠ none → request.delivery ≠ some "" →
    firstGap payloadPaths (.object members) ≠ some .noKeys

section

variable {py : Interpreter} {payload value : Value} {key : String} {path : List String}

/-- The path's subscripts one after the other. -/
def getPath (payload : Value) (path : List String) : Except Exc Value := path.foldlM subscript payload

theorem getPath_follow (payload : Value) (path : List String) :
    (∃ v, follow payload path = .value v ∧ getPath payload path = .ok v) ∨
    (follow payload path = .missing ∧ ∃ m, getPath payload path = .error (.plain .keyError m)) ∨
    (follow payload path = .noKeys ∧ ∃ m, getPath payload path = .error (.plain .typeError m)) := by
  induction path generalizing payload with
  | nil => exact Or.inl ⟨payload, rfl, rfl⟩
  | cons key path ih =>
    cases payload with
    | object members =>
      cases hv : lookup (points key) members with
      | some v => simpa [follow, getPath, List.foldlM_cons, subscript, hv, bind, Except.bind] using ih v
      | none => exact Or.inr (Or.inl (by simp [follow, getPath, subscript, hv, bind, Except.bind]))
    | _ => exact Or.inr (Or.inr (by simp [follow, getPath, subscript, bind, Except.bind]))

/-- Paths are read in order, up to the first without a value. -/
theorem getPaths_cases (paths : List (List String)) (payload : Value) :
    (firstGap paths payload = none ∧
      ∃ vs, paths.mapM (getPath payload) = .ok vs ∧ vs.length = paths.length) ∨
    (firstGap paths payload = some .missing ∧
      ∃ m, paths.mapM (getPath payload) = .error (.plain .keyError m)) ∨
    (firstGap paths payload = some .noKeys ∧
      ∃ m, paths.mapM (getPath payload) = .error (.plain .typeError m)) := by
  induction paths with
  | nil => exact Or.inl ⟨rfl, [], rfl, rfl⟩
  | cons path paths ih =>
    simp only [firstGap, List.map_cons, List.mapM_cons]
    rcases getPath_follow payload path with ⟨v, hv, hget⟩ | ⟨hgap, m, hget⟩ | ⟨hgap, m, hget⟩
    · rw [hget, hv]
      rcases ih with ⟨hnone, vs, hvs, hlength⟩ | ⟨hgap, m, hm⟩ | ⟨hgap, m, hm⟩
      · exact Or.inl ⟨hnone, v :: vs, by rw [hvs]; rfl, by simp [hlength]⟩
      · exact Or.inr (Or.inl ⟨hgap, m, by rw [hm]; rfl⟩)
      · exact Or.inr (Or.inr ⟨hgap, m, by rw [hm]; rfl⟩)
    · exact Or.inr (Or.inl ⟨by rw [hgap]; rfl, m, by rw [hget]; rfl⟩)
    · exact Or.inr (Or.inr ⟨by rw [hgap]; rfl, m, by rw [hget]; rfl⟩)

/-- The event of the values at the paths. -/
def eventOf (py : Interpreter) (action : Value) (deliveryId receivedAt : String) :
    List Value → Except Exc WebhookEvent
  | [_, _, number, login, name, sha] =>
    WebhookEvent.validate py action number login name sha deliveryId receivedAt
  | _ => .error (validationError "WebhookEvent" "")

/-- The payload is read path by path. -/
theorem parse_paths {action : Value} {deliveryId receivedAt : String}
    (haction : subscript payload "action" = .ok action) :
    parsePullRequestPayload py payload deliveryId receivedAt =
      (payloadPaths.mapM (getPath payload) >>= eventOf py action deliveryId receivedAt) := by
  simp only [parsePullRequestPayload, haction, payloadPaths, List.mapM_cons, List.mapM_nil, getPath,
    List.foldlM_cons, List.foldlM_nil, bind_pure]
  cases subscript payload "pull_request" <;> cases subscript payload "repository" <;>
    simp only [bind_assoc, pure_bind] <;> rfl

theorem validate_cases (py : Interpreter) (action number login name sha : Value) (deliveryId receivedAt : String) :
    (∃ event, WebhookEvent.validate py action number login name sha deliveryId receivedAt =
        .ok event ∧ event.deliveryId = deliveryId) ∨
      ∃ m, WebhookEvent.validate py action number login name sha deliveryId receivedAt =
        .error (.plain .validationError m) := by
  unfold WebhookEvent.validate
  split
  · split_ifs
    · exact Or.inl ⟨_, rfl, rfl⟩
    all_goals exact Or.inr ⟨_, rfl⟩
  all_goals exact Or.inr ⟨_, rfl⟩

/-- The parsing ends as the first path without a value does. -/
theorem parse_cases (py : Interpreter) {action : Value} (deliveryId receivedAt : String)
    (haction : subscript payload "action" = .ok action) :
    (firstGap payloadPaths payload ≠ some .noKeys ∧
      ((∃ event, parsePullRequestPayload py payload deliveryId receivedAt = .ok event) ∨
        ∃ e, parsePullRequestPayload py payload deliveryId receivedAt = .error e ∧
          e.isInstanceOfAny [.keyError, .validationError] = true)) ∨
    (firstGap payloadPaths payload = some .noKeys ∧
      ∃ e, parsePullRequestPayload py payload deliveryId receivedAt = .error e ∧
        e.isInstanceOfAny [.keyError, .validationError] = false) := by
  rw [parse_paths haction]
  rcases getPaths_cases payloadPaths payload with ⟨hgap, vs, hvs, hlength⟩ | ⟨hgap, m, hm⟩ |
    ⟨hgap, m, hm⟩
  · refine Or.inl ⟨by simp [hgap], ?_⟩
    rw [hvs]
    match vs, hlength with
    | [_, _, number, login, name, sha], _ =>
      rcases validate_cases py action number login name sha deliveryId receivedAt with
        ⟨event, hevent, -⟩ | ⟨m, hm⟩
      · exact Or.inl ⟨event, hevent⟩
      · exact Or.inr ⟨_, hm, rfl⟩
  · exact Or.inl ⟨by simp [hgap], Or.inr ⟨_, by rw [hm]; rfl, rfl⟩⟩
  · exact Or.inr ⟨hgap, _, by rw [hm]; rfl, rfl⟩

theorem jsonLoads_text {body : Bytes} {text : Json.Text} (h : Json.bodyText? body = some text) :
    jsonLoads py body = (Json.decode py.limits text).mapError (decoderError py text) := by
  rw [jsonLoads, h]

/-- `json.loads` fails otherwise than by `JSONDecodeError` exactly on bytes that are not decodable. -/
theorem jsonLoads_cases (py : Interpreter) (body : Bytes) :
    (Decodable py body ∧ ((∃ v, jsonLoads py body = .ok v) ∨
      ∃ e, jsonLoads py body = .error e ∧ e.isInstance jsonDecodeError = true)) ∨
    (¬ Decodable py body ∧
      ∃ e, jsonLoads py body = .error e ∧ e.isInstance jsonDecodeError = false) := by
  cases htext : Json.bodyText? body with
  | none =>
    refine Or.inr ⟨?_, ?_⟩
    · rintro ⟨text, h, -⟩
      cases htext.symm.trans h
    · exact ⟨_, by rw [jsonLoads, htext], rfl⟩
  | some text =>
    have hdecodable : Decodable py body ↔
        ∀ failure, failure ≠ .syntaxError → Json.decode py.limits text ≠ .error failure := by
      simp only [Decodable, htext, Option.some.injEq, exists_eq_left']
      constructor
      · exact fun h failure hne herror => h failure ((Json.decode_error_iff hne).mp herror)
      · intro h failure hbegins
        have hne : failure ≠ .syntaxError := by simpa using hbegins.ne_syntaxError
        exact h failure hne ((Json.decode_error_iff hne).mpr hbegins)
    rw [hdecodable, jsonLoads_text htext]
    cases Json.decode py.limits text with
    | ok v => exact Or.inl ⟨by simp, Or.inl ⟨v, rfl⟩⟩
    | error failure =>
      cases failure with
      | syntaxError => exact Or.inl ⟨by simp [eq_comm], Or.inr ⟨_, rfl, rfl⟩⟩
      | integerTooLong digits => exact Or.inr ⟨by simp, _, rfl, rfl⟩
      | nestedTooDeep => exact Or.inr ⟨by simp, _, rfl, rfl⟩

theorem isObject_iff {body : Bytes} {members : List (Json.Text × Value)} :
    IsObject py body members ↔ jsonLoads py body = .ok (.object members) := by
  cases htext : Json.bodyText? body with
  | none => simp [IsObject, jsonLoads, htext]
  | some text =>
    have hobject : IsObject py body members ↔
        Json.decode py.limits text = .ok (.object members) := by
      rw [Json.decode_ok_iff]
      simp [IsObject, htext]
    rw [hobject, jsonLoads_text htext]
    cases Json.decode py.limits text <;> simp [Except.mapError]

end

/-- The queue raises nothing but `QueueUnavailableError`. -/
def QueueRaisesUnavailable (answers : RouteAnswers) : Prop :=
  ∀ event e, answers (.inr (.enqueue event)) = .error e →
    e.isInstance .queueUnavailableError = true

/-- The events store fails only in the ways that `_emit` swallows. -/
def EventsSwallowed (answers : RouteAnswers) : Prop := WritesSwallowed fun op => answers (.inl op)

/-- 200, 400 or 503. -/
def Documented (ending : Except Exc RouteReply) : Prop := httpStatus ending ∈ [200, 400, 503]

section

variable {py : Interpreter} {answers : RouteAnswers} {request : WebhookRequest}

/-- An emission is well formed as long as the delivery id leaves room for its prefix. -/
theorem emitIngress_outcome (hevents : EventsSwallowed answers) {deliveryId outcome : String}
    (houtcome : outcome.length ≤ 100) (hlength : deliveryId.length ≤ 192) :
    (emitIngress deliveryId outcome).outcome answers = .ok () := by
  rw [emitIngress, Program.outcome_left]
  apply emitAt_outcome hevents
  have hprefix : ("webhook-" : String).length = 8 := rfl
  simp [EventFields.checks, runIdForDelivery, houtcome, hprefix]
  omega

theorem emitIngress_raises {deliveryId outcome : String} (hlength : 192 < deliveryId.length) :
    ∃ e, (emitIngress deliveryId outcome).outcome answers = .error e := by
  rw [emitIngress, Program.outcome_left]
  refine ⟨validationError "AgentEvent" "review_id", emitAt_raises ?_⟩
  have hprefix : ("webhook-" : String).length = 8 := rfl
  have hlong : ¬ (8 + deliveryId.length ≤ 200) := by omega
  simp [EventFields.checks, runIdForDelivery, hprefix, hlong]

@[simp] theorem documented_ignored (reason : String) : Documented (.ok (.ignored reason)) := by
  simp [Documented, httpStatus]

@[simp] theorem documented_handled (status deliveryId : String) :
    Documented (.ok (.handled status deliveryId)) := by
  simp [Documented, httpStatus]

@[simp] theorem documented_badRequest (detail : String) :
    Documented (.ok (.httpException 400 detail)) := by
  simp [Documented, httpStatus]

@[simp] theorem documented_unavailable (detail : String) :
    Documented (.ok (.httpException 503 detail)) := by
  simp [Documented, httpStatus]

/-- An exception that escapes is not documented. -/
@[simp] theorem not_documented_error (e : Exc) : ¬ Documented (.error e) := by
  simp [Documented, httpStatus]

theorem ignoreDelivery_documented (hevents : EventsSwallowed answers) (reason : String) :
    Documented ((ignoreDelivery request.delivery reason).outcome answers) ↔
      ShortDelivery request := by
  rw [ignoreDelivery, Program.outcome_bind]
  by_cases hshort : (deliveryOrDefault request.delivery).length ≤ 192
  · rw [emitIngress_outcome hevents (by decide) hshort]
    exact iff_of_true (documented_ignored reason) hshort
  · obtain ⟨e, he⟩ : ∃ e, (emitIngress (deliveryOrDefault request.delivery) "rejected").outcome
        answers = .error e := emitIngress_raises (by omega)
    rw [he]
    exact iff_of_false (not_documented_error e) hshort

/-- An event that was parsed is answered. -/
theorem enqueueEvent_documented (hqueue : QueueRaisesUnavailable answers)
    (hevents : EventsSwallowed answers) (event : WebhookEvent) :
    Documented ((enqueueEvent event).outcome answers) := by
  have hshort : event.deliveryId.length ≤ 192 := by
    rw [isDeliveryId_length event.deliveryId_shape]
    decide
  rw [enqueueEvent, Program.outcome_bind, Program.outcome_right, Program.outcome_perform,
    ok_bind]
  cases hresult : answers (.inr (.enqueue event)) with
  | ok result =>
    simp only [RedisJobQueue.answerFor]
    rw [Program.outcome_bind, emitIngress_outcome hevents _ hshort]
    · exact documented_handled _ _
    · split <;> decide
  | error e =>
    simp only [RedisJobQueue.answerFor, hqueue event e hresult]
    exact documented_unavailable _

theorem actOn_documented (hqueue : QueueRaisesUnavailable answers)
    (hevents : EventsSwallowed answers) {payload action : Value}
    (haction : subscript payload "action" = .ok action) (delivery : Option String) :
    Documented ((actOn py payload delivery).outcome answers) ↔
      (delivery ≠ none → delivery ≠ some "" → firstGap payloadPaths payload ≠ some .noKeys) := by
  unfold actOn
  split
  · simp
  · simp
  · rename_i deliveryId hempty
    rw [Program.outcome_bind, Program.outcome_right, Program.outcome_perform, ok_bind]
    rcases parse_cases py deliveryId (answers (.inr .receivedAt)) haction with
      ⟨hgap, ⟨event, hevent⟩ | ⟨e, he, hcaught⟩⟩ | ⟨hgap, e, he, hcaught⟩
    · refine iff_of_true ?_ fun _ _ => hgap
      rw [hevent]
      exact enqueueEvent_documented hqueue hevents event
    · refine iff_of_true ?_ fun _ _ => hgap
      simp only [he, hcaught]
      exact documented_badRequest _
    · refine iff_of_false ?_ fun h => h (by simp) (by simpa using hempty) hgap
      simp only [he, hcaught]
      exact not_documented_error e

theorem inSupportedActions_cases (action : Value) :
    (HasHash action ∧ ∃ found, inSupportedActions action = .ok found ∧
      (found = true ↔ ∃ name ∈ supportedActions, action = .str (points name))) ∨
    (¬ HasHash action ∧ ∃ e, inSupportedActions action = .error e) := by
  cases action with
  | str s =>
    refine Or.inl ⟨trivial, _, rfl, ?_⟩
    simp only [List.any_eq_true, decide_eq_true_eq, Value.str.injEq]
    exact exists_congr fun name => and_congr_right fun _ => eq_comm
  | array items => exact Or.inr ⟨id, _, rfl⟩
  | object members => exact Or.inr ⟨id, _, rfl⟩
  | _ => exact Or.inl ⟨trivial, false, rfl, by simp⟩

theorem receiveObject_documented (hqueue : QueueRaisesUnavailable answers)
    (hevents : EventsSwallowed answers) (members : List (Json.Text × Value)) :
    Documented ((receiveObject py request members).outcome answers) ↔
      Answerable request members := by
  unfold receiveObject
  split
  · rename_i hevent
    have hnot : ¬ ActedOn request members := fun h => hevent h.1
    rw [ignoreDelivery_documented hevents]
    exact ⟨fun hshort => ⟨fun h => absurd h hevent, fun _ => hshort, fun h => absurd h hnot⟩,
      fun h => h.shortDelivery hnot⟩
  · rename_i hevent
    have hevent : request.event = some pullRequestEvent := by simpa using hevent
    rcases inSupportedActions_cases (actionOf members) with ⟨hhash, found, hfound, hacted⟩ |
      ⟨hhash, e, he⟩
    · cases found with
      | false =>
        have hnot : ¬ ActedOn request members := by
          simpa [ActedOn, hevent] using hacted
        simp only [hfound]
        rw [ignoreDelivery_documented hevents]
        exact ⟨fun hshort => ⟨fun _ => hhash, fun _ => hshort, fun h => absurd h hnot⟩,
          fun h => h.shortDelivery hnot⟩
      | true =>
        obtain ⟨name, hname, haction⟩ := hacted.mp rfl
        have hactedOn : ActedOn request members := ⟨hevent, name, hname, haction⟩
        have hsubscript : subscript (.object members) "action" = .ok (actionOf members) := by
          rw [haction]
          unfold actionOf at haction
          cases hl : lookup (points "action") members <;> simp_all [subscript]
        simp only [hfound]
        rw [actOn_documented hqueue hevents hsubscript]
        exact ⟨fun hgap => ⟨fun _ => hhash, fun h => absurd hactedOn h, fun _ => hgap⟩,
          fun h => h.noGap hactedOn⟩
    · simp only [he]
      exact iff_of_false (not_documented_error e) fun h => hhash (h.hashable hevent)

/-- An authentic request is answered as documented exactly if its body can be decoded and, where it
is an object, the request is answerable. -/
theorem receiveWebhook_documented_iff (py : Interpreter) (hmac : HmacSha256) (secret : String)
    (request : WebhookRequest) (answers : RouteAnswers)
    (hverify : verifySignature hmac request.body request.signature secret = .ok ())
    (hqueue : QueueRaisesUnavailable answers) (hevents : EventsSwallowed answers) :
    Documented ((receiveWebhook py hmac secret request).outcome answers) ↔
      Decodable py request.body ∧
        ∀ members, IsObject py request.body members → Answerable request members := by
  rw [receiveWebhook, hverify]
  simp only [isObject_iff]
  rcases jsonLoads_cases py request.body with ⟨hdecodable, ⟨v, hv⟩ | ⟨e, he, hmalformed⟩⟩ |
    ⟨hdecodable, e, he, hmalformed⟩
  · simp only [hv, hdecodable, true_and, Except.ok.injEq]
    cases v with
    | object members => simpa using receiveObject_documented hqueue hevents members
    | _ => simp
  · simp [he, hmalformed, hdecodable]
  · simp [he, hmalformed, hdecodable]

/-- An authentic delivery whose action is a list. -/
def listActionRequest : WebhookRequest where
  body := Json.asciiBytes "\x7b\"action\": []\x7d"
  signature := some "sha256=82de8be6b7d214d7a5d6d47d8c78bb5e6421929ca09d2459f1b6844425a8b36b"
  event := some "pull_request"
  delivery := some "12345678-1234-1234-1234-123456789012"

/-- A queue and an events store at work. -/
def RouteAnswers.sample : RouteAnswers
  | .inl (.now _) => 0
  | .inl (.latencyMs _) => 0
  | .inl (.insertEvent _) => .ok ()
  | .inl (.sumLlmCostForDay _) => .ok ⟨none, Spend.none_lt⟩
  | .inl (.hybridSearch ..) => .ok []
  | .inl (.createMessage _) => .ok ⟨[], 0, 0⟩
  | .inl (.upsertReview ..) => .ok ()
  | .inr .receivedAt => "2025-01-15T10:30:00+00:00"
  | .inr (.enqueue event) => .ok ⟨true, event.deliveryId⟩

theorem listActionRequest_verifies : verifySignature .sample listActionRequest.body
    listActionRequest.signature "whsec-test" = .ok () := by
  rfl

theorem sample_raisesUnavailable : QueueRaisesUnavailable RouteAnswers.sample := by
  intro event e h
  cases h

theorem sample_swallowed : EventsSwallowed RouteAnswers.sample := by
  intro event e h
  cases h

/-- The list has no hash: a `TypeError` escapes the route. -/
theorem list_action_escapes : verifySignature .sample listActionRequest.body
      listActionRequest.signature "whsec-test" = .ok () ∧
    QueueRaisesUnavailable RouteAnswers.sample ∧ EventsSwallowed RouteAnswers.sample ∧
    ¬ Documented ((receiveWebhook .sample .sample "whsec-test" listActionRequest).outcome
      RouteAnswers.sample) := by
  refine ⟨listActionRequest_verifies, sample_raisesUnavailable, sample_swallowed, ?_⟩
  have hstatus : httpStatus ((receiveWebhook .sample .sample "whsec-test" listActionRequest).outcome
      RouteAnswers.sample) = 500 := by decide +kernel
  simp [Documented, hstatus]

/-- The same body in an event that is ignored is answered. -/
theorem receiveWebhook_documented_iff_ignored :
    Documented ((receiveWebhook .sample .sample "whsec-test"
      { listActionRequest with event := some "issues" }).outcome RouteAnswers.sample) ∧
    Decodable .sample listActionRequest.body ∧
    ∀ members, IsObject .sample listActionRequest.body members →
      Answerable { listActionRequest with event := some "issues" } members := by
  have hstatus : httpStatus ((receiveWebhook .sample .sample "whsec-test"
      { listActionRequest with event := some "issues" }).outcome RouteAnswers.sample) = 200 := by
    decide +kernel
  have hdocumented : Documented ((receiveWebhook .sample .sample "whsec-test"
      { listActionRequest with event := some "issues" }).outcome RouteAnswers.sample) := by
    simp [Documented, hstatus]
  exact ⟨hdocumented, (receiveWebhook_documented_iff .sample .sample "whsec-test"
    { listActionRequest with event := some "issues" } RouteAnswers.sample listActionRequest_verifies
    sample_raisesUnavailable sample_swallowed).mp hdocumented⟩

end

end ReviewAgent
