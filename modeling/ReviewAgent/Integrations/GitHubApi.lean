import ReviewAgent.Integrations.GitHubModels
import ReviewAgent.Reliability.Guarded

/-! GitHub's REST API as the clients use it, and the clients' caches: operations and machine. -/
namespace ReviewAgent

open Effects

/-- An HTTP response without its decoded body. -/
structure Reply where
  statusCode : ℕ
  rateLimitRemaining : Option String := none
  rateLimitReset : Option String := none
  text : String := ""

/-- A response; `json` is what decoding and validating its body gives. -/
structure Response (α : Type) extends Reply where
  json : Except Exc α

structure PullRequest where
  owner : String
  repo : String
  prNumber : ℕ
  deriving DecidableEq

inductive GitHubRequest where
  | installation (owner repo : String)
  | accessToken (installationId : ℤ)
  | pull (pr : PullRequest)
  | diff (pr : PullRequest)
  | files (pr : PullRequest) (perPage page : ℕ)
  | reviews (pr : PullRequest) (perPage : ℕ)
  | createReview (pr : PullRequest) (body : CreateReviewRequest)
  deriving DecidableEq

/-- What the body of a response is read as; a diff is taken from its text. -/
def GitHubRequest.Content : GitHubRequest → Type
  | .installation .. => ℤ
  | .accessToken .. => InstallationToken
  | .pull .. => PullRequestMetadata
  | .diff .. => Unit
  | .files .. => List ChangedFile
  | .reviews .. => List ExistingReview
  | .createReview .. => CreateReviewResponse

structure JwtClaims where
  issuedAt : ℤ
  expiresAt : ℤ
  issuer : String

/-- The key of `_diff_cache`. -/
structure DiffKey where
  pr : PullRequest
  headSha : String
  deriving DecidableEq

structure DiffAndFiles where
  diffText : String
  changedFiles : List ChangedFile

/-- What a client does besides computing: clock, signature, its caches, and requests. -/
inductive GitHubOp where
  | now
  | sign (claims : JwtClaims)
  | resolved (owner repo : String)
  | storeResolved (owner repo : String) (installationId : ℤ)
  | cachedToken (installationId : ℤ)
  | storeToken (installationId : ℤ) (token : InstallationToken)
  | cachedDiff (key : DiffKey)
  | storeDiff (key : DiffKey) (value : DiffAndFiles)
  | http (request : GitHubRequest) (bearer : String)
  -- how many rounds an unbounded loop makes at most in this run
  | rounds
  -- a loop that makes more rounds than that is still running
  | loops

abbrev GitHubSignature : Signature where
  Op := GitHubOp
  Answer
    | .now => ℚ
    | .sign _ => Except Exc String
    | .resolved .. => Option ℤ
    -- the entry and the clock are read under one lock
    | .cachedToken _ => Option InstallationToken × ℚ
    | .cachedDiff _ => Option DiffAndFiles
    | .storeResolved .. | .storeToken .. | .storeDiff .. => Unit
    | .http request _ => Except Exc (Response request.Content)
    | .rounds => ℕ
    | .loops => Empty

/-- How a request ends: GitHub's answer arrives, or `httpx` raises and GitHub may nevertheless
have carried the request out. -/
inductive Sending (α : Type) where
  | answered (response : Response α)
  | lost (applied : Bool) (e : Exc)

/-- GitHub has carried the request out. -/
def Sending.takesEffect {α : Type} : Sending α → Bool
  | answered response => decide (response.statusCode < 300)
  | lost applied _ => applied

/-- What the client sees of a request's end. -/
def Sending.outcome {α : Type} : Sending α → Except Exc (Response α)
  | answered response => .ok response
  | lost _ e => .error e

/-- Failures, of the request or of reading its answer, are `Exception`s. -/
def Sending.wellFormed {α : Type} : Sending α → Bool
  | answered response => onlyExceptions response.json
  | lost _ e => e.isInstance .httpError

/-- One request: the thread and the client it comes from, its credentials, its end. -/
structure Sent where
  thread : ℕ
  client : ℕ
  request : GitHubRequest
  bearer : String
  sending : Sending request.Content

/-- GitHub answered with a status below 300. -/
def Sent.succeeds (sent : Sent) : Bool :=
  match sent.sending with
  | .answered response => decide (response.statusCode < 300)
  | .lost .. => false

/-- The caches of one client. -/
structure ClientCaches where
  resolved : String × String → Option ℤ := fun _ => none
  tokens : ℤ → Option InstallationToken := fun _ => none
  exchangeCount : ℕ := 0
  diffs : DiffKey → Option DiffAndFiles := fun _ => none

/-- GitHub's reviews (oldest first), the clients' caches, the wall clock, and the requests made so
far, newest first, which nothing reads back. -/
structure GitHubWorld where
  clients : ℕ → ClientCaches := fun _ => {}
  wallClock : ℚ := 0
  reviews : PullRequest → List ExistingReview := fun _ => []
  log : List Sent := []

/-- What the environment decides at an operation. -/
inductive GitHubChoice where
  | go
  | signs (outcome : Except Exc String)
  | answers (serve : (request : GitHubRequest) → Response request.Content)
  | lost (applied : Bool) (e : Exc)
  | rounds (n : ℕ)

/-- The environment lets a request take effect. -/
def GitHubChoice.applies (request : GitHubRequest) : GitHubChoice → Bool
  | answers serve => decide ((serve request).statusCode < 300)
  | lost applied _ => applied
  | _ => false

inductive GitHubMove where
  | clock (now : ℚ)

/-- The reviews after a request that takes effect. -/
def GitHubRequest.effect (reviews : PullRequest → List ExistingReview) :
    GitHubRequest → PullRequest → List ExistingReview
  | .createReview pr body => Function.update reviews pr (reviews pr ++ [⟨body.body⟩])
  | _ => reviews

namespace GitHubWorld

variable (w : GitHubWorld)

/-- A list of reviews comes as GitHub holds it, its first page. -/
def serve : (request : GitHubRequest) → Response request.Content → Response request.Content
  | .reviews pr perPage, response => { response with json := .ok ((w.reviews pr).take perPage) }
  | _, response => response

def setClient (k : ℕ) (caches : ClientCaches) : GitHubWorld :=
  { w with clients := Function.update w.clients k caches }

/-- A request is sent and ends. -/
def send (sent : Sent) : GitHubWorld :=
  { w with
    reviews := if sent.sending.takesEffect then sent.request.effect w.reviews else w.reviews
    log := sent :: w.log }

end GitHubWorld

/-- GitHub and the clients' caches; thread `i` uses client `inst i`. -/
def gitHub (inst : ℕ → ℕ) : Machine GitHubSignature GitHubWorld GitHubChoice GitHubMove where
  perform i w
    | .now, .go => some (w, w.wallClock)
    | .sign _, .signs outcome => if onlyExceptions outcome then some (w, outcome) else none
    | .resolved owner repo, .go => some (w, (w.clients (inst i)).resolved (owner, repo))
    | .storeResolved owner repo installationId, .go =>
      let caches := w.clients (inst i)
      some (w.setClient (inst i)
        { caches with
          resolved := Function.update caches.resolved (owner, repo) (some installationId) }, ())
    | .cachedToken installationId, .go =>
      some (w, (w.clients (inst i)).tokens installationId, w.wallClock)
    | .storeToken installationId token, .go =>
      let caches := w.clients (inst i)
      some (w.setClient (inst i)
        { caches with
          tokens := Function.update caches.tokens installationId (some token)
          exchangeCount := caches.exchangeCount + 1 }, ())
    | .cachedDiff key, .go => some (w, (w.clients (inst i)).diffs key)
    | .storeDiff key value, .go =>
      let caches := w.clients (inst i)
      some (w.setClient (inst i)
        { caches with diffs := Function.update caches.diffs key (some value) }, ())
    | .http request bearer, .answers serve =>
      let response := w.serve request (serve request)
      if onlyExceptions response.json then
        some (w.send ⟨i, inst i, request, bearer, .answered response⟩, .ok response)
      else none
    | .http request bearer, .lost applied e =>
      if e.isInstance .httpError then
        some (w.send ⟨i, inst i, request, bearer, .lost applied e⟩, .error e)
      else none
    | .rounds, .rounds n => some (w, n)
    | _, _ => none
  move w
    | .clock now => some { w with wallClock := now }

/-- A client's caches after one of its operations. -/
def GitHubOp.stored (caches : ClientCaches) : GitHubOp → ClientCaches
  | .storeResolved owner repo installationId =>
    { caches with
      resolved := Function.update caches.resolved (owner, repo) (some installationId) }
  | .storeToken installationId token =>
    { caches with
      tokens := Function.update caches.tokens installationId (some token)
      exchangeCount := caches.exchangeCount + 1 }
  | .storeDiff key value => { caches with diffs := Function.update caches.diffs key (some value) }
  | _ => caches

section

variable {inst : ℕ → ℕ} {i : ℕ} {w w' : GitHubWorld} {c : GitHubChoice}

/-- What is not a request leaves the reviews and the log as they are. -/
theorem gitHub_quiet {op : GitHubOp} {answer : GitHubSignature.Answer op}
    (h : (gitHub inst).perform i w op c = some (w', answer))
    (hop : ∀ request bearer, op ≠ .http request bearer) :
    w'.reviews = w.reviews ∧ w'.log = w.log := by
  cases op <;> cases c <;> simp only [gitHub] at h <;> try cases h
  all_goals first
    | exact ⟨rfl, rfl⟩
    | exact absurd rfl (hop _ _)
    | (split at h <;> cases h; exact ⟨rfl, rfl⟩)

/-- Only the client's own caches change, by what it stores. -/
theorem perform_clients {op : GitHubOp} {answer : GitHubSignature.Answer op}
    (h : (gitHub inst).perform i w op c = some (w', answer)) :
    w'.clients = Function.update w.clients (inst i) (op.stored (w.clients (inst i))) := by
  cases op <;> cases c <;> simp only [gitHub] at h <;> try cases h
  all_goals simp only [GitHubOp.stored, Function.update_eq_self, GitHubWorld.setClient]
  all_goals split at h <;> cases h
  all_goals rfl

@[simp] theorem serve_statusCode {request : GitHubRequest} {response : Response request.Content} :
    (w.serve request response).statusCode = response.statusCode := by
  cases request <;> rfl

/-- A request goes to the log with the way it ends. -/
theorem perform_http {request : GitHubRequest} {bearer : String}
    {answer : Except Exc (Response request.Content)}
    (h : (gitHub inst).perform i w (.http request bearer) c = some (w', answer)) :
    ∃ sending : Sending request.Content, answer = sending.outcome ∧
      sending.wellFormed = true ∧ sending.takesEffect = c.applies request ∧
      w' = w.send ⟨i, inst i, request, bearer, sending⟩ := by
  cases c <;> simp only [gitHub] at h <;> try cases h
  · split at h <;> cases h
    rename_i hjson
    exact ⟨.answered _, rfl, hjson, by simp [Sending.takesEffect, GitHubChoice.applies], rfl⟩
  · split at h <;> cases h
    rename_i he
    exact ⟨.lost _ _, rfl, he, rfl, rfl⟩

/-- The first page of the reviews, oldest first. -/
theorem perform_reviews {pr : PullRequest} {perPage : ℕ} {bearer : String}
    {response : Response (List ExistingReview)}
    (h : (gitHub inst).perform i w (.http (.reviews pr perPage) bearer) c =
      some (w', .ok response)) : response.json = .ok ((w.reviews pr).take perPage) := by
  cases c <;> simp only [gitHub] at h <;> try cases h
  · rfl
  · split at h <;> cases h

end

/-- The clients over one GitHub. -/
abbrev gitHubMachine (inst : ℕ → ℕ) : Machine (Guarded GitHubSignature) (GuardWorld GitHubWorld)
    (GuardChoice GitHubChoice) (GuardMove GitHubMove) :=
  guarded (gitHub inst) inst

/-- Programs of a client. -/
abbrev Session (α : Type) : Type := Program (Guarded GitHubSignature) Exc α

/-- GitHub in good order: what it answers to each request (the reviews come from the world). -/
def GitHubRequest.healthyAnswer (request : GitHubRequest) : Response request.Content where
  statusCode := 200
  json :=
    match request with
    | .installation .. => .ok (1 : ℤ)
    | .accessToken .. => .ok (⟨"token", 3600, token_nonempty⟩ : InstallationToken)
    | .pull pr => .ok (⟨pr.prNumber, "open", ⟨"head", "feature", by decide, by decide⟩,
        ⟨"base", "main", by decide, by decide⟩⟩ : PullRequestMetadata)
    | .diff .. => .ok ()
    | .files .. => .ok ([] : List ChangedFile)
    | .reviews .. => .ok ([] : List ExistingReview)
    | .createReview .. => .ok (⟨1, "", "COMMENTED"⟩ : CreateReviewResponse)

/-- The choice that GitHub answers a request in good order. -/
def GitHubChoice.healthy : GitHubChoice := .answers GitHubRequest.healthyAnswer

end ReviewAgent
