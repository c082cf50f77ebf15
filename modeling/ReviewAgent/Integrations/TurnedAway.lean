import ReviewAgent.Integrations.DiffHistory
import ReviewAgent.Reliability.ToldBreakers

/-! What becomes of an operation of a client when the breaker turns a call of it away, and only
then. -/
namespace ReviewAgent

open Effects

/-- What an operation gives to its caller. -/
inductive OperationResult where
  | metadata (metadata : PullRequestMetadata)
  | diffText (text : String)
  | posted

/-- One operation, with its result. -/
def RealGitHubClient.call (client : RealGitHubClient) : GitHubOperation → Session OperationResult
  | .getPrMetadata pr => do
    let metadata ← client.getPrMetadata pr
    pure (.metadata metadata)
  | .fetchDiff pr headSha => do
    let text ← client.fetchDiff pr headSha
    pure (.diffText text)
  | .postReviewComment review => do
    client.postReviewComment review
    pure .posted

/-- The pull request an operation is about. -/
def GitHubOperation.pullRequest : GitHubOperation → PullRequest
  | .getPrMetadata pr | .fetchDiff pr _ => pr
  | .postReviewComment review => review.pullRequest

/-- The calls of clients, each by its own thread. -/
abbrev calling (request : RealGitHubClient × GitHubOperation) : Session OperationResult :=
  request.1.call request.2

section

variable {client : RealGitHubClient} {owner repo headers : String}

/-- An operation whose call the breaker turns away ends in `GitHubUnavailableError`. -/
abbrev Hinged {α : Type} (p : Session α) : Prop := Hinges (outward gitHubUnavailable) p

/-- An operation on the dependency. -/
def OnlyDep (op : GuardOp GitHubSignature) : Prop := ∃ o, op = .dep o

theorem OnlyDep.unasking {op : GuardOp GitHubSignature} (hop : OnlyDep op) : Unasking op := by
  obtain ⟨o, rfl⟩ := hop
  simp [Unasking]

theorem onlyDep_of_resolves {op : GuardOp GitHubSignature} (hop : ResolvesInstallation op) :
    OnlyDep op := by
  cases op with
  | dep o => exact ⟨o, rfl⟩
  | _ => exact hop.elim

theorem hinged_of_onlyDep {α : Type} {p : Session α} (hp : p.Issues OnlyDep) : Hinged p :=
  Hinges.of_issues (hp.mono fun _ => OnlyDep.unasking)

theorem hinged_reliably {α : Type} {op : GuardOp GitHubSignature}
    {next : (Guarded GitHubSignature).Answer op → Session α}
    (hfunc : (Program.step op next : Session α).Issues OnlyDep) :
    Hinged (client.callReliably (.step op next)) :=
  hinges_callReliably (by simp [gitHubNonRetryableExceptions])
    (hfunc.mono fun _ => OnlyDep.unasking)

theorem hinged_dep {op : GitHubOp} : Hinged (dep (D := GitHubSignature) op) :=
  hinged_of_onlyDep (Program.issues_perform ⟨_, rfl⟩)

theorem hinged_installationHeaders : Hinged (client.installationHeaders owner repo) := by
  refine hinged_dep.bind fun now => ?_
  refine (hinged_of_onlyDep (mint_issues.mono fun _ => onlyDep_of_resolves)).bind fun appJwt => ?_
  refine (hinged_reliably (authorize_issues.mono fun _ => onlyDep_of_resolves)).bind fun id => ?_
  exact hinged_reliably (getToken_issues (fun _ => onlyDep_of_resolves) ⟨_, rfl⟩
    (fun _ => ⟨_, rfl⟩) fun _ => ⟨_, rfl⟩)

theorem hinged_request {request : GitHubRequest} :
    Hinged (client.callReliably (RealGitHubClient.attempt request headers)) :=
  hinged_reliably (attempt_issues ⟨_, rfl⟩)

theorem hinged_changedFilesFrom {pr : PullRequest} (remaining page : ℕ)
    (files : List ChangedFile) :
    Hinged (client.changedFilesFrom pr headers remaining page files) := by
  induction remaining generalizing page files with
  | zero => exact ⟨trivial, fun answer => answer.elim⟩
  | succ remaining ih =>
    refine hinged_request.bind fun response => ?_
    refine (hinged_of_onlyDep (Program.issues_done _)).bind fun batch => ?_
    split
    · trivial
    · split
      · trivial
      · exact ih _ _

theorem hinged_getDiffAndFiles {pr : PullRequest} {headSha : String} :
    Hinged (client.getDiffAndFiles pr headSha) := by
  refine hinged_dep.bind ?_
  rintro (_ | value)
  · refine hinged_installationHeaders.bind fun headers => ?_
    refine hinged_request.bind fun response => ?_
    refine Hinges.bind (hinged_dep.bind fun rounds => hinged_changedFilesFrom rounds 1 []) ?_
    exact fun changedFiles => hinged_dep.bind fun _ => trivial
  · trivial

theorem hinged_call (op : GitHubOperation) : Hinged (client.call op) := by
  cases op with
  | getPrMetadata pr =>
    refine Hinges.bind ?_ fun metadata => trivial
    refine hinged_installationHeaders.bind fun headers => ?_
    exact hinged_request.bind fun response => hinged_of_onlyDep (Program.issues_done _)
  | fetchDiff pr headSha =>
    refine Hinges.bind ?_ fun text => trivial
    exact hinged_getDiffAndFiles.bind fun value => trivial
  | postReviewComment review =>
    refine Hinges.bind ?_ fun _ => trivial
    refine hinged_installationHeaders.bind fun headers => ?_
    refine Hinges.bind ?_ fun alreadyPosted => ?_
    · refine hinged_request.bind fun response => ?_
      exact (hinged_of_onlyDep (Program.issues_done _)).bind fun existing => trivial
    · split
      · trivial
      · refine hinged_getDiffAndFiles.bind fun value => ?_
        refine (hinged_of_onlyDep (Program.issues_done _)).bind fun requestBody => ?_
        refine hinged_request.bind fun response => ?_
        exact (hinged_of_onlyDep (Program.issues_done _)).bind fun _ => trivial

end

/-- The signature succeeds, and GitHub accepts a request and answers it readably. -/
def InGoodOrder : Occurrence (Guarded GitHubSignature) → Prop
  | ⟨.dep (.http _ _), .ok response⟩ => response.statusCode < 300 ∧ response.json.isOk = true
  | ⟨.dep (.http _ _), .error _⟩ => False
  | ⟨.dep (.sign _), outcome⟩ => outcome.isOk = true
  | _ => True

/-- The breaker turns a call away. -/
def TurnedAway : Occurrence (Guarded GitHubSignature) → Prop
  | ⟨.admission, .error _⟩ => True
  | _ => False

/-- In good order, and the breaker turns away as it does. -/
def Expected (o : Occurrence (Guarded GitHubSignature)) : Prop :=
  InGoodOrder o ∧ ∀ e, o = ⟨.admission, .error e⟩ → e.cls = .circuitOpenError

/-- No call has been turned away. -/
def Smooth (h : GitHubHistory) : Prop := ∀ o ∈ h, ¬ TurnedAway o

/-- The operation has failed with `GitHubUnavailableError`. -/
def Unavailable {α : Type} (r : Except Exc α) : Prop :=
  ∃ e, r = .error e ∧ e.isInstance .gitHubUnavailableError = true

/-- A result of which `A` holds comes where no call was turned away; an exception is
`GitHubUnavailableError` where one was. -/
def Decided {α : Type} (A : α → Prop) : Except Exc α → GitHubHistory → Prop
  | .ok a, h => Smooth h ∧ A a
  | .error e, h => e.isInstance .gitHubUnavailableError = true ↔ ¬ Smooth h

def Decides {α : Type} (A : α → Prop) (p : Session α) : Prop :=
  ∀ h, Smooth h → Program.Assuming Expected (Decided A) h p

/-- The program returns what `A` holds of, and no call in it is turned away. -/
def Succeeds {α : Type} (A : α → Prop) (p : Session α) : Prop :=
  ∀ h, Smooth h → Program.Assuming Expected (fun r h' => Smooth h' ∧ ∃ a, r = .ok a ∧ A a) h p

section

variable {client : RealGitHubClient} {owner repo appId appJwt headers : String}
  {installationId : ℤ} {α β : Type} {A : α → Prop} {B : β → Prop} {h : GitHubHistory}

theorem exists_of_isOk {r : Except Exc α} (h : r.isOk = true) : ∃ a, r = .ok a := by
  cases r with
  | ok a => exact ⟨a, rfl⟩
  | error e => cases h

theorem Smooth.cons {o : Occurrence (Guarded GitHubSignature)} (hh : Smooth h)
    (ho : ¬ TurnedAway o) : Smooth (o :: h) := by
  intro o' ho'
  rcases List.mem_cons.mp ho' with rfl | ho'
  · exact ho
  · exact hh o' ho'

theorem Decides.bind {p : Session α} {f : α → Session β} (hp : Decides A p)
    (hf : ∀ a, A a → Decides B (f a)) : Decides B (p >>= f) := by
  intro h hh
  exact (hp h hh).bind (fun a h' ha => hf a ha.2 h' ha.1) fun e h' he => he

theorem Decides.ok {a : α} (ha : A a) : Decides A (.done (.ok a) : Session α) :=
  fun _ hh => ⟨hh, ha⟩

theorem Decides.error {e : Exc} (he : e.isInstance .gitHubUnavailableError = false) :
    Decides A (.done (.error e) : Session α) := by
  intro h hh
  simp [Program.Assuming, Decided, he, hh]

theorem Succeeds.bind {p : Session α} {f : α → Session β} (hp : Succeeds A p)
    (hf : ∀ a, A a → Succeeds B (f a)) : Succeeds B (p >>= f) := by
  intro h hh
  refine (hp h hh).bind (fun a h' ha => ?_) fun e h' he => ?_
  · obtain ⟨hh', a', heq, ha'⟩ := ha
    obtain rfl := Except.ok.inj heq
    exact hf a ha' h' hh'
  · obtain ⟨-, a, heq, -⟩ := he
    cases heq

theorem Succeeds.ok {a : α} (ha : A a) : Succeeds A (.done (.ok a) : Session α) :=
  fun _ hh => ⟨hh, a, rfl, ha⟩

theorem Succeeds.decides {p : Session α} (hp : Succeeds A p) : Decides A p := by
  intro h hh
  refine (hp h hh).mono ?_
  rintro r h' ⟨hh', a, rfl, ha⟩
  exact ⟨hh', ha⟩

/-- One operation of the client itself. -/
theorem Succeeds.dep {op : GitHubOp} {k : GitHubSignature.Answer op → Session α}
    (hk : ∀ answer, InGoodOrder ⟨.dep op, answer⟩ → Succeeds A (k answer)) :
    Succeeds A (dep op >>= k) := by
  intro h hh answer hgood
  exact hk answer hgood.1 _ (hh.cons fun hturned => hturned)

theorem Decides.dep {op : GitHubOp} {k : GitHubSignature.Answer op → Session α}
    (hk : ∀ answer, Decides A (k answer)) : Decides A (ReviewAgent.dep op >>= k) := by
  intro h hh answer hgood
  exact hk answer _ (hh.cons fun hturned => hturned)

/-- A request that the code accepts. -/
theorem Succeeds.http {request : GitHubRequest} {bearer : String}
    {f : Response request.Content → Session α}
    (hf : ∀ response : Response request.Content, response.statusCode < 300 →
      (∃ content, response.json = .ok content) → Succeeds A (f response)) :
    Succeeds A (http request bearer >>= f) := by
  intro h hh answer hgood
  cases answer with
  | error e => exact hgood.1.elim
  | ok response =>
    obtain ⟨hstatus, hok⟩ := hgood.1
    exact hf response hstatus (exists_of_isOk hok) _ (hh.cons fun hturned => hturned)

theorem succeeds_attempt {request : GitHubRequest} :
    Succeeds (fun response => ∃ content, response.json = .ok content)
      (RealGitHubClient.attempt request headers) := by
  apply Succeeds.http
  intro response hstatus hcontent
  rw [GitHubRequest.statusError_ok.mpr hstatus]
  exact Succeeds.ok hcontent

theorem succeeds_mint {now : ℚ} : Succeeds (fun _ => True) (mintAppJwt appId now) := by
  apply Succeeds.dep
  intro outcome hok
  obtain ⟨jwt, rfl⟩ := exists_of_isOk hok
  exact Succeeds.ok trivial

theorem succeeds_discover : Succeeds (fun _ => True) (discoverInstallationId owner repo appJwt) := by
  apply Succeeds.http
  rintro response hstatus ⟨id, hjson⟩
  have hok : installationStatusError owner repo response.toReply = .ok () :=
    if_neg (not_le.mpr hstatus)
  rw [hok, hjson]
  exact Succeeds.ok trivial

theorem succeeds_authorize : Succeeds (fun _ => True) (authorize owner repo appJwt) := by
  apply Succeeds.dep
  rintro (_ | id) -
  · have hlookup : Succeeds (fun _ => True)
        (tryCatch (discoverInstallationId owner repo appJwt) fun e =>
          throw (notFoundAsUnauthorized owner repo e)) := by
      intro h hh
      refine (succeeds_discover h hh).tryCatch (fun a h' ha => ha) fun e h' he => ?_
      obtain ⟨-, a, heq, -⟩ := he
      cases heq
    apply hlookup.bind
    exact fun id _ => Succeeds.dep fun _ _ => Succeeds.ok trivial
  · exact Succeeds.ok trivial

theorem succeeds_getToken : Succeeds (fun _ => True) (getToken appId installationId) := by
  apply Succeeds.dep
  intro entry _
  split
  · exact Succeeds.ok trivial
  · apply succeeds_mint.bind
    intro jwt _
    have hexchange : Succeeds (fun _ => True)
        (exchangeJwtForInstallationToken jwt installationId) := by
      apply Succeeds.http
      rintro response hstatus ⟨token, hjson⟩
      have hok : exchangeStatusError installationId response.toReply = .ok () :=
        if_neg (not_le.mpr hstatus)
      rw [hok, hjson]
      exact Succeeds.ok trivial
    apply hexchange.bind
    exact fun token _ => Succeeds.dep fun _ _ => Succeeds.ok trivial

/-- Through the breaker, a function that succeeds does, or its call is turned away. -/
theorem succeeds_call {func : Session α} (hfunc : Succeeds A func) (hh : Smooth h) :
    Program.Assuming Expected (fun r h' => match r with
      | .ok a => Smooth h' ∧ A a
      | .error e => e.cls = .circuitOpenError ∧ ¬ Smooth h') h (CircuitBreaker.call func) := by
  rintro (e | u) hgood
  · refine ⟨hgood.2 e rfl, fun hsmooth => ?_⟩
    exact hsmooth _ List.mem_cons_self trivial
  · have hadmitted : Smooth (⟨.admission, .ok u⟩ :: h : GitHubHistory) :=
      hh.cons fun hturned => hturned
    refine Program.Assuming.bind (R := fun r h' => Smooth h' ∧ ∃ a, r = .ok a ∧ A a)
      ((hfunc _ hadmitted).tryCatch (fun a h' ha => ha) ?_) ?_ ?_
    · rintro e h' ⟨-, a, heq, -⟩
      cases heq
    · rintro a h' ⟨hh', a', heq, ha⟩
      obtain rfl := Except.ok.inj heq
      exact fun answer _ => ⟨hh'.cons fun hturned => hturned, ha⟩
    · rintro e h' ⟨-, a, heq, -⟩
      cases heq

/-- A client's call of a function that succeeds fails only where the breaker turns it away. -/
theorem decides_reliably {func : Session α} (hfunc : Succeeds A func) :
    Decides A (client.callReliably func) := by
  intro h hh
  obtain ⟨n, hn⟩ : ∃ n, client.retryPolicy.maxAttempts = n + 1 :=
    ⟨_, (Nat.sub_add_cancel client.retryPolicy.one_le_maxAttempts).symm⟩
  unfold RealGitHubClient.callReliably callReliably callWithRetry
  rw [hn]
  refine Program.Assuming.tryCatch (R := fun r h' => match r with
    | .ok a => Smooth h' ∧ A a
    | .error e => e.cls = .circuitOpenError ∧ ¬ Smooth h') ?_ (fun a h' ha => ha) ?_
  · refine (succeeds_call hfunc hh).tryCatch (fun a h' ha => ha) fun e h' he => ?_
    have hfast : e.isInstanceOfAny gitHubNonRetryableExceptions = true := by
      rw [Exc.isInstanceOfAny_iff]
      exact ⟨.circuitOpenError, by simp [gitHubNonRetryableExceptions],
        by simp [Exc.isInstance, he.1]⟩
    rw [if_pos hfast]
    exact he
  · rintro e h' ⟨hcls, hturned⟩
    have hwrapped : outward gitHubUnavailable e = gitHubUnavailable e := by
      refine if_pos (Exc.isInstanceOfAny_iff.mpr ⟨.circuitOpenError, by simp, ?_⟩)
      simp [Exc.isInstance, hcls]
    show Program.Assuming _ _ _ (.done (.error (outward gitHubUnavailable e)))
    rw [hwrapped]
    exact iff_of_true rfl hturned

theorem decides_installationHeaders : Decides (fun _ => True)
    (client.installationHeaders owner repo) := by
  apply Decides.dep
  intro now
  apply succeeds_mint.decides.bind
  intro jwt _
  apply (decides_reliably succeeds_authorize).bind
  exact fun id _ => decides_reliably succeeds_getToken

/-- A request, and the body of its answer. -/
theorem decides_read {request : GitHubRequest} {f : request.Content → Session β}
    (hf : ∀ content, Decides B (f content)) :
    Decides B (client.callReliably (RealGitHubClient.attempt request headers) >>=
      fun response => Program.ofExcept response.json >>= f) := by
  apply (decides_reliably succeeds_attempt).bind
  rintro response ⟨content, hjson⟩
  rw [hjson]
  exact hf content

theorem decides_changedFilesFrom {pr : PullRequest} (remaining page : ℕ)
    (files : List ChangedFile) :
    Decides (fun _ => True) (client.changedFilesFrom pr headers remaining page files) := by
  induction remaining generalizing page files with
  | zero => exact fun h _ answer => answer.elim
  | succ remaining ih =>
    apply decides_read
    intro batch
    split
    · exact Decides.ok trivial
    · split
      · exact Decides.ok trivial
      · exact ih _ _

theorem decides_getDiffAndFiles {pr : PullRequest} {headSha : String} :
    Decides (fun _ => True) (client.getDiffAndFiles pr headSha) := by
  apply Decides.dep
  rintro (_ | value)
  · apply decides_installationHeaders.bind
    intro headers _
    apply (decides_reliably succeeds_attempt).bind
    intro response _
    have hfiles : Decides (fun _ => True) (client.getChangedFiles pr headers) :=
      Decides.dep fun rounds => decides_changedFilesFrom rounds 1 []
    apply hfiles.bind
    exact fun changedFiles _ => Decides.dep fun _ => Decides.ok trivial
  · exact Decides.ok trivial

end

theorem reviewRequest_error {review : Review} {changedFiles : List ChangedFile} {e : Exc}
    (h : reviewRequest review changedFiles = .error e) : e.cls = .valueError := by
  cases hindex : buildDiffIndex changedFiles with
  | error e' =>
    rw [reviewRequest, hindex] at h
    exact Except.error.inj h ▸ buildDiffIndex_error hindex
  | ok diffIndex =>
    rw [reviewRequest, hindex] at h
    cases h

section

variable {client : RealGitHubClient}

theorem decides_postReviewComment {review : Review} :
    Decides (fun _ => True) (client.postReviewComment review) := by
  apply decides_installationHeaders.bind
  intro headers _
  apply Decides.bind (A := fun _ => True)
  · exact decides_read fun existing => Decides.ok trivial
  · intro alreadyPosted _
    split
    · exact Decides.ok trivial
    · apply decides_getDiffAndFiles.bind
      intro value _
      cases hbody : reviewRequest review value.changedFiles with
      | error e =>
        apply Decides.error
        rw [Exc.isInstance, reviewRequest_error hbody]
        rfl
      | ok body => exact decides_read fun posted => Decides.ok trivial

theorem decides_call (op : GitHubOperation) : Decides (fun _ => True) (client.call op) := by
  cases op with
  | getPrMetadata pr =>
    apply Decides.bind (A := fun _ => True) _ fun _ _ => Decides.ok trivial
    apply decides_installationHeaders.bind
    intro headers _
    apply (decides_reliably succeeds_attempt).bind
    rintro response ⟨content, hjson⟩
    rw [hjson]
    exact Decides.ok trivial
  | fetchDiff pr headSha =>
    apply Decides.bind (A := fun _ => True) _ fun _ _ => Decides.ok trivial
    exact decides_getDiffAndFiles.bind fun value _ => Decides.ok trivial
  | postReviewComment review => exact decides_postReviewComment.bind fun _ _ => Decides.ok trivial

end

end ReviewAgent
