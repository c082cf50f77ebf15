import ReviewAgent.Integrations.RevokedTokens
import ReviewAgent.Paging

/-! Which answers the diff and the changed files of an operation come from. -/
namespace ReviewAgent

open Effects

/-- The text with which GitHub has answered a request for the diff of a pull request. -/
def servedDiff (pr : PullRequest) : Occurrence (Guarded GitHubSignature) → Option String
  | ⟨.dep (.http (.diff pr') _), .ok response⟩ =>
    if pr' = pr ∧ response.statusCode < 300 then some response.text else none
  | _ => none

/-- The page of changed files with which GitHub has answered a request for one. -/
def servedPage (pr : PullRequest) :
    Occurrence (Guarded GitHubSignature) → Option (ℕ × List ChangedFile)
  | ⟨.dep (.http (.files pr' perPage page) _), .ok response⟩ =>
    match response.json with
    | .ok batch =>
      if pr' = pr ∧ perPage = filesPageSize ∧ response.statusCode < 300 then some (page, batch)
      else none
    | .error _ => none
  | _ => none

/-- What has been served of the pull request so far, newest first. -/
def Served (pr : PullRequest) (diffs : List String) (pages : List (ℕ × List ChangedFile))
    (h : GitHubHistory) : Prop :=
  h.filterMap (servedDiff pr) = diffs ∧ h.filterMap (servedPage pr) = pages

/-- The value is the one diff and the pages up to one that is not full, and nothing else was
served. -/
def Assembled (pr : PullRequest) (value : DiffAndFiles) (h : GitHubHistory) : Prop :=
  ∃ k items batch batches, Served pr [value.diffText] ((k + 1, batch) :: batches) h ∧
    Paging.Collected filesPageSize k items batches ∧ batch.length < filesPageSize ∧
      value.changedFiles = items ++ batch

/-- The operation has the value from the cache, or has put it there. -/
def Uses (key : DiffKey) (value : DiffAndFiles) (o : Occurrence (Guarded GitHubSignature)) : Prop :=
  o = ⟨.dep (.cachedDiff key), some value⟩ ∨ o = ⟨.dep (.storeDiff key value), ()⟩

/-- The operation has a value of the key. -/
def Used (key : DiffKey) (value : DiffAndFiles) (h : GitHubHistory) : Prop :=
  ∃ o ∈ h, Uses key value o

/-- The operation is to post the review. -/
def GitHubOperation.posts : GitHubOperation → Review → Prop
  | .postReviewComment review, review' => review' = review
  | _, _ => False

/-- What is stored was assembled from answers, and the review is posted as rendered for the changed
files of a value that the operation uses. -/
def fromDiff (operation : GitHubOperation) (h : GitHubHistory) : GuardOp GitHubSignature → Prop
  | .dep (.storeDiff key value) => Assembled key.pr value h
  | .dep (.http (.createReview pr body) _) => ∀ review, operation.posts review →
    review.pullRequest = pr ∧ ∃ value, reviewRequest review value.changedFiles = .ok body ∧
      Used ⟨pr, review.headSha⟩ value h
  | _ => True

/-- An operation that serves nothing of a pull request, stores no diff and posts no review. -/
def Unserving : GuardOp GitHubSignature → Prop
  | .dep (.http (.diff _) _) | .dep (.http (.files ..) _) | .dep (.http (.createReview ..) _)
  | .dep (.storeDiff ..) => False
  | _ => True

section

variable {pr : PullRequest} {diffs : List String} {pages : List (ℕ × List ChangedFile)}
  {h : GitHubHistory} {op : GuardOp GitHubSignature} {operation : GitHubOperation}
  {answer : (Guarded GitHubSignature).Answer op}

theorem served_nothing (pr : PullRequest) (answer : (Guarded GitHubSignature).Answer op)
    (hop : Unserving op) :
    servedDiff pr ⟨op, answer⟩ = none ∧ servedPage pr ⟨op, answer⟩ = none := by
  constructor
  · unfold servedDiff
    split
    · rename_i heq
      cases heq
      exact hop.elim
    · rfl
  · unfold servedPage
    split
    · rename_i heq
      cases heq
      exact hop.elim
    · rfl

theorem Served.cons (hh : Served pr diffs pages h)
    (hdiff : servedDiff pr ⟨op, answer⟩ = none) (hpage : servedPage pr ⟨op, answer⟩ = none) :
    Served pr diffs pages (⟨op, answer⟩ :: h) := by
  simpa [Served, hdiff, hpage] using hh

theorem unserving_of_bookkeeping (hop : ∀ o, op ≠ .dep o) : Unserving op := by
  cases op with
  | dep o => exact absurd rfl (hop o)
  | _ => trivial

theorem overBookkeeping_served : OverBookkeeping (Served pr diffs pages) := by
  intro h op answer hop hh
  obtain ⟨hdiff, hpage⟩ := served_nothing pr answer (unserving_of_bookkeeping hop)
  exact hh.cons hdiff hpage

theorem allowsBookkeeping_fromDiff : AllowsBookkeeping (fromDiff operation) := by
  intro h op hop
  cases op with
  | dep o => exact absurd rfl (hop o)
  | _ => trivial

theorem fromDiff_of_unserving (hop : Unserving op) : fromDiff operation h op := by
  unfold fromDiff
  split
  · exact hop.elim
  · exact hop.elim
  · trivial

end

section

variable {client : RealGitHubClient} {owner repo appId headers : String} {installationId : ℤ}
  {pr pr' : PullRequest} {α : Type} {diffs : List String}
  {pages : List (ℕ × List ChangedFile)} {operation : GitHubOperation} {key : DiffKey}

theorem served_of_issues {p : Session α} (hp : p.Issues Unserving) :
    Behaves (fromDiff operation) (Served pr diffs pages) p (fun _ => Served pr diffs pages)
      (Served pr diffs pages) := by
  refine Behaves.of_issues (fun h op hop _ => fromDiff_of_unserving hop) ?_ hp
  intro h op answer hop hh
  obtain ⟨hdiff, hpage⟩ := served_nothing pr answer hop
  exact hh.cons hdiff hpage

theorem served_reliably {func : Session α} (hfunc : func.Issues Unserving) :
    Behaves (fromDiff operation) (Served pr diffs pages) (client.callReliably func)
      (fun _ => Served pr diffs pages) (Served pr diffs pages) :=
  Behaves.reliably allowsBookkeeping_fromDiff overBookkeeping_served
    (fun _ => overBookkeeping_served) (served_of_issues hfunc)

theorem unserving_of_resolves {op : GuardOp GitHubSignature} (hop : ResolvesInstallation op) :
    Unserving op := by
  unfold Unserving
  split <;> simp_all [ResolvesInstallation]

theorem issues_http {B : GuardOp GitHubSignature → Prop} {request : GitHubRequest}
    {bearer : String} {f : Response request.Content → Session α}
    (hB : B (.dep (.http request bearer))) (hf : ∀ response, (f response).Issues B) :
    (http request bearer >>= f).Issues B :=
  Program.issues_bind ⟨hB, fun _ => Program.issues_done _⟩ hf

theorem attempt_issues {B : GuardOp GitHubSignature → Prop} {request : GitHubRequest}
    (hB : B (.dep (.http request headers))) :
    (RealGitHubClient.attempt request headers).Issues B :=
  issues_http hB fun _ => Program.issues_bind (Program.issues_done _) fun _ =>
    Program.issues_done _

theorem getToken_issues {B : GuardOp GitHubSignature → Prop}
    (hmint : ∀ op, ResolvesInstallation op → B op) (hcached : B (.dep (.cachedToken installationId)))
    (hexchange : ∀ appJwt, B (.dep (.http (.accessToken installationId) appJwt)))
    (hstore : ∀ token, B (.dep (.storeToken installationId token))) :
    (getToken appId installationId).Issues B := by
  refine Program.issues_bind ⟨hcached, fun _ => Program.issues_done _⟩ fun entry => ?_
  split
  · trivial
  · apply Program.issues_bind (mint_issues.mono hmint)
    intro appJwt
    apply Program.issues_bind
    · exact issues_http (hexchange appJwt) fun _ =>
        Program.issues_bind (Program.issues_done _) fun _ => Program.issues_done _
    · exact fun token => ⟨hstore token, fun _ => trivial⟩

theorem served_installationHeaders : Behaves (fromDiff operation) (Served pr diffs pages)
    (client.installationHeaders owner repo) (fun _ => Served pr diffs pages)
    (Served pr diffs pages) := by
  apply Behaves.dep (R := fun _ => Served pr diffs pages)
  · exact fun h _ => trivial
  · exact fun h now hh => hh.cons rfl rfl
  · intro now
    apply (served_of_issues (mint_issues.mono fun _ => unserving_of_resolves)).bind
    intro appJwt
    apply (served_reliably (authorize_issues.mono fun _ => unserving_of_resolves)).bind
    intro installationId
    exact served_reliably (getToken_issues (fun _ => unserving_of_resolves) trivial
      (fun _ => trivial) fun _ => trivial)

/-- A `do` closure: an answer that the code accepts says `A`, everything else leaves `E`. -/
theorem behaves_attempt {C : GitHubHistory → GuardOp GitHubSignature → Prop}
    {P E : GitHubHistory → Prop} {request : GitHubRequest}
    {A : Response request.Content → GitHubHistory → Prop}
    (hC : ∀ h, P h → C h (.dep (.http request headers)))
    (hlost : ∀ h e, P h → E (⟨.dep (.http request headers), .error e⟩ :: h))
    (hrefused : ∀ h response, ¬ response.statusCode < 300 → P h →
      E (⟨.dep (.http request headers), .ok response⟩ :: h))
    (haccepted : ∀ h response, response.statusCode < 300 → P h →
      A response (⟨.dep (.http request headers), .ok response⟩ :: h)) :
    Behaves C P (RealGitHubClient.attempt request headers) A E := by
  apply behaves_http (R := fun response h =>
    if response.statusCode < 300 then A response h else E h) hC hlost
  · intro h response hP
    split
    · exact haccepted h response ‹_› hP
    · exact hrefused h response ‹_› hP
  · intro response
    by_cases hstatus : response.statusCode < 300
    · rw [GitHubRequest.statusError_ok.mpr hstatus]
      exact Behaves.pure fun h hP => by rwa [if_pos hstatus] at hP
    · cases herror : request.statusError response.toReply with
      | ok u => exact absurd (GitHubRequest.statusError_ok.mp herror) hstatus
      | error e => exact Behaves.throw fun h hP => by rwa [if_neg hstatus] at hP

theorem served_diff : Behaves (fromDiff operation) (Served pr [] [])
    (client.callReliably (RealGitHubClient.attempt (.diff pr) headers))
    (fun response => Served pr [response.text] []) (Served pr [] []) := by
  apply Behaves.reliably allowsBookkeeping_fromDiff overBookkeeping_served
    fun _ => overBookkeeping_served
  apply behaves_attempt
  · exact fun h _ => trivial
  · exact fun h e hh => hh.cons rfl rfl
  · intro h response hstatus hh
    apply hh.cons _ rfl
    simp [servedDiff, hstatus]
  · intro h response hstatus hh
    have hdiff : servedDiff pr ⟨.dep (.http (.diff pr) headers), .ok response⟩ =
        some response.text := by
      simp [servedDiff, hstatus]
    have hpage : servedPage pr ⟨.dep (.http (.diff pr) headers), .ok response⟩ = none := rfl
    simpa [Served, hdiff, hpage] using hh

/-- A page that can be read has been served. -/
theorem served_files {page : ℕ} : Behaves (fromDiff operation) (Served pr diffs pages)
    (client.callReliably (RealGitHubClient.attempt (.files pr filesPageSize page) headers))
    (fun response h => ∀ batch, response.json = .ok batch →
      Served pr diffs ((page, batch) :: pages) h) (Served pr diffs pages) := by
  have hserved : ∀ response : Response (List ChangedFile), OverBookkeeping
      (fun h : GitHubHistory => ∀ batch, response.json = .ok batch →
        Served pr diffs ((page, batch) :: pages) h) :=
    fun response h op answer hop hh batch hjson =>
      overBookkeeping_served h op answer hop (hh batch hjson)
  apply Behaves.reliably allowsBookkeeping_fromDiff overBookkeeping_served hserved
  apply behaves_attempt
  · exact fun h _ => trivial
  · exact fun h e hh => hh.cons rfl rfl
  · intro h response hstatus hh
    apply hh.cons rfl
    cases hjson : response.json <;> simp [servedPage, hjson, hstatus]
  · intro h response hstatus hh batch hjson
    have hpage : servedPage pr ⟨.dep (.http (.files pr filesPageSize page) headers),
        .ok response⟩ = some (page, batch) := by
      simp [servedPage, hjson, hstatus]
    have hdiff : servedDiff pr ⟨.dep (.http (.files pr filesPageSize page) headers),
        .ok response⟩ = none := rfl
    simpa [Served, hdiff, hpage] using hh

/-- The loop, after `k` full pages. -/
theorem assembled_changedFilesFrom {text : String} (remaining k : ℕ) (items : List ChangedFile) :
    Behaves (fromDiff operation)
      (fun h => ∃ batches, Served pr [text] batches h ∧
        Paging.Collected filesPageSize k items batches)
      (client.changedFilesFrom pr headers remaining (k + 1) items)
      (fun changedFiles => Assembled pr ⟨text, changedFiles⟩) fun _ => True := by
  induction remaining generalizing k items with
  | zero => exact fun h _ => ⟨trivial, fun answer => answer.elim⟩
  | succ remaining ih =>
    rintro h ⟨batches, hserved, hcollected⟩
    refine (served_files h hserved).bind (fun response h hresponse => ?_) fun e h he => trivial
    cases hjson : response.json with
    | error e => exact trivial
    | ok batch =>
      have hbatch := hresponse batch hjson
      show Program.Follows _ _ h (ite _ _ _)
      split
      · rename_i hempty
        obtain rfl := List.isEmpty_iff.mp hempty
        exact ⟨k, items, [], batches, hbatch, hcollected, by simp [filesPageSize], by simp⟩
      · split
        · rename_i hlt
          exact ⟨k, items, batch, batches, hbatch, hcollected, hlt, rfl⟩
        · rename_i hfull
          exact ih (k + 1) _ h ⟨_, hbatch, hcollected.full (not_lt.mp hfull)⟩

theorem lasting_used {value : DiffAndFiles} : Lasting (Used key value) :=
  fun _ _ hs ⟨o, hmem, huses⟩ => ⟨o, hs hmem, huses⟩

theorem used_getDiffAndFiles {headSha : String} : Behaves (fromDiff operation) (Served pr [] [])
    (client.getDiffAndFiles pr headSha) (fun value => Used ⟨pr, headSha⟩ value) fun _ => True := by
  apply Behaves.dep (R := fun cached h => Served pr [] [] h ∧
    (⟨.dep (.cachedDiff ⟨pr, headSha⟩), cached⟩ : Occurrence (Guarded GitHubSignature)) ∈ h)
  · exact fun h _ => trivial
  · exact fun h cached hh => ⟨hh.cons rfl rfl, List.mem_cons_self⟩
  · rintro (_ | value)
    · intro h hh
      refine (served_installationHeaders h hh.1).bind (fun headers h hh => ?_) fun e h he => trivial
      refine (served_diff h hh).bind (fun response h hh => ?_) fun e h he => trivial
      have hfiles : Behaves (fromDiff operation) (Served pr [response.text] [])
          (client.getChangedFiles pr headers)
          (fun changedFiles => Assembled pr ⟨response.text, changedFiles⟩) fun _ => True := by
        apply Behaves.dep (R := fun _ => Served pr [response.text] [])
        · exact fun h _ => trivial
        · exact fun h rounds hh => hh.cons rfl rfl
        · intro rounds h hh
          exact assembled_changedFilesFrom rounds 0 [] h ⟨[], hh, .start⟩
      refine (hfiles h hh).bind (fun changedFiles h hassembled => ?_) fun e h he => trivial
      exact ⟨hassembled, fun _ => ⟨_, List.mem_cons_self, Or.inr rfl⟩⟩
    · exact Behaves.pure fun h hh => ⟨_, hh.2, Or.inl rfl⟩

/-- The text that a fetch returns is of a value of its key. -/
theorem used_fetchDiff {headSha : String} : Behaves (fromDiff operation) (Served pr [] [])
    (client.fetchDiff pr headSha)
    (fun text h => ∃ value, Used ⟨pr, headSha⟩ value h ∧ text = value.diffText)
    fun _ => True := by
  intro h hh
  exact (used_getDiffAndFiles h hh).bind (fun value h hused => ⟨value, hused, rfl⟩)
    fun e h he => trivial

theorem used_postReviewComment {review : Review} :
    Behaves (fromDiff (.postReviewComment review)) (Served review.pullRequest [] [])
      (client.postReviewComment review) (fun _ _ => True) fun _ => True := by
  intro h hh
  refine (served_installationHeaders h hh).bind (fun headers h hh => ?_) fun e h he => trivial
  have hfind : Behaves (fromDiff (.postReviewComment review)) (Served review.pullRequest [] [])
      (client.findExistingReviewIdMarker review.pullRequest headers review.reviewId)
      (fun _ => Served review.pullRequest [] []) (Served review.pullRequest [] []) := by
    have hissues : (RealGitHubClient.attempt (.reviews review.pullRequest filesPageSize)
        headers).Issues Unserving := attempt_issues trivial
    apply (served_reliably hissues).bind
    intro response
    exact (served_of_issues (Program.issues_done _)).bind fun existing =>
      served_of_issues (Program.issues_done _)
  refine (hfind h hh).bind (fun alreadyPosted h hh => ?_) fun e h he => trivial
  show Program.Follows _ _ h (ite _ _ _)
  split
  · trivial
  · refine (used_getDiffAndFiles h hh).bind (fun value h hused => ?_) fun e h he => trivial
    cases hbody : reviewRequest review value.changedFiles with
    | error e => exact trivial
    | ok body =>
      have hcreate : Behaves (fromDiff (.postReviewComment review))
          (Used ⟨review.pullRequest, review.headSha⟩ value)
          (client.callReliably (RealGitHubClient.attempt (.createReview review.pullRequest body)
            headers)) (fun _ _ => True) fun _ => True := by
        apply Behaves.mono (Behaves.reliably allowsBookkeeping_fromDiff
          lasting_used.overBookkeeping (fun _ => lasting_true.overBookkeeping)
          (A := fun _ _ => True) _) (fun _ h => h) (fun _ _ h => h) fun _ _ => trivial
        have hlasting : Lasting (Used ⟨review.pullRequest, review.headSha⟩ value) := lasting_used
        apply behaves_attempt
        · rintro h hused review' rfl
          exact ⟨rfl, value, hbody, hused⟩
        · exact fun h e hused => hlasting _ _ (List.subset_cons_self _ _) hused
        · exact fun h response _ hused => hlasting _ _ (List.subset_cons_self _ _) hused
        · exact fun h response _ _ => trivial
      refine (hcreate h hused).bind (fun response h hh => ?_) fun e h he => trivial
      cases response.json <;> exact trivial

theorem served_getPrMetadata (pr : PullRequest) : Behaves (fromDiff operation) (Served pr [] [])
    (client.getPrMetadata pr') (fun _ _ => True) fun _ => True := by
  intro h hh
  refine (served_installationHeaders h hh).bind (fun headers h hh => ?_) fun e h he => trivial
  have hissues : (RealGitHubClient.attempt (.pull pr') headers).Issues Unserving :=
    attempt_issues trivial
  refine (served_reliably hissues h hh).bind (fun response h hh => ?_) fun e h he => trivial
  cases response.json <;> exact trivial

end

end ReviewAgent
