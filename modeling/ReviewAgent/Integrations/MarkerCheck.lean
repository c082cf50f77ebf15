import ReviewAgent.Integrations.GitHubRules

/-! Which reviews the idempotency check sees, and what follows for a second post. -/
namespace ReviewAgent

open Effects

/-- The requests that post a review. -/
def GitHubRequest.isPost : GitHubRequest → Bool
  | .createReview .. => true
  | _ => false

def posts (log : List Sent) : List Sent := log.filter fun sent => sent.request.isPost

/-- Some review carries the marker. -/
def marked (reviewId : String) (reviews : List ExistingReview) : Bool :=
  reviews.any (ExistingReview.carries reviewId)

/-- The pull request's reviews are `rs`, and the posts so far are `ps`. -/
def Holding (pr : PullRequest) (rs : List ExistingReview) (ps : List Sent) (s : Ledger) : Prop :=
  s.reviews pr = rs ∧ posts s.log = ps

/-- Alone on the ledger; where the marker is on the first page, nothing is posted. -/
def onePage (reviewId : String) (rs : List ExistingReview) : Contract Ledger where
  rely s s' := s' = s
  guarantee s s' := marked reviewId (rs.take filesPageSize) = true → posts s'.log = posts s.log

section

variable {client : RealGitHubClient} {inst : ℕ → ℕ} {i : ℕ} {pr : PullRequest}
  {reviewId headers : String} {rs : List ExistingReview} {ps : List Sent}

theorem onePage_stable {reviewId : String} {rs : List ExistingReview} (P : Ledger → Prop) :
    Stable (onePage reviewId rs).rely P := by
  rintro s s' rfl h
  exact h

theorem posts_send_of_neutral {s : Ledger} {sent : Sent} (h : sent.request.isPost = false) :
    posts (s.send sent).log = posts s.log := by
  simp [posts, Ledger.send, h]

theorem holding_send {s : Ledger} {sent : Sent} (h : Holding pr rs ps s)
    (hr : sent.request.isPost = false) : Holding pr rs ps (s.send sent) := by
  refine ⟨?_, (posts_send_of_neutral hr).trans h.2⟩
  rw [Ledger.send_reviews]
  · exact h.1
  · rintro pr' body hreq
    simp [hreq, GitHubRequest.isPost] at hr

theorem GitHubRequest.isPost_of_neutral {request : GitHubRequest} (h : request.neutral = true) :
    request.isPost = false := by
  cases request <;> simp_all [neutral, isPost]

theorem holding_tolerates (C : Prop) : Tolerates (onePage reviewId rs) i
    fun s => Holding pr rs ps s ∧ C where
  stable := onePage_stable _
  send s sent _ hneutral hs := by
    have hpost := GitHubRequest.isPost_of_neutral hneutral
    exact ⟨fun _ => posts_send_of_neutral hpost, holding_send hs.1 hpost, hs.2⟩

/-- The check answers whether the first page carries the marker. -/
theorem find_triple : Triple (gitHubMachine inst) i (onLedger (onePage reviewId rs))
    (Says (Holding pr rs ps)) (client.findExistingReviewIdMarker pr headers reviewId) fun r =>
      match r with
      | .ok b => Says fun s => Holding pr rs ps s ∧ b = marked reviewId (rs.take filesPageSize)
      | .error _ => Says (Holding pr rs ps) := by
  have hN := (gitHubMachine inst).within_self
  have hfetch : Triple (gitHubMachine inst) i (onLedger (onePage reviewId rs))
      (Says (Holding pr rs ps))
      (client.callReliably (RealGitHubClient.attempt (.reviews pr filesPageSize) headers))
      fun r => Says (Either (fun response s => Holding pr rs ps s ∧
        response.json = .ok (rs.take filesPageSize)) (Holding pr rs ps) r) := by
    apply says_reliably hN (onePage_stable _) (fun _ => onePage_stable _)
    apply says_attempt hN (onePage_stable _) (fun _ => onePage_stable _)
    intro w c w' sending hw hp _
    refine ⟨fun _ => posts_send_of_neutral rfl, ?_⟩
    obtain ⟨c', d, -, hd, -⟩ := perform_dep hp
    cases sending with
    | lost applied e => exact holding_send hw rfl
    | answered response =>
      have hjson : response.json = .ok ((w.dep.reviews pr).take filesPageSize) :=
        perform_reviews hd
      simp only [Accepts, Sending.outcome]
      split
      · exact ⟨holding_send hw rfl, by rw [hjson, ← hw.1]; rfl⟩
      · exact holding_send hw rfl
  apply hfetch.bind _ fun _ _ hw => hw
  intro response w hw
  have hjson : response.json = .ok (rs.take filesPageSize) := hw.2
  rw [hjson]
  exact Triple.done (says_stable (onePage_stable (Holding pr rs ps))) (fun _ hw => ⟨hw, rfl⟩)
    w hw.1

/-- At least `n` posts so far. -/
def Posted (n : ℕ) (s : Ledger) : Prop := n ≤ (posts s.log).length

theorem Posted.send {n : ℕ} {s : Ledger} {sent : Sent} (h : Posted n s) :
    Posted n (s.send sent) := by
  simp only [Posted, posts, Ledger.send, List.filter_cons] at h ⊢
  split
  · exact h.trans (Nat.le_succ _)
  · exact h

theorem posted_send {n : ℕ} {s : Ledger} {sent : Sent} (h : Posted n s)
    (hr : sent.request.isPost = true) : Posted (n + 1) (s.send sent) := by
  simpa [Posted, posts, Ledger.send, hr] using h

/-- The request that posts the review, once the first page has not shown its marker. -/
theorem createReview_triple {body : CreateReviewRequest} {n : ℕ}
    (hpage : marked reviewId (rs.take filesPageSize) = false) :
    Triple (gitHubMachine inst) i (onLedger (onePage reviewId rs)) (Says (Posted n))
      (client.callReliably (RealGitHubClient.attempt (.createReview pr body) headers)) fun r =>
        Says (Either (fun _ => Posted (n + 1)) (Posted n) r) := by
  have hN := (gitHubMachine inst).within_self
  apply says_reliably hN (onePage_stable _) (fun _ => onePage_stable _)
  apply says_attempt hN (onePage_stable _) (fun _ => onePage_stable _)
  intro w c w' sending hw _ _
  refine ⟨fun h => by simp [hpage] at h, ?_⟩
  cases sending with
  | lost applied e => exact Posted.send hw
  | answered response =>
    simp only [Accepts, Sending.outcome]
    split
    · exact posted_send hw rfl
    · exact Posted.send hw

/-- Posting a review posts nothing when the first page carries its marker, and ends normally
without a post only then. -/
theorem post_triple {review : Review} : Triple (gitHubMachine inst) i
    (onLedger (onePage review.reviewId rs)) (Says (Holding review.pullRequest rs ps))
    (client.postReviewComment review) fun r => Says fun s => (∃ u, r = .ok u) →
      marked review.reviewId (rs.take filesPageSize) = true ∨ Posted (ps.length + 1) s := by
  have hN := (gitHubMachine inst).within_self
  have htol : Tolerates (onePage review.reviewId rs) i (Holding review.pullRequest rs ps) := by
    simpa using holding_tolerates (i := i) True
  have hheaders : Keeps (gitHubMachine inst) (onePage review.reviewId rs) i
      (Holding review.pullRequest rs ps)
      (client.installationHeaders review.pullRequest.owner review.pullRequest.repo) :=
    keeps_installationHeaders hN htol
  apply Triple.bind hheaders _ (by simp [Says])
  intro headers
  apply find_triple.bind _ (by simp [Says])
  rintro (_ | _)
  · have htol' : Tolerates (onePage review.reviewId rs) i fun s =>
        Holding review.pullRequest rs ps s ∧
          false = marked review.reviewId (rs.take filesPageSize) := holding_tolerates _
    apply Triple.bind (keeps_getDiffAndFiles hN htol') _ (by simp [Says])
    intro value
    apply Triple.bind (keeps_done htol'.stable _) _ (by simp [Says])
    rintro requestBody w ⟨hholding, hpage⟩
    have hposted : Posted ps.length w.dep.ledger := by simp [Posted, hholding.2]
    refine Triple.bind (createReview_triple hpage.symm) ?_ (by simp [Says]) w hposted
    intro response
    have hstable : Stable (onLedger (onePage review.reviewId rs)).rely
        (Says (Posted (ps.length + 1))) := says_stable (onePage_stable _)
    apply Triple.bind (R := fun _ => Says (Posted (ps.length + 1))) (Triple.done hstable _)
    · exact fun _ => Triple.done hstable fun _ hw _ => Or.inr hw
    · simp [Says]
    · exact fun _ hw => hw
  · exact Triple.pure (says_stable (onePage_stable _)) fun w hw _ => Or.inl hw.2.symm

theorem alone_moves {reviewId : String} (w : GuardWorld GitHubWorld) (m : GuardMove GitHubMove)
    (w' : GuardWorld GitHubWorld) (h : (gitHubMachine inst).move w m = some w') :
    (onLedger (onePage reviewId rs)).rely w w' :=
  gitHub_move_rely (gitHubMachine inst).within_self h

/-- Nothing is posted while the first page carries the marker. -/
theorem posts_eq_of_marked {review : Review} {w w' : GuardWorld GitHubWorld}
    {es : List SessionEvent} {p : Session Unit}
    (hrun : (gitHubMachine inst).run i w (client.postReviewComment review) es = some (w', p))
    (hpage : marked review.reviewId ((w.dep.reviews review.pullRequest).take filesPageSize) =
      true) : posts w'.dep.log = posts w.dep.log := by
  have hholding : Says (Holding review.pullRequest (w.dep.reviews review.pullRequest)
      (posts w.dep.log)) w := ⟨rfl, rfl⟩
  refine Triple.run_invariant (I := Says fun s => posts s.log = posts w.dep.log) alone_moves
    post_triple hholding hrun (says_stable (onePage_stable _)) ?_ rfl
  rintro v v' (hd | hl | hg) hv
  · simpa only [Says, hd] using hv
  · simpa only [Says, hl] using hv
  · exact (hg hpage).trans hv

/-- A post that ends normally without a request has found the marker on the first page. -/
theorem marked_of_posts_eq {review : Review} {w w' : GuardWorld GitHubWorld}
    {es : List SessionEvent}
    (hrun : (gitHubMachine inst).run i w (client.postReviewComment review) es =
      some (w', .done (.ok ()))) (hsame : posts w'.dep.log = posts w.dep.log) :
    marked review.reviewId ((w.dep.reviews review.pullRequest).take filesPageSize) = true := by
  have hholding : Says (Holding review.pullRequest (w.dep.reviews review.pullRequest)
      (posts w.dep.log)) w := ⟨rfl, rfl⟩
  rcases post_triple.run_done alone_moves hholding hrun ⟨(), rfl⟩ with hpage | hposted
  · exact hpage
  · have hle : (posts w.dep.log).length + 1 ≤ (posts w'.dep.log).length := hposted
    rw [hsame] at hle
    omega

/-- The check sees the marker exactly when no review carries it or one on the first page does; and
a second post posts nothing exactly when one on the first page does. -/
theorem marker_check_first_page {review : Review} {w w₁ w₂ : GuardWorld GitHubWorld}
    {es₁ es₂ : List SessionEvent} {b : Bool} {p : Session Unit}
    (hfind : (gitHubMachine inst).run i w
      (client.findExistingReviewIdMarker review.pullRequest headers review.reviewId) es₁ =
        some (w₁, .done (.ok b)))
    (hpost : (gitHubMachine inst).run i w (client.postReviewComment review) es₂ = some (w₂, p)) :
    let reviews := w.dep.reviews review.pullRequest
    ((b = true ↔ marked review.reviewId reviews = true) ↔
      (marked review.reviewId reviews = false ∨
        marked review.reviewId (reviews.take filesPageSize) = true)) ∧
      (marked review.reviewId (reviews.take filesPageSize) = true →
        posts w₂.dep.log = posts w.dep.log) ∧
      (p = .done (.ok ()) → posts w₂.dep.log = posts w.dep.log →
        marked review.reviewId (reviews.take filesPageSize) = true) := by
  intro reviews
  have hholding : Says (Holding review.pullRequest reviews (posts w.dep.log)) w := ⟨rfl, rfl⟩
  refine ⟨?_, posts_eq_of_marked hpost, fun hp hsame => marked_of_posts_eq (hp ▸ hpost) hsame⟩
  obtain ⟨-, hb⟩ := find_triple.run_done alone_moves hholding hfind
  have htake : marked review.reviewId (reviews.take filesPageSize) = true →
      marked review.reviewId reviews = true := by
    simp only [marked, List.any_eq_true]
    rintro ⟨r, hr, hcarries⟩
    exact ⟨r, List.mem_of_mem_take hr, hcarries⟩
  rw [hb]
  cases hall : marked review.reviewId reviews <;>
    cases hpage : marked review.reviewId (reviews.take filesPageSize) <;> simp_all

end

def Review.sample : Review where
  reviewId := "webhook-1"
  prNumber := 7
  repositoryOwner := "octo"
  repositoryName := "app"
  headSha := "0123456789abcdef0123456789abcdef01234567"
  findings := []
  overallConfidence := .ofThousandths 0 Confidence.zeroThousandths_le
  status := .posted
  createdAt := 0
  reviewId_length := firstId_length
  prNumber_pos := pullSeven_pos
  repositoryOwner_length := octo_length
  repositoryName_length := app_length
  headSha_length := firstSha_length
  overallConfidence_matches := noFindings_confidence

/-- A warm client that has fetched the diff, and a pull request with the given reviews. -/
def reviewedWorld (reviews : List ExistingReview) : GuardWorld GitHubWorld :=
  { warmWorld with
    dep :=
      { warmWorld.dep with
        clients := fun _ => { warmWorld.dep.clients 0 with diffs := fun _ => some ⟨"", []⟩ }
        reviews := fun _ => reviews } }

/-- A hundred reviews, and one more that carries the marker of the sample review. -/
def longPullRequest : List ExistingReview :=
  List.replicate 100 ⟨"LGTM"⟩ ++ [⟨idempotencyMarker Review.sample.reviewId⟩]

/-- The schedule of a post that goes through: headers, check, cached diff, request. -/
def postGoesThrough : List SessionEvent :=
  mintsJwt ++ lookupHits ++ lookupHits ++ requestAnswered ++ [.act (.dep .go)] ++ requestAnswered

/-- The check for the sample review's marker, on its pull request. -/
def sampleCheck : Session Bool :=
  (RealGitHubClient.default "1").findExistingReviewIdMarker Review.sample.pullRequest "token"
    Review.sample.reviewId

def samplePost : Session Unit := (RealGitHubClient.default "1").postReviewComment Review.sample

/-- On a pull request with a hundred other reviews before it, a posted review is not found again,
and posting it a second time posts it. -/
theorem marker_beyond_first_page :
    marked Review.sample.reviewId longPullRequest = true ∧
      (∃ w, (gitHubMachine id).run 0 (reviewedWorld longPullRequest) sampleCheck
        requestAnswered = some (w, .done (.ok false))) ∧
      ∃ w, (gitHubMachine id).run 0 (reviewedWorld longPullRequest) samplePost
        postGoesThrough = some (w, .done (.ok ())) ∧ (posts w.dep.log).length = 1 := by
  have hcheck : (gitHubMachine id).returns 0 (reviewedWorld longPullRequest) sampleCheck
      requestAnswered (fun b _ => !b) = true := by
    decide +kernel
  have hpost : (gitHubMachine id).returns 0 (reviewedWorld longPullRequest) samplePost
      postGoesThrough (fun _ w => decide ((posts w.dep.log).length = 1)) = true := by
    decide +kernel
  obtain ⟨w₁, b, hrun₁, hb⟩ := Machine.exists_of_returns hcheck
  obtain ⟨w₂, u, hrun₂, hposts⟩ := Machine.exists_of_returns hpost
  obtain rfl : b = false := by simpa using hb
  exact ⟨by decide +kernel, ⟨w₁, hrun₁⟩, w₂, hrun₂, of_decide_eq_true hposts⟩

/-- A pull request that holds the sample review and one more. -/
def shortPullRequest : List ExistingReview :=
  [⟨"LGTM"⟩, ⟨idempotencyMarker Review.sample.reviewId⟩]

theorem marker_check_shortPullRequest :
    ∃ w₁ w₂,
      (gitHubMachine id).run 0 (reviewedWorld shortPullRequest) sampleCheck requestAnswered =
        some (w₁, .done (.ok true)) ∧
      (gitHubMachine id).run 0 (reviewedWorld shortPullRequest) samplePost
        (mintsJwt ++ lookupHits ++ lookupHits ++ requestAnswered) = some (w₂, .done (.ok ())) ∧
      posts w₂.dep.log = [] := by
  have hcheck : (gitHubMachine id).returns 0 (reviewedWorld shortPullRequest) sampleCheck
      requestAnswered (fun b _ => b) = true := by
    decide +kernel
  have hpost : (gitHubMachine id).returns 0 (reviewedWorld shortPullRequest) samplePost
      (mintsJwt ++ lookupHits ++ lookupHits ++ requestAnswered) (fun _ _ => true) = true := by
    decide +kernel
  obtain ⟨w₁, b, hrun₁, rfl⟩ := Machine.exists_of_returns hcheck
  obtain ⟨w₂, u, hrun₂, -⟩ := Machine.exists_of_returns hpost
  have hresult := marker_check_first_page hrun₁ hrun₂
  exact ⟨w₁, w₂, hrun₁, hrun₂, hresult.2.1 (by decide +kernel)⟩

end ReviewAgent
