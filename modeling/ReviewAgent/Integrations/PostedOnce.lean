import ReviewAgent.Integrations.MarkerCheck

/-! Concurrent executions of `post_review_comment` for one review, when a request may be carried
out although its answer is lost: how often the review ends up on the pull request. -/
namespace ReviewAgent

open Effects

/-- Thread `i`'s answered look at the reviews of the pull request. -/
def Sent.checks (i : ℕ) (pr : PullRequest) (sent : Sent) : Bool :=
  sent.thread == i && sent.succeeds &&
    match sent.request with
    | .reviews pr' _ => decide (pr' = pr)
    | _ => false

/-- A review for the pull request. -/
def GitHubRequest.postsOn (pr : PullRequest) : GitHubRequest → Bool
  | .createReview pr' _ => decide (pr' = pr)
  | _ => false

/-- A request that put a review on the pull request. -/
def Sent.adds (pr : PullRequest) (sent : Sent) : Bool :=
  sent.sending.takesEffect && sent.request.postsOn pr

/-- A review has been put on the pull request since thread `i` last looked. -/
def postedSinceCheck (i : ℕ) (pr : PullRequest) (log : List Sent) : Bool :=
  (log.takeWhile fun sent => !sent.checks i pr).any (Sent.adds pr)

/-- No execution puts its review on the pull request after another request, of its own or of
another execution, has put one there since its marker check. -/
def checkStillHolds (pr : PullRequest) : Condition (Guarded GitHubSignature)
    (GuardWorld GitHubWorld) (GuardChoice GitHubChoice) (GuardMove GitHubMove) where
  act i w op c :=
    match op, c with
    | .dep (.http request _), .dep choice =>
      (request.postsOn pr && choice.applies request) = true →
        postedSinceCheck i pr w.dep.log = false
    | _, _ => True
  move _ _ := True

/-- Whenever the reviews are asked for, there are fewer of them than a page holds. -/
def fewReviews (pr : PullRequest) : Condition (Guarded GitHubSignature)
    (GuardWorld GitHubWorld) (GuardChoice GitHubChoice) (GuardMove GitHubMove) where
  act _ w op _ :=
    match op with
    | .dep (.http (.reviews pr' _) _) => pr' = pr → (w.dep.reviews pr).length < filesPageSize
    | _ => True
  move _ _ := True

instance (pr) : ∀ i w op c, Decidable ((checkStillHolds pr).act i w op c)
  | _, _, .dep (.http ..), .dep _ => inferInstanceAs (Decidable (_ = true → _ = false))
  | _, _, .dep (.http ..), .go | _, _, .dep (.http ..), .rand _
  | _, _, .dep .now, _ | _, _, .dep (.sign _), _ | _, _, .dep (.resolved ..), _
  | _, _, .dep (.storeResolved ..), _ | _, _, .dep (.cachedToken _), _
  | _, _, .dep (.storeToken ..), _ | _, _, .dep (.cachedDiff _), _ | _, _, .dep (.storeDiff ..), _
  | _, _, .dep .rounds, _ | _, _, .dep .loops, _ | _, _, .admission, _ | _, _, .recordFailure, _
  | _, _, .recordSuccess, _ | _, _, .sleep _, _ | _, _, .rand, _ => isTrue trivial

instance (pr w m) : Decidable ((checkStillHolds pr).move w m) := isTrue trivial

instance (pr) : ∀ i w op c, Decidable ((fewReviews pr).act i w op c)
  | _, _, .dep (.http (.reviews ..) _), _ => inferInstanceAs (Decidable (_ = _ → _ < _))
  | _, _, .dep (.http (.installation ..) _), _ | _, _, .dep (.http (.accessToken ..) _), _
  | _, _, .dep (.http (.pull ..) _), _ | _, _, .dep (.http (.diff ..) _), _
  | _, _, .dep (.http (.files ..) _), _ | _, _, .dep (.http (.createReview ..) _), _
  | _, _, .dep .now, _ | _, _, .dep (.sign _), _ | _, _, .dep (.resolved ..), _
  | _, _, .dep (.storeResolved ..), _ | _, _, .dep (.cachedToken _), _
  | _, _, .dep (.storeToken ..), _ | _, _, .dep (.cachedDiff _), _ | _, _, .dep (.storeDiff ..), _
  | _, _, .dep .rounds, _ | _, _, .dep .loops, _ | _, _, .admission, _ | _, _, .recordFailure, _
  | _, _, .recordSuccess, _ | _, _, .sleep _, _ | _, _, .rand, _ => isTrue trivial

instance (pr w m) : Decidable ((fewReviews pr).move w m) := isTrue trivial

/-- A step of an interleaving of executions, each by a client of its own settings. -/
abbrev PostingStep : Type :=
  Machine.Sched (GuardChoice GitHubChoice) (GuardMove GitHubMove) RealGitHubClient

/-- How many reviews on the pull request carry the marker. -/
def markers (review : Review) (s : Ledger) : ℕ :=
  (s.reviews review.pullRequest).countP (ExistingReview.carries review.reviewId)

/-- What thread `i` saw at its marker check still holds unless a review has been posted since. -/
def CheckGood (review : Review) (i : ℕ) (s : Ledger) : Prop :=
  postedSinceCheck i review.pullRequest s.log = false → markers review s = 0

/-- Every review that a request posts on the pull request carries the marker. -/
def Signed (review : Review) (sent : Sent) : Prop :=
  ∀ pr body, sent.request = .createReview pr body →
    pr = review.pullRequest ∧ (ExistingReview.mk body.body).carries review.reviewId = true

/-- An execution spoils nobody's check without a post, and adds no second marker. -/
def execution (review : Review) (i : ℕ) : Contract Ledger where
  rely s s' := (markers review s ≤ 1 → markers review s' ≤ 1) ∧
    (CheckGood review i s → CheckGood review i s')
  guarantee s s' := (markers review s ≤ 1 → markers review s' ≤ 1) ∧
    ∀ k, k ≠ i → CheckGood review k s → CheckGood review k s'

/-- An execution only adds to the ledger, and only signed reviews. -/
def signing (review : Review) : Contract Ledger where
  rely _ _ := True
  guarantee s s' := ∃ sent, s' = s.send sent ∧ Signed review sent

section

variable {review : Review} {i k : ℕ} {s : Ledger} {sent : Sent}

theorem postedSinceCheck_cons {pr : PullRequest} {log : List Sent}
    (h : sent.checks i pr = false) :
    postedSinceCheck i pr (sent :: log) = (sent.adds pr || postedSinceCheck i pr log) := by
  simp [postedSinceCheck, h]

theorem not_checks_of_thread {pr : PullRequest} (h : sent.thread ≠ i) :
    sent.checks i pr = false := by
  simp [Sent.checks, h]

theorem not_checks_of_isPost {pr : PullRequest} (h : sent.request.isPost = true) :
    sent.checks i pr = false := by
  cases hreq : sent.request <;> simp_all [Sent.checks, GitHubRequest.isPost]

theorem not_adds_of_not_post {pr : PullRequest} (h : sent.request.isPost = false) :
    sent.adds pr = false := by
  cases hreq : sent.request <;> simp_all [Sent.adds, GitHubRequest.postsOn, GitHubRequest.isPost]

theorem signed_of_not_post (h : sent.request.isPost = false) : Signed review sent := by
  intro pr body hreq
  simp [hreq, GitHubRequest.isPost] at h

/-- A signed request adds one marker when it puts a review there, and none otherwise. -/
theorem markers_send (h : Signed review sent) : markers review (s.send sent) =
    markers review s + if sent.adds review.pullRequest = true then 1 else 0 := by
  cases hreq : sent.request with
  | createReview pr body =>
    obtain ⟨rfl, hcarries⟩ := h pr body hreq
    cases heffect : sent.sending.takesEffect <;>
      simp [markers, Ledger.send, Sent.adds, heffect, hreq, GitHubRequest.postsOn,
        GitHubRequest.effect, hcarries]
  | _ =>
    have hsame : (s.send sent).reviews = s.reviews :=
      Ledger.send_reviews fun pr body hpost => by simp [hreq] at hpost
    simp [markers, hsame, @not_adds_of_not_post sent, hreq, GitHubRequest.isPost]

/-- A request that is not a look of thread `k` leaves `k`'s check as good as it was. -/
theorem CheckGood.send (h : CheckGood review k s) (hsigned : Signed review sent)
    (hcheck : sent.checks k review.pullRequest = false) : CheckGood review k (s.send sent) := by
  intro hsince
  rw [show (s.send sent).log = sent :: s.log from rfl, postedSinceCheck_cons hcheck,
    Bool.or_eq_false_iff] at hsince
  rw [markers_send hsigned, h hsince.2, hsince.1]
  rfl

theorem markers_send_of_not_post (h : sent.request.isPost = false) :
    markers review (s.send sent) = markers review s := by
  simp [markers_send (signed_of_not_post h), not_adds_of_not_post h]

/-- What the first page shows settles the check while it holds all the reviews. -/
theorem checkGood_of_page (hpost : sent.request.isPost = false)
    (hfew : (s.reviews review.pullRequest).length < filesPageSize)
    (hpage : marked review.reviewId ((s.reviews review.pullRequest).take filesPageSize) = false) :
    CheckGood review i (s.send sent) := by
  intro _
  rw [List.take_of_length_le hfew.le] at hpage
  rw [markers_send_of_not_post hpost, markers, List.countP_eq_zero]
  simpa [marked] using hpage

/-- A look at the reviews, or a request about something else, keeps the contract. -/
theorem execution_send (hthread : sent.thread = i) (hpost : sent.request.isPost = false) :
    (execution review i).guarantee s (s.send sent) := by
  refine ⟨fun h => by rwa [markers_send_of_not_post hpost], fun k hk h => ?_⟩
  exact h.send (signed_of_not_post hpost) (not_checks_of_thread (by rw [hthread]; exact hk.symm))

/-- Posting on the strength of a good check keeps the contract. -/
theorem execution_post (hsigned : Signed review sent) (hpost : sent.request.isPost = true)
    (hgood : CheckGood review i s)
    (hsince : sent.adds review.pullRequest = true →
      postedSinceCheck i review.pullRequest s.log = false) :
    (execution review i).guarantee s (s.send sent) := by
  refine ⟨fun h => ?_, fun k _ h => h.send hsigned (not_checks_of_isPost hpost)⟩
  rw [markers_send hsigned]
  split
  · rename_i hadds
    rw [hgood (hsince hadds)]
  · exact h

end

/-- Between its start and its marker check. -/
def Unchecked (review : Review) (s : Ledger) : Prop := markers review s ≤ 1

/-- After a marker check that showed nothing. -/
def Checked (review : Review) (i : ℕ) (s : Ledger) : Prop :=
  markers review s ≤ 1 ∧ CheckGood review i s

section

variable {review : Review} {client : RealGitHubClient} {inst : ℕ → ℕ} {i : ℕ} {headers : String}

theorem unchecked_stable : Stable (execution review i).rely (Unchecked review) :=
  fun _ _ hr h => hr.1 h

theorem checked_stable : Stable (execution review i).rely (Checked review i) :=
  fun _ _ hr h => ⟨hr.1 h.1, hr.2 h.2⟩

theorem unchecked_tolerates : Tolerates (execution review i) i (Unchecked review) where
  stable := unchecked_stable
  send s sent hthread hneutral h := by
    have hg : (execution review i).guarantee s (s.send sent) :=
      execution_send hthread (GitHubRequest.isPost_of_neutral hneutral)
    exact ⟨hg, hg.1 h⟩

theorem not_checks_of_neutral {sent : Sent} {pr : PullRequest}
    (h : sent.request.neutral = true) : sent.checks i pr = false := by
  cases hreq : sent.request <;> simp_all [Sent.checks, GitHubRequest.neutral]

theorem checked_tolerates : Tolerates (execution review i) i (Checked review i) where
  stable := checked_stable
  send s sent hthread hneutral h := by
    have hpost := GitHubRequest.isPost_of_neutral hneutral
    have hg : (execution review i).guarantee s (s.send sent) := execution_send hthread hpost
    exact ⟨hg, hg.1 h.1, h.2.send (signed_of_not_post hpost) (not_checks_of_neutral hneutral)⟩

/-- The request body of a review carries its marker. -/
theorem reviewRequest_carries {changedFiles : List ChangedFile} {body : CreateReviewRequest}
    (h : reviewRequest review changedFiles = .ok body) :
    (ExistingReview.mk body.body).carries review.reviewId = true := by
  obtain ⟨diffIndex, -, -, hbody⟩ := reviewRequest_ok h
  rw [hbody]
  exact carries_formatSummaryBody _ _ _

/-- What the answer to the marker check says. -/
def Shown (review : Review) (i : ℕ)
    (response : Response (GitHubRequest.reviews review.pullRequest filesPageSize).Content)
    (s : Ledger) : Prop :=
  Unchecked review s ∧ ∃ page : List ExistingReview, response.json = .ok page ∧
    (marked review.reviewId page = false → CheckGood review i s)

theorem shown_stable
    (response : Response (GitHubRequest.reviews review.pullRequest filesPageSize).Content) :
    Stable (execution review i).rely (Shown review i response) := by
  rintro s s' hr ⟨hone, page, hjson, hgood⟩
  exact ⟨hr.1 hone, page, hjson, fun h => hr.2 (hgood h)⟩

/-- Executions in a world that gives no reason for a second marker. -/
noncomputable abbrev carefulMachine (inst : ℕ → ℕ) (review : Review) : Machine (Guarded GitHubSignature)
    (GuardWorld GitHubWorld) (GuardChoice GitHubChoice) (GuardMove GitHubMove) :=
  (gitHubMachine inst).under
    ((fewReviews review.pullRequest).and (checkStillHolds review.pullRequest))

theorem careful_within : (carefulMachine inst review).Within (gitHubMachine inst) :=
  Machine.under_within _ _

theorem careful_find_triple : Triple (carefulMachine inst review) i
    (onLedger (execution review i)) (Says (Unchecked review))
    (client.findExistingReviewIdMarker review.pullRequest headers review.reviewId) fun r =>
      match r with
      | .ok false => Says (Checked review i)
      | _ => Says (Unchecked review) := by
  have hfetch : Triple (carefulMachine inst review) i (onLedger (execution review i))
      (Says (Unchecked review)) (client.callReliably
        (RealGitHubClient.attempt (.reviews review.pullRequest filesPageSize) headers))
      fun r => Says (Either (Shown review i) (Unchecked review) r) := by
    apply says_reliably careful_within unchecked_stable shown_stable
    apply says_attempt careful_within unchecked_stable shown_stable
    intro w c w' sending hw hp _
    have hg : (execution review i).guarantee w.dep.ledger (w.dep.ledger.send
        ⟨i, inst i, .reviews review.pullRequest filesPageSize, headers, sending⟩) :=
      execution_send rfl rfl
    refine ⟨hg, ?_⟩
    obtain ⟨⟨hfew, -⟩, hp⟩ := Machine.perform_under.mp hp
    obtain ⟨c', d, -, hd, -⟩ := perform_dep hp
    cases sending with
    | lost applied e => exact hg.1 hw
    | answered response =>
      have hjson : response.json =
          .ok ((w.dep.reviews review.pullRequest).take filesPageSize) := perform_reviews hd
      have hgood : marked review.reviewId
          ((w.dep.ledger.reviews review.pullRequest).take filesPageSize) = false →
            CheckGood review i (w.dep.ledger.send ⟨i, inst i,
              .reviews review.pullRequest filesPageSize, headers, .answered response⟩) :=
        checkGood_of_page rfl (hfew rfl)
      simp only [Accepts, Sending.outcome]
      split
      · exact ⟨hg.1 hw, _, hjson, hgood⟩
      · exact hg.1 hw
  apply hfetch.bind _ fun _ _ hw => hw
  rintro response w ⟨hone, page, hjson, hgood⟩
  rw [hjson]
  cases hpage : marked review.reviewId page with
  | true =>
    have hfound : page.any (ExistingReview.carries review.reviewId) = true := hpage
    show Safe _ _ _ _ (.done (.ok (page.any (ExistingReview.carries review.reviewId)))) w
    rw [hfound]
    exact Triple.done (says_stable unchecked_stable) (fun _ h => h) w hone
  | false =>
    have hfound : page.any (ExistingReview.carries review.reviewId) = false := hpage
    show Safe _ _ _ _ (.done (.ok (page.any (ExistingReview.carries review.reviewId)))) w
    rw [hfound]
    exact Triple.done (says_stable checked_stable) (fun _ h => h) w ⟨hone, hgood hpage⟩

/-- Posting attempts, each under a check that still holds. -/
theorem careful_createReview_triple {body : CreateReviewRequest}
    (hcarries : (ExistingReview.mk body.body).carries review.reviewId = true) :
    Keeps (carefulMachine inst review) (execution review i) i (Checked review i)
      (client.callReliably
        (RealGitHubClient.attempt (.createReview review.pullRequest body) headers)) := by
  have hsigned : ∀ sending, Signed review
      ⟨i, inst i, .createReview review.pullRequest body, headers, sending⟩ := by
    rintro sending pr body' hreq
    cases hreq
    exact ⟨rfl, hcarries⟩
  apply keeps_reliably careful_within checked_stable
  apply keeps_attempt_of careful_within checked_stable
  intro w c w' sending hw hp heffect
  obtain ⟨⟨-, hsince⟩, -⟩ := Machine.perform_under.mp hp
  have hg : (execution review i).guarantee w.dep.ledger (w.dep.ledger.send
      ⟨i, inst i, .createReview review.pullRequest body, headers, sending⟩) := by
    apply execution_post (hsigned sending) rfl hw.2
    intro hadds
    apply hsince
    simpa [Sent.adds, heffect, Bool.and_comm] using hadds
  exact ⟨hg, hg.1 hw.1, hw.2.send (hsigned sending) (not_checks_of_isPost rfl)⟩

theorem careful_post_triple : Triple (carefulMachine inst review) i
    (onLedger (execution review i)) (Says (Unchecked review)) (client.postReviewComment review)
    fun _ => Says (Unchecked review) := by
  have hheaders : Keeps (carefulMachine inst review) (execution review i) i (Unchecked review)
      (client.installationHeaders review.pullRequest.owner review.pullRequest.repo) :=
    keeps_installationHeaders careful_within unchecked_tolerates
  apply hheaders.bind
  intro headers
  apply careful_find_triple.bind
  · rintro (_ | _)
    · have hdiff : Keeps (carefulMachine inst review) (execution review i) i (Checked review i)
          (client.getDiffAndFiles review.pullRequest review.headSha) :=
        keeps_getDiffAndFiles careful_within checked_tolerates
      apply Triple.bind hdiff _ fun e w hw => hw.1
      intro value
      cases hrequest : reviewRequest review value.changedFiles with
      | error e => exact Triple.done (says_stable checked_stable) fun w hw => hw.1
      | ok body =>
        apply Triple.bind (careful_createReview_triple (reviewRequest_carries hrequest)) _
          fun e w hw => hw.1
        intro response
        apply Triple.bind (keeps_done checked_stable _)
        · exact fun _ => Triple.done (says_stable checked_stable) fun w hw => hw.1
        · exact fun e w hw => hw.1
    · exact Triple.pure (says_stable unchecked_stable) fun w hw => hw
  · exact fun e w hw => hw

/-- The programs of the executions: one for each client that posts the review. -/
abbrev posting (review : Review) (client : RealGitHubClient) : Session Unit :=
  client.postReviewComment review

theorem execution_compatible {k : ℕ} (hik : i ≠ k) {w w' : GuardWorld GitHubWorld}
    (h : (onLedger (execution review i)).guarantee w w') :
    (onLedger (execution review k)).rely w w' := by
  rcases h with hd | hl | hg
  · exact Or.inl hd
  · exact Or.inr (Or.inl hl)
  · exact Or.inr (Or.inr ⟨hg.1, hg.2 k hik.symm⟩)

/-- Executions whose checks still hold when they post leave at most one marker. -/
theorem markers_of_checks {w : GuardWorld GitHubWorld}
    {ss : List PostingStep}
    {c : Machine.Config (Guarded GitHubSignature) Exc Unit (GuardWorld GitHubWorld)}
    (hone : markers review w.dep.ledger ≤ 1)
    (hrun : (carefulMachine inst review).exec (posting review) ⟨w, []⟩ ss = some c) :
    markers review c.world.dep.ledger ≤ 1 := by
  have hstart : Configured (carefulMachine inst review) (fun i => onLedger (execution review i))
      (fun (_ : RealGitHubClient) _ _ => Says (Unchecked review))
      (fun _ => Says (Unchecked review))
      (⟨w, []⟩ : Machine.Config (Guarded GitHubSignature) Exc Unit _) :=
    ⟨by simp, fun _ _ => hone⟩
  have hend := hstart.exec (fun _ _ => careful_post_triple)
    (fun i k w w' hik h => execution_compatible hik h)
    (fun _ _ _ _ h => gitHub_move_rely careful_within h)
    (fun _ => says_stable unchecked_stable) hrun
  exact hend.fresh _ (Nat.le_refl _)

/-- Of the requests that post a review, only those that render the given one. -/
def Renders (review : Review) (sent : Sent) : Prop :=
  ∀ pr body, sent.request = .createReview pr body →
    pr = review.pullRequest ∧ ∃ changedFiles, reviewRequest review changedFiles = .ok body

theorem renders_of_not_post {sent : Sent} (h : sent.request.isPost = false) :
    Renders review sent := by
  intro pr body hreq
  simp [hreq, GitHubRequest.isPost] at h

theorem Renders.signed {sent : Sent} (h : Renders review sent) : Signed review sent := by
  intro pr body hreq
  obtain ⟨hpr, changedFiles, hrequest⟩ := h pr body hreq
  exact ⟨hpr, reviewRequest_carries hrequest⟩

/-- What every request of an execution keeps holds throughout it. -/
theorem keeps_postReviewComment {K : Contract Ledger} {P : Ledger → Prop}
    (hs : Stable K.rely P) (hsend : ∀ s sent, sent.thread = i → Renders review sent → P s →
      K.guarantee s (s.send sent) ∧ P (s.send sent)) :
    Keeps (gitHubMachine inst) K i P (client.postReviewComment review) := by
  have hN := (gitHubMachine inst).within_self
  have ht : Tolerates K i P :=
    ⟨hs, fun s sent hthread hneutral =>
      hsend s sent hthread (renders_of_not_post (GitHubRequest.isPost_of_neutral hneutral))⟩
  apply (keeps_installationHeaders hN ht).bind
  intro headers
  apply Keeps.bind
  · apply Keeps.bind
    · apply keeps_reliably hN hs
      apply keeps_attempt_of hN hs
      intro w c w' sending hw _ _
      exact hsend _ _ rfl (renders_of_not_post rfl) hw
    · exact fun response => (keeps_done hs _).bind fun _ => keeps_done hs _
  · rintro (_ | _)
    · apply (keeps_getDiffAndFiles hN ht).bind
      intro value
      cases hrequest : reviewRequest review value.changedFiles with
      | error e => exact keeps_done hs _
      | ok body =>
        have hcreate : Keeps (gitHubMachine inst) K i P (client.callReliably
            (RealGitHubClient.attempt (.createReview review.pullRequest body) headers)) := by
          apply keeps_reliably hN hs
          apply keeps_attempt_of hN hs
          intro w c w' sending hw _ _
          refine hsend _ _ rfl ?_ hw
          rintro pr body' hreq
          cases hreq
          exact ⟨rfl, value.changedFiles, hrequest⟩
        apply Keeps.bind hcreate
        exact fun response => (keeps_done hs _).bind fun _ => keeps_done hs _
    · exact keeps_done hs _

/-- Whatever happens, an execution posts signed reviews only. -/
theorem signing_post_triple : Keeps (gitHubMachine inst) (signing review) i (fun _ => True)
    (client.postReviewComment review) :=
  keeps_postReviewComment (fun _ _ _ h => h) fun _ sent _ hrenders _ =>
    ⟨⟨sent, rfl, hrenders.signed⟩, trivial⟩

/-- What the executions and their environment do to the ledger, step by step. -/
def Signs (review : Review) (s s' : Ledger) : Prop :=
  s' = s ∨ ∃ sent, s' = s.send sent ∧ Signed review sent

/-- The marker of every review that was posted is there. -/
def Shows (review : Review) (s : Ledger) : Prop :=
  s.log.any (Sent.adds review.pullRequest) = true → 1 ≤ markers review s

theorem Signs.markers_le {s s' : Ledger} (h : Signs review s s') :
    markers review s ≤ markers review s' := by
  rcases h with rfl | ⟨sent, rfl, hsigned⟩
  · exact le_rfl
  · rw [markers_send hsigned]
    omega

theorem Signs.shows {s s' : Ledger} (h : Signs review s s') (hs : Shows review s) :
    Shows review s' := by
  rcases h with rfl | ⟨sent, rfl, hsigned⟩
  · exact hs
  · intro hany
    rw [markers_send hsigned]
    simp only [Ledger.send, List.any_cons, Bool.or_eq_true] at hany
    rcases hany with hadds | hany
    · rw [if_pos hadds]
      omega
    · exact (hs hany).trans (Nat.le_add_right _ _)

/-- Executions of the review, each of which posts signed reviews only. -/
abbrev Signing (inst : ℕ → ℕ) (review : Review)
    (c : Machine.Config (Guarded GitHubSignature) Exc Unit (GuardWorld GitHubWorld)) : Prop :=
  Configured (gitHubMachine inst) (fun _ => onLedger (signing review))
    (fun (_ : RealGitHubClient) _ _ => Says fun _ => True) (fun _ => Says fun _ => True) c

theorem Signing.next {c c' : Machine.Config (Guarded GitHubSignature) Exc Unit
      (GuardWorld GitHubWorld)}
    {step : PostingStep}
    (hc : Signing inst review c)
    (h : (gitHubMachine inst).next (posting review) c step = some c') :
    Signing inst review c' ∧ Signs review c.world.dep.ledger c'.world.dep.ledger := by
  refine ⟨Configured.next hc (fun _ _ => signing_post_triple) (fun _ _ _ _ _ _ =>
    Or.inr (Or.inr trivial)) (fun _ _ _ _ _ => Or.inr (Or.inr trivial))
    (fun _ _ _ _ _ => trivial) h, ?_⟩
  cases step with
  | start label =>
    cases h
    exact Or.inl rfl
  | move m =>
    obtain ⟨w, hw, rfl⟩ := Option.map_eq_some_iff.mp h
    exact Or.inl (gitHub_move hw)
  | act i choice =>
    simp only [Machine.next] at h
    split at h
    · rename_i op k hk
      obtain ⟨⟨w, answer⟩, hr, rfl⟩ := Option.map_eq_some_iff.mp h
      obtain ⟨label, hsafe⟩ := hc.safe i _ hk
      rcases (hsafe.perform hr).1 with hd | hl | hg
      · exact Or.inl (congrArg GitHubWorld.ledger hd)
      · exact Or.inl hl
      · exact Or.inr hg
    · cases h

theorem Signing.markers_le {c c' : Machine.Config (Guarded GitHubSignature) Exc Unit
      (GuardWorld GitHubWorld)}
    {ss : List PostingStep}
    (hc : Signing inst review c)
    (h : (gitHubMachine inst).exec (posting review) c ss = some c') :
    markers review c.world.dep.ledger ≤ markers review c'.world.dep.ledger := by
  induction ss generalizing c with
  | nil => exact (congrArg (fun c => markers review c.world.dep.ledger) (Option.some.inj h)).le
  | cons step ss ih =>
    simp only [Machine.exec] at h
    cases hn : (gitHubMachine inst).next (posting review) c step with
    | none => simp [hn] at h
    | some c₁ =>
      rw [hn] at h
      obtain ⟨hc₁, hsigns⟩ := hc.next hn
      exact hsigns.markers_le.trans (ih hc₁ h)

theorem any_adds_of_postedSinceCheck {pr : PullRequest} {log : List Sent}
    (h : postedSinceCheck i pr log = true) : log.any (Sent.adds pr) = true := by
  simp only [postedSinceCheck, List.any_eq_true] at h ⊢
  obtain ⟨sent, hmem, hadds⟩ := h
  exact ⟨sent, List.takeWhile_subset _ hmem, hadds⟩

/-- One step of an execution that leaves at most one marker was taken under a good check. -/
theorem Signing.admits {c c' : Machine.Config (Guarded GitHubSignature) Exc Unit
      (GuardWorld GitHubWorld)}
    {step : PostingStep}
    (hc : Signing inst review c) (hshows : Shows review c.world.dep.ledger)
    (h : (gitHubMachine inst).next (posting review) c step = some c')
    (hle : markers review c'.world.dep.ledger ≤ 1) :
    Machine.Admits (checkStillHolds review.pullRequest) c step := by
  have hsigns := (hc.next h).2
  cases step with
  | start label => trivial
  | move m => trivial
  | act i choice =>
    simp only [Machine.Admits, Machine.next] at h ⊢
    split at h
    · rename_i op k hk
      obtain ⟨⟨w, answer⟩, hr, rfl⟩ := Option.map_eq_some_iff.mp h
      simp only [checkStillHolds]
      split
      · rename_i request bearer choice
        intro happlies
        by_contra hsince
        obtain ⟨c', d, hchoice, hd, rfl⟩ := perform_dep hr
        obtain rfl := GuardChoice.dep.inj hchoice
        obtain ⟨sending, rfl, -, heffect, rfl⟩ := perform_http hd
        have hposted := hshows (any_adds_of_postedSinceCheck (Bool.not_eq_false _ ▸ hsince))
        rcases hsigns with heq | ⟨sent, heq, hsigned⟩
        · exact absurd (congrArg Ledger.log heq) (List.cons_ne_self _ _)
        · obtain rfl := (List.cons.inj (congrArg Ledger.log heq)).1
          have hadds : Sent.adds review.pullRequest ⟨i, inst i, request, bearer, sending⟩ =
              true := by
            simpa [Sent.adds, heffect, Bool.and_comm] using happlies
          have htwo := markers_send (s := c.world.dep.ledger) hsigned
          rw [if_pos hadds] at htwo
          have hle' : markers review (c.world.dep.ledger.send _) ≤ 1 := hle
          omega
      · trivial
    · cases h

theorem Signing.checks {c c' : Machine.Config (Guarded GitHubSignature) Exc Unit
      (GuardWorld GitHubWorld)}
    {ss : List PostingStep}
    (hc : Signing inst review c) (hshows : Shows review c.world.dep.ledger)
    (h : (gitHubMachine inst).exec (posting review) c ss = some c')
    (hle : markers review c'.world.dep.ledger ≤ 1) :
    (gitHubMachine inst).AllObey (checkStillHolds review.pullRequest) (posting review) c ss := by
  induction ss generalizing c with
  | nil => trivial
  | cons step ss ih =>
    simp only [Machine.exec, Machine.AllObey] at h ⊢
    cases hn : (gitHubMachine inst).next (posting review) c step with
    | none => simp [hn] at h
    | some c₁ =>
      rw [hn] at h
      obtain ⟨hc₁, hsigns⟩ := hc.next hn
      exact ⟨hc.admits hshows hn ((hc₁.markers_le h).trans hle), ih hc₁ (hsigns.shows hshows) h⟩

/-- Any number of executions for one review, interleaved in any way, leave at most one review with
its marker exactly when none of them posts after a post that its own check did not see. -/
theorem posted_at_most_once_iff {w : GuardWorld GitHubWorld}
    {ss : List PostingStep}
    {c : Machine.Config (Guarded GitHubSignature) Exc Unit (GuardWorld GitHubWorld)}
    (hlog : w.dep.log = []) (hone : markers review w.dep.ledger ≤ 1)
    (hrun : (gitHubMachine inst).exec (posting review) ⟨w, []⟩ ss = some c)
    (hfew : (gitHubMachine inst).AllObey (fewReviews review.pullRequest) (posting review)
      ⟨w, []⟩ ss) :
    markers review c.world.dep.ledger ≤ 1 ↔
      (gitHubMachine inst).AllObey (checkStillHolds review.pullRequest) (posting review)
        ⟨w, []⟩ ss := by
  constructor
  · intro hle
    have hsigning : Signing inst review
        (⟨w, []⟩ : Machine.Config (Guarded GitHubSignature) Exc Unit _) :=
      ⟨by simp, fun _ _ => trivial⟩
    have hshows : Shows review w.dep.ledger := by
      simp [Shows, GitHubWorld.ledger, hlog]
    exact hsigning.checks hshows hrun hle
  · intro hobey
    exact markers_of_checks hone (Machine.exec_under hrun (Machine.allObey_and hfew hobey))

end

/-- The part of a post before its request: headers, check, cached diff. -/
def preparesPost : List SessionEvent :=
  mintsJwt ++ lookupHits ++ lookupHits ++ requestAnswered ++ [.act (.dep .go)]

/-- The schedule of a posting request whose answer is lost; a retry follows at once. -/
def answerLost (applied : Bool) : List SessionEvent :=
  [.act .go, .act (.dep (.lost applied timeout)), .act .go, .act (.rand 0)]

/-- One execution: its request is carried out, the answer is lost, and the retry goes through. -/
def lostAnswer : List PostingStep :=
  .start (.default "1") ::
    (preparesPost ++ answerLost true ++ requestAnswered).map (Machine.Event.on 0)

theorem posted_twice :
    ∃ c, (gitHubMachine id).exec (posting .sample) ⟨reviewedWorld [], []⟩ lostAnswer = some c ∧
      (gitHubMachine id).AllObey (fewReviews Review.sample.pullRequest) (posting .sample)
        ⟨reviewedWorld [], []⟩ lostAnswer ∧
      markers .sample c.world.dep.ledger = 2 := by
  have hreach : (gitHubMachine id).reaches (posting .sample) ⟨reviewedWorld [], []⟩ lostAnswer
      (fun w => decide (markers .sample w.dep.ledger = 2)) = true := by
    decide +kernel
  obtain ⟨c, hrun, hcheck⟩ := Machine.exists_of_reaches hreach
  exact ⟨c, hrun, by decide +kernel, of_decide_eq_true hcheck⟩

/-- Two executions: the second resolves its headers while the first posts at its second attempt,
then checks and finds the review. -/
def takingTurns : List PostingStep :=
  [.start (.default "1"), .start (.default "1")] ++
    (preparesPost ++ answerLost false).map (Machine.Event.on 0) ++
    (mintsJwt ++ lookupHits ++ lookupHits).map (Machine.Event.on 1) ++
    requestAnswered.map (Machine.Event.on 0) ++ requestAnswered.map (Machine.Event.on 1)

theorem posted_at_most_once_takingTurns :
    ∃ c, (gitHubMachine id).exec (posting .sample) ⟨reviewedWorld [], []⟩ takingTurns = some c ∧
      (posts c.world.dep.log).length = 2 ∧ markers .sample c.world.dep.ledger ≤ 1 := by
  have hreach : (gitHubMachine id).reaches (posting .sample) ⟨reviewedWorld [], []⟩ takingTurns
      (fun w => decide ((posts w.dep.log).length = 2)) = true := by
    decide +kernel
  obtain ⟨c, hrun, hcheck⟩ := Machine.exists_of_reaches hreach
  exact ⟨c, hrun, of_decide_eq_true hcheck,
    (posted_at_most_once_iff rfl (by decide +kernel) hrun (by decide +kernel)).mpr
      (by decide +kernel)⟩

end ReviewAgent
