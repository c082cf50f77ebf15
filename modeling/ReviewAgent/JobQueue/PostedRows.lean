import ReviewAgent.Integrations.PostedOnce
import ReviewAgent.Orchestrator.ReviewWrites

/-! What the reviews table says was posted, and what is on the pull request. -/
namespace ReviewAgent

open Effects

/-- The reviews table, and the writes that it has taken, newest first, which nothing reads back. -/
structure ReviewsWorld where
  table : Reviews
  stored : List (Review × String) := []

/-- How an operation of a job ends in which GitHub has no part; and for a write to the reviews
table the outage that it meets, with whether the write is carried out all the same. -/
structure WorkerChoice where
  answers : (op : WorkerOp) → WorkerSignature.Answer op
  outage : Option (Bool × Exc)

namespace ReviewsWorld

variable (w : ReviewsWorld)

def store (made : Review × String) : ReviewsWorld :=
  ⟨w.table.upsert made.1 made.2, made :: w.stored⟩

/-- The table after a write that meets the outage. -/
def write (outage : Option (Bool × Exc)) (made : Review × String) : ReviewsWorld :=
  if made.1.storable made.2 && outage.all Prod.fst then w.store made else w

end ReviewsWorld

/-- The worker's databases; whatever is no write to the reviews table may be answered in any way. -/
def worker : Machine WorkerSignature ReviewsWorld WorkerChoice Empty where
  perform _ w op c :=
    match op with
    | .engine (.node _ (.upsertReview review reason)) =>
      some (w.write c.outage (review, reason),
        upsertAnswer (c.outage.map Prod.snd) review reason)
    | op => some (w, c.answers op)
  move _ m := m.elim

/-- Jobs over one GitHub and one reviews table. -/
abbrev jobMachine (inst : ℕ → ℕ) : Machine ((Guarded GitHubSignature).sum WorkerSignature)
    (GuardWorld GitHubWorld × ReviewsWorld) (GuardChoice GitHubChoice ⊕ WorkerChoice)
    (GuardMove GitHubMove ⊕ Empty) :=
  (gitHubMachine inst).sum worker

def PersistedReview.pullRequest (row : PersistedReview) : PullRequest :=
  ⟨row.repositoryOwner, row.repositoryName, row.prNumber⟩

/-- Every row that says `POSTED` is of a review that is on its pull request. -/
def Truthful (reviews : PullRequest → List ExistingReview) (table : Reviews) : Prop :=
  ∀ row ∈ table.rows, row.status = .posted →
    marked row.reviewId (reviews row.pullRequest) = true

/-- The pull request of the row of an event's review: of the row that is there, or else of the one
that is inserted. -/
def Reviews.rowPullRequest (table : Reviews) (event : WebhookEvent) : PullRequest :=
  ((table.rows.find? fun row => row.reviewId = event.reviewId).map (·.pullRequest)).getD
    event.pullRequest

/-- A review of the event. -/
structure OfEvent (event : WebhookEvent) (review : Review) : Prop where
  reviewId : review.reviewId = event.reviewId
  pullRequest : review.pullRequest = event.pullRequest

/-- Every review that a request posts is on the event's pull request, under its marker. -/
def SignedFor (event : WebhookEvent) (sent : Sent) : Prop :=
  ∀ pr body, sent.request = .createReview pr body →
    pr = event.pullRequest ∧ (ExistingReview.mk body.body).carries event.reviewId = true

/-- Alone on the ledger, and posting for the event only. -/
def postingFor (event : WebhookEvent) : Contract Ledger where
  rely s s' := s' = s
  guarantee s s' := ∃ sent, s' = s.send sent ∧ SignedFor event sent

/-- Alone on the table, and writing reviews of the event only. -/
def writingFor (event : WebhookEvent) : Contract ReviewsWorld where
  rely v v' := v' = v
  guarantee v v' := v' = v ∨ ∃ made : Review × String, OfEvent event made.1 ∧ v' = v.store made

/-- One job for the event. -/
def jobFor (event : WebhookEvent) : Contract (GuardWorld GitHubWorld × ReviewsWorld) where
  rely x x' := x'.1.dep.ledger = x.1.dep.ledger ∧ x'.2 = x.2
  guarantee x x' := ((onLedger (postingFor event)).guarantee x.1 x'.1 ∧ x'.2 = x.2) ∨
    (x'.1 = x.1 ∧ (writingFor event).guarantee x.2 x'.2)

section

variable {event : WebhookEvent} {review : Review} {table : Reviews} {sent : Sent} {s : Ledger}
  {row : PersistedReview} {reason : String}

theorem signedFor_of_signed (hreview : OfEvent event review) (h : Signed review sent) :
    SignedFor event sent := by
  intro pr body hreq
  obtain ⟨hpr, hcarries⟩ := h pr body hreq
  exact ⟨hpr.trans hreview.pullRequest, hreview.reviewId ▸ hcarries⟩

theorem signedFor_of_not_post (h : sent.request.isPost = false) : SignedFor event sent := by
  intro pr body hreq
  simp [hreq, GitHubRequest.isPost] at h

/-- What is on a pull request stays there. -/
theorem marked_send {reviewId : String} {pr : PullRequest}
    (h : marked reviewId (s.reviews pr) = true) :
    marked reviewId ((s.send sent).reviews pr) = true := by
  cases hreq : sent.request with
  | createReview pr' body =>
    simp only [Ledger.send, hreq, GitHubRequest.effect]
    split
    · by_cases hpr : pr = pr'
      · subst hpr
        simp only [Function.update_self, marked, List.any_append]
        exact Bool.or_eq_true_iff.mpr (Or.inl h)
      · rwa [Function.update_of_ne hpr]
    · exact h
  | _ =>
    rw [Ledger.send_reviews fun pr body hpost => by simp [hreq] at hpost]
    exact h

/-- What puts the event's marker on a pull request is a request that posts there. -/
theorem marked_send_iff (h : SignedFor event sent) {pr : PullRequest} :
    marked event.reviewId ((s.send sent).reviews pr) = true ↔
      marked event.reviewId (s.reviews pr) = true ∨ sent.adds pr = true := by
  cases hreq : sent.request with
  | createReview pr' body =>
    obtain ⟨rfl, hcarries⟩ := h pr' body hreq
    cases heffect : sent.sending.takesEffect with
    | false => simp [Ledger.send, Sent.adds, heffect]
    | true =>
      by_cases hpr : event.pullRequest = pr
      · subst hpr
        simp [Ledger.send, Sent.adds, heffect, hreq, GitHubRequest.effect, GitHubRequest.postsOn,
          marked, hcarries]
      · simp [Ledger.send, Sent.adds, heffect, hreq, GitHubRequest.effect, GitHubRequest.postsOn,
          hpr, Function.update_of_ne (Ne.symm hpr)]
  | _ =>
    have hpost : sent.request.isPost = false := by simp [hreq, GitHubRequest.isPost]
    rw [Ledger.send_reviews fun pr body hpost => by simp [hreq] at hpost,
      not_adds_of_not_post hpost]
    simp

/-- The row of an event's review is the one that its pull request is read off. -/
theorem pullRequest_eq (hrow : row ∈ table.rows) (hid : row.reviewId = event.reviewId) :
    row.pullRequest = table.rowPullRequest event := by
  cases hfind : table.rows.find? fun row => row.reviewId = event.reviewId with
  | none =>
    have hnone := List.find?_eq_none.mp hfind row hrow
    simp [hid] at hnone
  | some found =>
    have hfound : found.reviewId = event.reviewId := by simpa using List.find?_some hfind
    obtain rfl : row = found := List.inj_on_of_nodup_map table.primaryKey hrow
      (List.mem_of_find?_eq_some hfind) (hid.trans hfound.symm)
    rw [Reviews.rowPullRequest, hfind]
    rfl

/-- Writing the event's review changes no row's pull request. -/
theorem rowPullRequest_upsert (h : OfEvent event review) :
    (table.upsert review reason).rowPullRequest event = table.rowPullRequest event := by
  simp only [Reviews.rowPullRequest, Reviews.upsert, Reviews.upsertRows]
  split
  · have hsame : ((fun row => decide (row.reviewId = event.reviewId)) ∘ fun row =>
        if row.reviewId = review.reviewId then PersistedReview.overwrite row review reason else row) =
          fun row => decide (row.reviewId = event.reviewId) := by
      funext row
      simp only [Function.comp]
      split <;> rfl
    rw [List.find?_map, hsame, Option.map_map]
    congr 2
    funext row
    simp only [Function.comp]
    split <;> rfl
  · rename_i hnew
    have hnone : table.rows.find? (fun row => row.reviewId = event.reviewId) = none := by
      rw [List.find?_eq_none]
      intro row hrow hid
      apply hnew
      rw [h.reviewId, ← of_decide_eq_true hid]
      exact List.mem_map_of_mem hrow
    have hrow : (review.toRow reason).reviewId = event.reviewId := h.reviewId
    rw [List.find?_append, hnone]
    simp only [Option.none_or, List.find?_cons, hrow, decide_true]
    exact h.pullRequest

end

/-- How GitHub has come on since the start of a job for the event. -/
structure LedgerTrace (event : WebhookEvent) (start s : Ledger) : Prop where
  kept : ∀ pr reviewId, marked reviewId (start.reviews pr) = true →
    marked reviewId (s.reviews pr) = true
  posted : ∀ pr, marked event.reviewId (s.reviews pr) = true ↔
    marked event.reviewId (start.reviews pr) = true ∨ s.log.any (Sent.adds pr) = true

/-- How the table has come on since the start of a job for the event. -/
structure TableTrace (event : WebhookEvent) (start : Reviews) (v : ReviewsWorld) : Prop where
  unwritten : v.stored = [] → v.table = start
  others : ∀ row ∈ v.table.rows, row.reviewId ≠ event.reviewId → row ∈ start.rows
  pullRequest : v.table.rowPullRequest event = start.rowPullRequest event
  status : ∀ made ∈ v.stored.head?, (∃ row ∈ v.table.rows, row.reviewId = event.reviewId) ∧
    ∀ row ∈ v.table.rows, row.reviewId = event.reviewId → row.status = made.1.status

section

variable {event : WebhookEvent} {start s s' : Ledger} {table : Reviews} {v v' : ReviewsWorld}

theorem LedgerTrace.step (h : LedgerTrace event start s)
    (hstep : (postingFor event).guarantee s s') : LedgerTrace event start s' := by
  obtain ⟨sent, rfl, hsigned⟩ := hstep
  refine ⟨fun pr reviewId hmarked => marked_send (h.kept pr reviewId hmarked), fun pr => ?_⟩
  rw [marked_send_iff hsigned, h.posted pr]
  simp only [Ledger.send, List.any_cons, Bool.or_eq_true]
  tauto

theorem TableTrace.step (h : TableTrace event table v)
    (hstep : (writingFor event).guarantee v v') : TableTrace event table v' := by
  rcases hstep with rfl | ⟨made, hmade, rfl⟩
  · exact h
  · constructor
    · rintro ⟨⟩
    · intro row hrow hid
      rcases Reviews.mem_upsert hrow with ⟨hold, -⟩ | ⟨old, hold, hsame, rfl⟩ | rfl
      · exact h.others row hold hid
      · exact absurd (hsame.trans hmade.reviewId) hid
      · exact absurd hmade.reviewId hid
    · exact (rowPullRequest_upsert hmade).trans h.pullRequest
    · rintro _ ⟨⟩
      constructor
      · obtain ⟨row, hrow, hshows⟩ := @Reviews.exists_shows_upsert v.table made.1 made.2
        exact ⟨row, hrow, hshows.reviewId.trans hmade.reviewId⟩
      · intro row hrow hid
        rcases Reviews.mem_upsert hrow with ⟨-, hne⟩ | ⟨old, -, -, rfl⟩ | rfl
        · exact absurd (hid.trans hmade.reviewId.symm) hne
        · rfl
        · rfl

/-- From a truthful table on, a table is truthful exactly if the last review of the event that it
took as posted is on the pull request of its row. -/
theorem truthful_iff (hledger : LedgerTrace event start s) (htable : TableTrace event table v)
    (htruthful : Truthful start.reviews table) : Truthful s.reviews v.table ↔
      ∀ made ∈ v.stored.head?, made.1.status = .posted →
        marked event.reviewId (start.reviews (table.rowPullRequest event)) = true ∨
          s.log.any (Sent.adds (table.rowPullRequest event)) = true := by
  have hpr : ∀ row ∈ v.table.rows, row.reviewId = event.reviewId →
      row.pullRequest = table.rowPullRequest event :=
    fun row hrow hid => (pullRequest_eq hrow hid).trans htable.pullRequest
  constructor
  · intro h made hmade hposted
    obtain ⟨⟨row, hrow, hid⟩, hstatus⟩ := htable.status made hmade
    have hmarked := h row hrow ((hstatus row hrow hid).trans hposted)
    rw [hid, hpr row hrow hid] at hmarked
    exact (hledger.posted _).mp hmarked
  · intro h row hrow hposted
    by_cases hid : row.reviewId = event.reviewId
    · cases hstored : v.stored with
      | nil =>
        rw [htable.unwritten hstored] at hrow
        exact hledger.kept _ _ (htruthful row hrow hposted)
      | cons made stored =>
        have hhead : made ∈ v.stored.head? := by rw [hstored]; rfl
        rw [hid, hpr row hrow hid, hledger.posted]
        exact h made hhead (((htable.status made hhead).2 row hrow hid).symm.trans hposted)
    · exact hledger.kept _ _ (htruthful row (htable.others row hrow hid) hposted)

end

end ReviewAgent
