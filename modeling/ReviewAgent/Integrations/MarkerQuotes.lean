import ReviewAgent.Integrations.PostedOnce
import ReviewAgent.Substrings

/-! Posting one review after another on the same pull request: which findings of the first one
make the second one look posted. -/
namespace ReviewAgent

open Effects

/-- A text without the brackets that a marker begins and ends with. -/
def Unbracketed (text : List Char) : Prop := '<' ∉ text ∧ '>' ∉ text

instance (text : List Char) : Decidable (Unbracketed text) :=
  inferInstanceAs (Decidable ('<' ∉ text ∧ '>' ∉ text))

theorem Unbracketed.append {a b : List Char} (ha : Unbracketed a) (hb : Unbracketed b) :
    Unbracketed (a ++ b) := by
  simp only [Unbracketed, List.mem_append, not_or] at *
  exact ⟨⟨ha.1, hb.1⟩, ha.2, hb.2⟩

theorem Unbracketed.of_subset {a b : List Char} (hb : Unbracketed b) (h : a ⊆ b) :
    Unbracketed a :=
  ⟨fun hmem => hb.1 (h hmem), fun hmem => hb.2 (h hmem)⟩

theorem unbracketed_nat (n : ℕ) : Unbracketed (toString n).toList := by
  have hdigit : ∀ c ∈ (toString n).toList, c.isDigit = true := by
    intro c hc
    rw [Nat.toString_eq_repr, Nat.toList_repr] at hc
    exact Nat.isDigit_of_mem_toDigits (by decide) (by decide) hc
  exact ⟨fun h => absurd (hdigit _ h) (by decide), fun h => absurd (hdigit _ h) (by decide)⟩

theorem unbracketed_decimalStr (coefficient scale : ℕ) :
    Unbracketed (decimalStr coefficient scale).toList := by
  have hdigits := unbracketed_nat coefficient
  have hzeros : ∀ n, Unbracketed (List.replicate n '0') := by
    intro n
    exact ⟨fun h => absurd (List.eq_of_mem_replicate h) (by decide),
      fun h => absurd (List.eq_of_mem_replicate h) (by decide)⟩
  unfold decimalStr
  dsimp only
  split
  · exact hdigits
  · split
    · simp only [String.toList_append, String.toList_ofList]
      exact ((hdigits.of_subset (List.take_subset _ _)).append (by decide)).append
        (hdigits.of_subset (List.drop_subset _ _))
    · split
      · simp only [String.toList_append, String.toList_ofList]
        exact (Unbracketed.append (by decide) (hzeros _)).append hdigits
      · rw [String.toList_append]
        apply Unbracketed.append
        · split
          · rename_i d e rest heq
            simp only [String.toList_ofList]
            rw [heq] at hdigits
            refine ⟨fun h => ?_, fun h => ?_⟩
            · exact hdigits.1 (by simpa using h)
            · exact hdigits.2 (by simpa using h)
          · simpa only [String.toList_ofList] using hdigits
        · simp only [String.toList_append, toString]
          exact Unbracketed.append (by decide) (unbracketed_nat _)

/-- An identifier of letters, digits and hyphens, as `webhook-<uuid>` and `local-<uuid>` are. -/
def PlainId (reviewId : String) : Prop :=
  ∀ c ∈ reviewId.toList, c.isAlphanum = true ∨ c = '-'

instance (reviewId : String) : Decidable (PlainId reviewId) :=
  List.decidableBAll _ _

/-- What a marker has between its bracket and the identifier. -/
def markerBefore : List Char := "!-- pr-review-agent:review_id=".toList

/-- What a marker has between its brackets. -/
def markerText (reviewId : String) : List Char :=
  markerBefore ++ (reviewId.toList ++ [' ', '-', '-'])

theorem toList_idempotencyMarker (reviewId : String) :
    (idempotencyMarker reviewId).toList = '<' :: (markerText reviewId ++ ['>']) := by
  have hprefix : idempotencyMarkerPrefix.toList = '<' :: markerBefore := by decide +kernel
  have hsuffix : idempotencyMarkerSuffix.toList = [' ', '-', '-', '>'] := by decide +kernel
  rw [idempotencyMarker, String.toList_append, String.toList_append, hprefix, hsuffix, markerText]
  simp

theorem PlainId.not_mem {reviewId : String} {c : Char} (h : PlainId reviewId)
    (hc : c.isAlphanum = false) (hhyphen : c ≠ '-') : c ∉ reviewId.toList := by
  intro hmem
  rcases h c hmem with halpha | rfl
  · simp [halpha] at hc
  · exact hhyphen rfl

theorem PlainId.not_mem_markerText {reviewId : String} {c : Char} (h : PlainId reviewId)
    (hc : c ∈ ['<', '>', '\x60', '\n']) : c ∉ markerText reviewId := by
  simp only [List.mem_cons, List.not_mem_nil, or_false] at hc
  simp only [markerText, List.mem_append, not_or]
  rcases hc with rfl | rfl | rfl | rfl <;>
    exact ⟨by decide +kernel, h.not_mem (by decide) (by decide), by decide⟩

/-- A finding quotes the marker of a review. -/
def Finding.Quotes (reviewId : String) (finding : Finding) : Prop :=
  strIn (idempotencyMarker reviewId) finding.filePath = true ∨
    strIn (idempotencyMarker reviewId) finding.category = true ∨
      strIn (idempotencyMarker reviewId) finding.rationale = true

section

variable {reviewId : String}

/-- Between other text, the marker is in the part that has brackets. -/
theorem marker_infix_middle {before middle after : List Char} (hb : Unbracketed before)
    (ha : Unbracketed after) :
    (idempotencyMarker reviewId).toList <:+: before ++ (middle ++ after) ↔
      (idempotencyMarker reviewId).toList <:+: middle := by
  rw [toList_idempotencyMarker, Substrings.cons_infix_append_iff hb.1, ← List.cons_append,
    Substrings.concat_infix_append_iff ha.2]

theorem not_infix_marker {text : List Char} (h : Unbracketed text) :
    ¬ (idempotencyMarker reviewId).toList <:+: text := by
  rw [toList_idempotencyMarker]
  exact Substrings.not_infix_of_head h.1

theorem PlainId.not_mem_marker (h : PlainId reviewId) {c : Char} (hc : c ∈ ['\x60', '\n']) :
    c ∉ (idempotencyMarker reviewId).toList := by
  have htext : c ∉ markerText reviewId := h.not_mem_markerText (by simp_all)
  simp only [List.mem_cons, List.not_mem_nil, or_false] at hc
  rw [toList_idempotencyMarker]
  rcases hc with rfl | rfl <;> simp [htext]

/-- One review's marker is not part of another one's. -/
theorem marker_infix_marker {reviewId' : String} (h : PlainId reviewId) (h' : PlainId reviewId') :
    (idempotencyMarker reviewId).toList <:+: (idempotencyMarker reviewId').toList ↔
      reviewId = reviewId' := by
  constructor
  · intro hinfix
    rw [toList_idempotencyMarker, toList_idempotencyMarker, List.infix_cons_iff] at hinfix
    rcases hinfix with hprefix | hlater
    · simp only [List.cons_prefix_cons, true_and, markerText, List.append_assoc,
        List.prefix_append_right_inj] at hprefix
      have hspace : ' ' ∉ reviewId.toList := h.not_mem (by decide) (by decide)
      have hspace' : ' ' ∉ reviewId'.toList := h'.not_mem (by decide) (by decide)
      exact String.toList_inj.mp (Substrings.eq_of_append_cons_prefix hspace hspace' hprefix)
    · exact absurd hlater (Substrings.not_infix_of_head (by simp [h'.not_mem_markerText]))
  · rintro rfl
    exact List.infix_rfl

/-- The line about a finding without a place carries a marker exactly when the finding does. -/
theorem marker_infix_findingLine (h : PlainId reviewId) (finding : Finding) :
    (idempotencyMarker reviewId).toList <:+:
        (s!"- `{finding.filePath}:{finding.lineStart}` -- {formatFindingBody finding}").toList ↔
      finding.Quotes reviewId := by
  have hplace : Unbracketed (":" ++ toString finding.lineStart).toList := by
    rw [String.toList_append]
    exact Unbracketed.append (by decide) (unbracketed_nat _)
  have hkind : Unbracketed (s!" -- {severityEmoji finding.severity.value} **" ++
      s!"{finding.severity.value}** ({finding.agentType.value} / ").toList := by
    cases finding.severity <;> cases finding.agentType <;>
      decide +kernel
  have hconfidence : Unbracketed (s!", confidence {finding.confidence.str})").toList := by
    simp only [String.toList_append, toString]
    exact (Unbracketed.append (by decide) (unbracketed_decimalStr _ _)).append
      (by decide)
  have hline : (s!"- `{finding.filePath}:{finding.lineStart}` -- {formatFindingBody finding}").toList =
      (['-', ' '] ++ '\x60' :: ([] ++ (finding.filePath.toList ++
          (":" ++ toString finding.lineStart).toList))) ++
        '\x60' :: ((s!" -- {severityEmoji finding.severity.value} **" ++
          s!"{finding.severity.value}** ({finding.agentType.value} / ").toList ++
          (finding.category.toList ++ (s!", confidence {finding.confidence.str})").toList)) ++
        '\n' :: ([] ++ '\n' :: finding.rationale.toList) := by
    simp [formatFindingBody, toString]
  have hnil : Unbracketed [] := by decide
  have hdash : Unbracketed ['-', ' '] := by decide
  have htick := h.not_mem_marker (c := '\x60') (by simp)
  have hnewline := h.not_mem_marker (c := '\n') (by simp)
  rw [hline, Substrings.infix_append_cons_iff hnewline, Substrings.infix_append_cons_iff hnewline,
    Substrings.infix_append_cons_iff htick, Substrings.infix_append_cons_iff htick,
    marker_infix_middle hnil hplace, marker_infix_middle hkind hconfidence]
  simp only [not_infix_marker hnil, not_infix_marker hdash, false_or, Finding.Quotes, strIn,
    decide_eq_true_eq, or_assoc]

/-- The lines about the findings without a place carry a marker exactly when one of these
findings does. -/
theorem marker_infix_degradedLines (h : PlainId reviewId) (degradedFindings : List Finding) :
    (∃ line ∈ degradedLines degradedFindings,
        (idempotencyMarker reviewId).toList <:+: line.toList) ↔
      ∃ finding ∈ degradedFindings, finding.Quotes reviewId := by
  have hblank : ¬ (idempotencyMarker reviewId).toList <:+: "".toList :=
    not_infix_marker (by decide)
  unfold degradedLines
  split
  · rename_i hempty
    rw [List.isEmpty_iff.mp hempty]
    simp
  · simp only [List.cons_append, List.nil_append, List.mem_cons, List.mem_flatMap,
      List.not_mem_nil, or_false]
    constructor
    · rintro ⟨line, rfl | rfl | rfl | ⟨finding, hfinding, rfl | rfl⟩, hinfix⟩
      · exact absurd hinfix hblank
      · exact absurd hinfix (not_infix_marker (by decide +kernel))
      · refine absurd hinfix (not_infix_marker ?_)
        simp only [String.toList_append]
        exact Unbracketed.append (Unbracketed.append (by decide +kernel) (by decide +kernel))
          (by decide +kernel)
      · exact absurd hinfix hblank
      · exact ⟨finding, hfinding, (marker_infix_findingLine h finding).mp hinfix⟩
    · rintro ⟨finding, hfinding, hquotes⟩
      exact ⟨_, Or.inr (Or.inr (Or.inr ⟨finding, hfinding, Or.inr rfl⟩)),
        (marker_infix_findingLine h finding).mpr hquotes⟩

/-- A summary carries the marker of its own review, and of those that the findings shown in it
quote. -/
theorem carries_formatSummaryBody_iff {review : Review} (h : PlainId reviewId)
    (hreview : PlainId review.reviewId) (degradedFindings : List Finding) (mappedCount : ℕ) :
    (ExistingReview.mk (formatSummaryBody review degradedFindings mappedCount)).carries reviewId =
        true ↔
      reviewId = review.reviewId ∨ ∃ finding ∈ degradedFindings, finding.Quotes reviewId := by
  have hcounts : Unbracketed (s!"**{review.findings.length}** finding(s), overall confidence " ++
      s!"**{review.overallConfidence.str}** -- {mappedCount} posted inline, " ++
        s!"{degradedFindings.length} below.").toList := by
    have hconfidence : Unbracketed (toString review.overallConfidence.str).toList :=
      unbracketed_decimalStr _ _
    have hnumber : ∀ n : ℕ, Unbracketed (toString n).toList := unbracketed_nat
    simp only [String.toList_append]
    repeat' with_reducible apply Unbracketed.append
    all_goals first
      | with_reducible exact hnumber _
      | with_reducible exact hconfidence
      | decide +kernel
  have hnewline := h.not_mem_marker (c := '\n') (by simp)
  have hne : (idempotencyMarker reviewId).toList ≠ [] := by
    simp [toList_idempotencyMarker]
  rw [ExistingReview.carries, strIn, decide_eq_true_eq, formatSummaryBody,
    String.toList_intercalate, show "\n".toList = ['\n'] by decide,
    Substrings.infix_intercalate_iff hnewline hne]
  have hblank : ¬ (idempotencyMarker reviewId).toList <:+: "".toList :=
    not_infix_marker (by decide)
  have htitle : ¬ (idempotencyMarker reviewId).toList <:+: "## pr-review-agent review".toList :=
    not_infix_marker (by decide +kernel)
  simp only [List.map_append, List.map_cons, List.map_nil, List.mem_append, List.mem_cons,
    List.not_mem_nil, or_false, or_and_right, exists_or, exists_eq_left, hblank, htitle,
    not_infix_marker hcounts, false_or, marker_infix_marker h hreview, List.mem_map]
  rw [or_comm, ← marker_infix_degradedLines h]
  simp

end

/-- The findings of a review that have no place in the diff of the changed files. -/
def Review.unplaced (review : Review) (changedFiles : List ChangedFile) : List Finding :=
  match buildDiffIndex changedFiles with
  | .ok diffIndex => (partitionFindings diffIndex review.findings).2
  | .error _ => []

/-- A rendered review carries the marker of another one exactly when one of its findings without a
place quotes it. -/
theorem reviewRequest_carries_iff {review : Review} {reviewId : String}
    {changedFiles : List ChangedFile} {body : CreateReviewRequest} (h : PlainId reviewId)
    (hreview : PlainId review.reviewId) (hne : review.reviewId ≠ reviewId)
    (hrequest : reviewRequest review changedFiles = .ok body) :
    (ExistingReview.mk body.body).carries reviewId = true ↔
      ∃ finding ∈ review.unplaced changedFiles, finding.Quotes reviewId := by
  obtain ⟨diffIndex, hindex, -, hbody⟩ := reviewRequest_ok hrequest
  rw [hbody, carries_formatSummaryBody_iff h hreview, or_iff_right (fun heq => hne heq.symm),
    Review.unplaced, hindex]

/-- Among the reviews the check looks at, one is `review` as rendered for some changed files, with
a finding without a place there that quotes the marker. -/
def QuotedOnFirstPage (review : Review) (reviewId : String) (reviews : List ExistingReview) :
    Prop :=
  ∃ changedFiles body, reviewRequest review changedFiles = .ok body ∧
    ⟨body.body⟩ ∈ reviews.take filesPageSize ∧
      ∃ finding ∈ review.unplaced changedFiles, finding.Quotes reviewId

/-- The reviews of the pull request are those at the start, and renderings of `review` after
them, each from a request of the log. -/
def Rendered (review : Review) (rs : List ExistingReview) (s : Ledger) : Prop :=
  ∃ added, s.reviews review.pullRequest = rs ++ added ∧ ∀ r ∈ added,
    ∃ changedFiles body, reviewRequest review changedFiles = .ok body ∧ r = ⟨body.body⟩ ∧
      ∃ sent ∈ s.log, sent.request = .createReview review.pullRequest body

/-- Alone on the ledger; each request is a rendering of the review, or posts nothing. -/
def rendering (review : Review) : Contract Ledger where
  rely s s' := s' = s
  guarantee s s' := ∃ sent, s' = s.send sent ∧ Renders review sent

section

variable {review : Review} {client : RealGitHubClient} {inst : ℕ → ℕ} {i : ℕ}
  {rs : List ExistingReview}

theorem Rendered.send {s : Ledger} {sent : Sent} (h : Rendered review rs s)
    (hsent : Renders review sent) : Rendered review rs (s.send sent) := by
  obtain ⟨added, hreviews, hadded⟩ := h
  have hkept : ∀ r ∈ added, ∃ changedFiles body, reviewRequest review changedFiles = .ok body ∧
      r = ⟨body.body⟩ ∧ ∃ sent' ∈ (s.send sent).log,
        sent'.request = .createReview review.pullRequest body := by
    intro r hr
    obtain ⟨changedFiles, body, hrequest, heq, sent', hmem, hreq⟩ := hadded r hr
    exact ⟨changedFiles, body, hrequest, heq, sent', List.mem_cons_of_mem _ hmem, hreq⟩
  by_cases hpost : ∃ pr body, sent.request = .createReview pr body
  · obtain ⟨pr, body, hreq⟩ := hpost
    obtain ⟨rfl, changedFiles, hrequest⟩ := hsent pr body hreq
    by_cases heffect : sent.sending.takesEffect = true
    · refine ⟨added ++ [⟨body.body⟩], ?_, ?_⟩
      · simp [Ledger.send, heffect, hreq, GitHubRequest.effect, hreviews]
      · intro r hr
        rcases List.mem_append.mp hr with hr | hr
        · exact hkept r hr
        · exact ⟨changedFiles, body, hrequest, List.mem_singleton.mp hr, sent, List.mem_cons_self,
            hreq⟩
    · exact ⟨added, by simpa [Ledger.send, heffect] using hreviews, hkept⟩
  · have hnone : ∀ pr body, sent.request ≠ .createReview pr body := by simpa using hpost
    exact ⟨added, by rw [Ledger.send_reviews hnone, hreviews], hkept⟩

/-- After a post there are renderings of its review on the pull request, and nothing else new. -/
theorem rendered_of_run {w w' : GuardWorld GitHubWorld} {es : List SessionEvent} {p : Session Unit}
    (hrun : (gitHubMachine inst).run i w (client.postReviewComment review) es = some (w', p)) :
    Rendered review (w.dep.reviews review.pullRequest) w'.dep.ledger := by
  have hkeeps : Keeps (gitHubMachine inst) (rendering review) i (fun _ => True)
      (client.postReviewComment review) :=
    keeps_postReviewComment (fun _ _ _ _ => trivial) fun _ sent _ hsent _ =>
      ⟨⟨sent, rfl, hsent⟩, trivial⟩
  refine hkeeps.run_invariant (I := Says (Rendered review (w.dep.reviews review.pullRequest)))
    (fun _ _ _ h => gitHub_move_rely (gitHubMachine inst).within_self h) trivial hrun
    (says_stable fun s s' hs h => hs ▸ h) ?_ ⟨[], by simp [GitHubWorld.ledger], by simp⟩
  rintro v v' (hd | hl | ⟨sent, hl, hsent⟩) hv
  · simpa only [Says, hd] using hv
  · simpa only [Says, hl] using hv
  · simpa only [Says, hl] using hv.send hsent

/-- After a post, the first page carries the marker of another review that was not there exactly
when a finding without a place quotes it. -/
theorem marked_iff_quoted {reviewId : String} {s : Ledger} (h : PlainId reviewId)
    (hreview : PlainId review.reviewId) (hne : review.reviewId ≠ reviewId)
    (hunposted : marked reviewId rs = false) (hs : Rendered review rs s) :
    marked reviewId ((s.reviews review.pullRequest).take filesPageSize) = true ↔
      QuotedOnFirstPage review reviewId (s.reviews review.pullRequest) := by
  obtain ⟨added, hreviews, hadded⟩ := hs
  rw [marked, List.any_eq_true]
  constructor
  · rintro ⟨r, hr, hcarries⟩
    have hmem : r ∈ rs ++ added := hreviews ▸ List.mem_of_mem_take hr
    rcases List.mem_append.mp hmem with hold | hnew
    · rw [marked, List.any_eq_false] at hunposted
      exact absurd hcarries (hunposted r hold)
    · obtain ⟨changedFiles, body, hrequest, rfl, -⟩ := hadded r hnew
      exact ⟨changedFiles, body, hrequest, hr,
        (reviewRequest_carries_iff h hreview hne hrequest).mp hcarries⟩
  · rintro ⟨changedFiles, body, hrequest, hr, hquotes⟩
    exact ⟨_, hr, (reviewRequest_carries_iff h hreview hne hrequest).mpr hquotes⟩

/-- A post on the same pull request as an earlier one, of a review that is not there yet, is issued
exactly when the first page does not hold the earlier review with a finding without a place that
quotes the later one's marker; and such a finding is what makes a rendered review carry it. -/
theorem later_post_issued_iff {earlier later : Review} {client' : RealGitHubClient} {k : ℕ}
    {w w₁ w₂ : GuardWorld GitHubWorld} {es₁ es₂ : List SessionEvent} {p : Session Unit}
    (hearlier : PlainId earlier.reviewId) (hlater : PlainId later.reviewId)
    (hne : earlier.reviewId ≠ later.reviewId) (hpr : earlier.pullRequest = later.pullRequest)
    (hunposted : marked later.reviewId (w.dep.reviews later.pullRequest) = false)
    (hfirst : (gitHubMachine inst).run i w (client.postReviewComment earlier) es₁ = some (w₁, p))
    (hsecond : (gitHubMachine inst).run k w₁ (client'.postReviewComment later) es₂ =
      some (w₂, .done (.ok ()))) :
    (posts w₂.dep.log ≠ posts w₁.dep.log ↔
        ¬ QuotedOnFirstPage earlier later.reviewId (w₁.dep.reviews later.pullRequest)) ∧
      ∀ changedFiles body, reviewRequest earlier changedFiles = .ok body →
        ((ExistingReview.mk body.body).carries later.reviewId = true ↔
          ∃ finding ∈ earlier.unplaced changedFiles, finding.Quotes later.reviewId) := by
  have hmarked := marked_iff_quoted hlater hearlier hne hunposted (hpr ▸ rendered_of_run hfirst)
  rw [hpr] at hmarked
  refine ⟨not_congr (Iff.trans ?_ hmarked), fun _ _ => reviewRequest_carries_iff hlater hearlier hne⟩
  exact ⟨marked_of_posts_eq hsecond, posts_eq_of_marked hsecond⟩

end

/-- Without inline comments, every finding is one without a place. -/
theorem partitionFindings_of_no_comments {diffIndex : DiffIndex} {findings : List Finding}
    (h : (partitionFindings diffIndex findings).1 = []) :
    (partitionFindings diffIndex findings).2 = findings := by
  induction findings with
  | nil => rfl
  | cons finding findings ih =>
    simp only [partitionFindings] at h ⊢
    split at h
    · rw [ih h]
    · cases h

theorem unplaced_of_no_comments {review : Review} {changedFiles : List ChangedFile}
    {body : CreateReviewRequest} (h : reviewRequest review changedFiles = .ok body)
    (hcomments : body.comments = []) : review.unplaced changedFiles = review.findings := by
  obtain ⟨diffIndex, hindex, hplaced, -⟩ := reviewRequest_ok h
  rw [Review.unplaced, hindex]
  exact partitionFindings_of_no_comments (hplaced ▸ hcomments)

/-- A finding on a line outside the diff, whose rationale quotes the marker of another review. -/
def quotingFinding : Finding :=
  { Finding.sample with
    rationale := "Emits <!-- pr-review-agent:review_id=webhook-2 -->"
    rationale_length := by decide +kernel }

def quotingReview : Review :=
  { Review.sample with
    findings := [quotingFinding]
    overallConfidence := .ofThousandths 900 Confidence.nineTenths_le
    overallConfidence_matches := by decide +kernel }

def otherReview : Review :=
  { Review.sample with
    reviewId := "webhook-2"
    reviewId_length := by decide }

abbrev quotingPost : Session Unit := (RealGitHubClient.default "1").postReviewComment quotingReview

abbrev otherPost : Session Unit := (RealGitHubClient.default "1").postReviewComment otherReview

/-- The request posts a review without inline comments, or posts none. -/
def Sent.withoutComments (sent : Sent) : Bool :=
  match sent.request with
  | .createReview _ body => body.comments.isEmpty
  | _ => true

/-- A review that nobody has posted cannot be posted any more once another one has been, whose
finding outside the diff quotes its marker. -/
theorem quoted_marker_suppresses :
    PlainId quotingReview.reviewId ∧ PlainId otherReview.reviewId ∧
      quotingReview.reviewId ≠ otherReview.reviewId ∧
      quotingReview.pullRequest = otherReview.pullRequest ∧
      marked otherReview.reviewId ((reviewedWorld []).dep.reviews otherReview.pullRequest) = false ∧
      ∃ w₁, (gitHubMachine id).run 0 (reviewedWorld []) quotingPost postGoesThrough =
          some (w₁, .done (.ok ())) ∧
        (posts w₁.dep.log).length = 1 ∧
        ∀ es w₂ p, (gitHubMachine id).run 1 w₁ otherPost es = some (w₂, p) →
          posts w₂.dep.log = posts w₁.dep.log := by
  have hrun : (gitHubMachine id).returns 0 (reviewedWorld []) quotingPost postGoesThrough
      (fun _ w₁ => decide ((posts w₁.dep.log).length = 1) &&
        decide ((w₁.dep.reviews quotingReview.pullRequest).length = 1) &&
        w₁.dep.log.all Sent.withoutComments) = true := by
    decide +kernel
  obtain ⟨w₁, u, hfirst, hcheck⟩ := Machine.exists_of_returns hrun
  simp only [Bool.and_eq_true, decide_eq_true_eq] at hcheck
  obtain ⟨⟨hposts, hone⟩, hcomments⟩ := hcheck
  have hplain : PlainId quotingReview.reviewId := by decide +kernel
  have hplain' : PlainId otherReview.reviewId := by decide +kernel
  have hne : quotingReview.reviewId ≠ otherReview.reviewId := by decide
  have hunposted : marked otherReview.reviewId
      ((reviewedWorld []).dep.reviews otherReview.pullRequest) = false := by decide +kernel
  have hrendered := rendered_of_run hfirst
  have hquoted : QuotedOnFirstPage quotingReview otherReview.reviewId
      (w₁.dep.reviews quotingReview.pullRequest) := by
    obtain ⟨added, hreviews, hadded⟩ := hrendered
    have hreviews' : w₁.dep.reviews quotingReview.pullRequest = added := hreviews
    obtain ⟨r, hr⟩ := List.length_eq_one_iff.mp (hreviews' ▸ hone)
    obtain ⟨changedFiles, body, hrequest, rfl, sent, hsent, hreq⟩ := hadded r (by simp [hr])
    have hnone : body.comments = [] := by
      simpa [Sent.withoutComments, hreq] using List.all_eq_true.mp hcomments sent hsent
    have hpage : (⟨body.body⟩ : ExistingReview) ∈
        (w₁.dep.reviews quotingReview.pullRequest).take filesPageSize := by
      rw [hreviews', hr]
      exact List.mem_singleton.mpr rfl
    refine ⟨changedFiles, body, hrequest, hpage, quotingFinding, ?_, ?_⟩
    · rw [unplaced_of_no_comments hrequest hnone]
      exact List.mem_singleton.mpr rfl
    · exact Or.inr (Or.inr (by decide +kernel))
  have hmarked := (marked_iff_quoted hplain' hplain hne hunposted hrendered).mpr hquoted
  have hnever : ∀ es w₂ p, (gitHubMachine id).run 1 w₁ otherPost es = some (w₂, p) →
      posts w₂.dep.log = posts w₁.dep.log := by
    intro es w₂ p hsecond
    exact posts_eq_of_marked hsecond hmarked
  exact ⟨hplain, hplain', hne, rfl, hunposted, w₁, hfirst, hposts, hnever⟩

/-- A review with a finding on a line outside the diff, whose rationale quotes nothing. -/
def outsideReview : Review :=
  { quotingReview with
    findings := [Finding.sample]
    overallConfidence_matches := by decide +kernel }

abbrev outsidePost : Session Unit := (RealGitHubClient.default "1").postReviewComment outsideReview

/-- A review with a finding outside the diff is posted, and then another one. -/
theorem later_post_issued_outside :
    ∃ w₁ w₂, (gitHubMachine id).run 0 (reviewedWorld []) outsidePost postGoesThrough =
        some (w₁, .done (.ok ())) ∧
      (gitHubMachine id).run 1 w₁ otherPost postGoesThrough = some (w₂, .done (.ok ())) ∧
      (posts w₁.dep.log).length = 1 ∧ (posts w₂.dep.log).length = 2 ∧
      outsideReview.unplaced [] = [Finding.sample] ∧
      ¬ QuotedOnFirstPage outsideReview otherReview.reviewId
        (w₁.dep.reviews otherReview.pullRequest) := by
  have hrun : (gitHubMachine id).returns 0 (reviewedWorld []) outsidePost postGoesThrough
      (fun _ w₁ => decide ((posts w₁.dep.log).length = 1) &&
        (gitHubMachine id).returns 1 w₁ otherPost postGoesThrough fun _ w₂ =>
          decide ((posts w₂.dep.log).length = 2)) = true := by
    decide +kernel
  obtain ⟨w₁, u, hfirst, hcheck⟩ := Machine.exists_of_returns hrun
  rw [Bool.and_eq_true, decide_eq_true_eq] at hcheck
  obtain ⟨w₂, u', hsecond, hlength⟩ := Machine.exists_of_returns hcheck.2
  rw [decide_eq_true_eq] at hlength
  have hissued : posts w₂.dep.log ≠ posts w₁.dep.log := by
    intro hsame
    rw [hsame, hcheck.1] at hlength
    exact absurd hlength (by decide)
  have hpr : outsideReview.pullRequest = otherReview.pullRequest := rfl
  have hresult := later_post_issued_iff (by decide +kernel) (by decide +kernel) (by decide) hpr
    (by decide +kernel) hfirst hsecond
  exact ⟨w₁, w₂, hfirst, hsecond, hcheck.1, hlength, rfl, hresult.1.mp hissued⟩

end ReviewAgent
