import Mathlib.Data.List.Forall2
import ReviewAgent.Integrations.DiffHistory
import ReviewAgent.Integrations.DiffLines
import ReviewAgent.Integrations.MarkerCheck

/-! Where the findings of a posted review go: each into one inline comment or into one block of the
summary. -/
namespace ReviewAgent

open Effects

/-- The diff shows the finding's line, on one of its sides. -/
def DiffIndex.hasPlace (index : DiffIndex) (finding : Finding) : Bool :=
  match index.files finding.filePath with
  | none => false
  | some fileIndex =>
    decide (finding.lineStart ∈ fileIndex.rightLines ∨ finding.lineStart ∈ fileIndex.leftLines)

/-- The comment is on the finding's line, and on the right side of it if the diff shows that. -/
structure CommentsOn (index : DiffIndex) (finding : Finding) (comment : ReviewCommentInput) :
    Prop where
  path : comment.path = finding.filePath
  line : comment.line = finding.lineStart
  side : ∃ fileIndex, index.files comment.path = some fileIndex ∧
    match comment.side with
    | .right => comment.line ∈ fileIndex.rightLines
    | .left => comment.line ∈ fileIndex.leftLines ∧ comment.line ∉ fileIndex.rightLines
  rationale : strIn finding.rationale comment.body = true

/-- The block of the summary about one finding. -/
def findingBlock (finding : Finding) : String :=
  "\n\n" ++ s!"- `{finding.filePath}:{finding.lineStart}` -- {formatFindingBody finding}"

/-- What stands in front of the blocks, if there are any. -/
def blocksHeading (below : List Finding) : String :=
  if below.isEmpty then ""
  else "\n\n" ++ "### Additional findings (could not be anchored to a specific diff line)" ++ "\n" ++
    ("_These findings' reported line numbers do not correspond to a line " ++
      "this diff actually touches or shows as context (a stale line number, " ++
      "or a file outside this PR) -- shown here instead of being dropped._")

/-- A summary with its three counts, and a block for each finding that is below. -/
def summaryWith (review : Review) (inline : ℕ) (below : List Finding) : String :=
  "## pr-review-agent review" ++ "\n\n" ++
    (s!"**{review.findings.length}** finding(s), overall confidence " ++
      s!"**{review.overallConfidence.str}** -- {inline} posted inline, " ++
      s!"{below.length} below.") ++
    blocksHeading below ++ String.join (below.map findingBlock) ++ "\n\n" ++
    idempotencyMarker review.reviewId

/-- The request has every finding of the review once: those with a place in the diff as comments,
the others in the summary, in the order of the review. -/
structure Accounts (review : Review) (index : DiffIndex) (request : CreateReviewRequest) :
    Prop where
  comments : List.Forall₂ (CommentsOn index) (review.findings.filter index.hasPlace)
    request.comments
  summary : request.body = summaryWith review request.comments.length
    (review.findings.filter fun finding => !index.hasPlace finding)

theorem rationale_in_body (finding : Finding) :
    strIn finding.rationale (formatFindingBody finding) = true := by
  simp only [strIn, formatFindingBody, toString, String.toList_append, decide_eq_true_eq]
  exact ((List.suffix_append _ _).trans (List.suffix_append _ _)).isInfix

theorem hasPlace_iff {index : DiffIndex} {finding : Finding} : index.hasPlace finding =
    (mapFindingToAnchor finding.filePath finding.lineStart index).isSome := by
  unfold DiffIndex.hasPlace mapFindingToAnchor
  cases index.files finding.filePath with
  | none => rfl
  | some fileIndex =>
    by_cases hright : finding.lineStart ∈ fileIndex.rightLines
    · simp [hright]
    · by_cases hleft : finding.lineStart ∈ fileIndex.leftLines
      · simp [hright, hleft]
      · simp [hright, hleft]

theorem commentsOn_anchor {index : DiffIndex} {finding : Finding} {anchor : CommentAnchor}
    {comment : ReviewCommentInput}
    (h : mapFindingToAnchor finding.filePath finding.lineStart index = some anchor)
    (hpath : comment.path = anchor.path) (hline : comment.line = anchor.line)
    (hside : comment.side = anchor.side) (hbody : comment.body = formatFindingBody finding) :
    CommentsOn index finding comment := by
  obtain ⟨hfile, hnumber⟩ := mapFindingToAnchor_eq h
  refine ⟨hpath.trans hfile, hline.trans hnumber, ?_, hbody ▸ rationale_in_body finding⟩
  rw [hpath, hline, hside, hfile, hnumber]
  unfold mapFindingToAnchor at h
  split at h
  · cases h
  · rename_i fileIndex hindex
    refine ⟨fileIndex, hindex, ?_⟩
    split at h
    · cases h
      assumption
    · split at h <;> cases h
      exact ⟨‹_›, ‹_›⟩

theorem partitionFindings_spec (index : DiffIndex) (findings : List Finding) :
    List.Forall₂ (CommentsOn index) (findings.filter index.hasPlace)
        (partitionFindings index findings).1 ∧
      (partitionFindings index findings).2 =
        findings.filter fun finding => !index.hasPlace finding := by
  induction findings with
  | nil => exact ⟨.nil, rfl⟩
  | cons finding findings ih =>
    cases hrest : partitionFindings index findings with
    | mk mappable degraded =>
    rw [hrest] at ih
    obtain ⟨hcomments, hbelow⟩ := ih
    have hplace := @hasPlace_iff index finding
    simp only [partitionFindings, hrest]
    split
    · rename_i hnone
      rw [hnone] at hplace
      rw [List.filter_cons_of_neg (by simp [hplace]), List.filter_cons_of_pos (by simp [hplace])]
      exact ⟨hcomments, congrArg _ hbelow⟩
    · rename_i anchor hsome
      rw [hsome] at hplace
      rw [List.filter_cons_of_pos (by simp [hplace]), List.filter_cons_of_neg (by simp [hplace])]
      exact ⟨.cons (commentsOn_anchor hsome rfl rfl rfl rfl) hcomments, hbelow⟩

/-- Blocks joined with the lines around them. -/
theorem intercalate_blocks {α : Type} (sep : String) (item : α → String) (front last : String)
    (as : List α) : sep.intercalate (front :: (as.flatMap fun a => ["", item a]) ++ ["", last]) =
      front ++ String.join (as.map fun a => sep ++ sep ++ item a) ++ (sep ++ sep) ++ last := by
  induction as generalizing front with
  | nil => simp [String.intercalate_cons_cons, String.append_assoc]
  | cons a as ih =>
    have hrest := ih (item a)
    simp only [List.flatMap_cons, List.cons_append, List.nil_append,
      String.intercalate_cons_cons, List.map_cons, String.join_cons] at hrest ⊢
    rw [hrest]
    simp only [String.append_assoc, String.empty_append]

theorem formatSummaryBody_eq (review : Review) (below : List Finding) (inline : ℕ) :
    formatSummaryBody review below inline = summaryWith review inline below := by
  have hfeeds : "\n\n" = "\n" ++ "\n" := by decide
  have hblock : findingBlock = fun finding : Finding => "\n" ++ "\n" ++
      s!"- `{finding.filePath}:{finding.lineStart}` -- {formatFindingBody finding}" := by
    funext finding
    rw [findingBlock, hfeeds]
  unfold formatSummaryBody summaryWith degradedLines blocksHeading
  simp only [hfeeds, hblock]
  generalize "\n" = sep
  generalize idempotencyMarker review.reviewId = marker
  cases below with
  | nil => simp [String.intercalate_cons_cons, String.append_assoc]
  | cons finding findings =>
    have hblocks := intercalate_blocks sep
      (fun finding => s!"- `{finding.filePath}:{finding.lineStart}` -- {formatFindingBody finding}")
      ("_These findings' reported line numbers do not correspond to a line " ++
        "this diff actually touches or shows as context (a stale line number, " ++
        "or a file outside this PR) -- shown here instead of being dropped._")
      marker (finding :: findings)
    simp only [List.isEmpty_cons, Bool.false_eq_true, if_false, List.cons_append, List.nil_append,
      String.intercalate_cons_cons] at hblocks ⊢
    rw [hblocks]
    simp only [String.append_assoc, String.empty_append]

theorem reviewRequest_accounts {review : Review} {changedFiles : List ChangedFile}
    {request : CreateReviewRequest} (h : reviewRequest review changedFiles = .ok request) :
    ∃ index, buildDiffIndex changedFiles = .ok index ∧ Accounts review index request := by
  obtain ⟨index, hindex, hplaced, hbody⟩ := reviewRequest_ok h
  obtain ⟨hcomments, hbelow⟩ := partitionFindings_spec index review.findings
  refine ⟨index, hindex, hplaced ▸ hcomments, ?_⟩
  rw [hbody, ← hbelow, hplaced, ← formatSummaryBody_eq]

/-- Every patch can be read: `int` takes the numbers of all its headers. -/
def ReadableFiles (changedFiles : List ChangedFile) : Prop :=
  ∀ file ∈ changedFiles, ∀ patch, file.patch = some patch →
    ∀ line ∈ splitLines patch.toList, Legible line

theorem PatchWalk.step_of_legible (w : PatchWalk) {line : List Char} (h : Legible line) :
    ∃ w', w.step line = .ok w' := by
  cases hheader : matchHunkHeader line with
  | some numbers => exact ⟨_, PatchWalk.step_header hheader h⟩
  | none =>
    cases hin : w.inHunk with
    | true => exact ⟨_, PatchWalk.step_plain hin hheader⟩
    | false =>
      refine ⟨w, ?_⟩
      simp [PatchWalk.step, hheader, hin]
      rfl

theorem parsePatch_ok_iff (patch : String) : (∃ index, parsePatch patch = .ok index) ↔
    ∀ line ∈ splitLines patch.toList, Legible line := by
  have hwalk : ∀ (lines : List (List Char)) (w : PatchWalk), (∀ line ∈ lines, Legible line) →
      ∃ w', lines.foldlM PatchWalk.step w = .ok w' := by
    intro lines
    induction lines with
    | nil => exact fun w _ => ⟨w, rfl⟩
    | cons line lines ih =>
      intro w hlegible
      obtain ⟨w₁, hstep⟩ := w.step_of_legible (hlegible line (by simp))
      rw [List.foldlM_cons, hstep]
      exact ih w₁ fun l hl => hlegible l (by simp [hl])
  unfold parsePatch
  constructor
  · rintro ⟨index, hindex⟩
    cases h : (splitLines patch.toList).foldlM PatchWalk.step {} with
    | error e =>
      rw [h] at hindex
      cases hindex
    | ok w => exact PatchWalk.legible_of_walk h
  · intro hlegible
    obtain ⟨w, h⟩ := hwalk _ {} hlegible
    exact ⟨w.index, by rw [h]; rfl⟩

theorem buildDiffIndex_ok_iff (changedFiles : List ChangedFile) :
    (∃ index, buildDiffIndex changedFiles = .ok index) ↔ ReadableFiles changedFiles := by
  unfold buildDiffIndex
  generalize ({} : DiffIndex) = d
  induction changedFiles generalizing d with
  | nil =>
    simp only [ReadableFiles, List.not_mem_nil, false_implies, implies_true, iff_true]
    exact ⟨d, rfl⟩
  | cons file files ih =>
    have hreadable : ReadableFiles (file :: files) ↔
        (∀ patch, file.patch = some patch → ∀ line ∈ splitLines patch.toList, Legible line) ∧
          ReadableFiles files := by
      simp [ReadableFiles]
    rw [hreadable, List.foldlM_cons]
    cases hpatch : file.patch with
    | none => simpa using ih (d.set file.filename {})
    | some patch =>
      cases hparse : parsePatch patch with
      | error e =>
        have hbad := (parsePatch_ok_iff patch).not.mp (by simp [hparse])
        constructor
        · rintro ⟨index, hindex⟩
          simp only [hparse] at hindex
          cases hindex
        · rintro ⟨hpatches, -⟩
          exact absurd (hpatches patch rfl) hbad
      | ok index =>
        have hgood := (parsePatch_ok_iff patch).mp ⟨index, hparse⟩
        have hpatches : ∀ p, some patch = some p → ∀ line ∈ splitLines p.toList, Legible line := by
          intro p hp
          exact Option.some.inj hp ▸ hgood
        rw [and_iff_right hpatches]
        simp only [hparse]
        exact ih (d.set file.filename index)

theorem reviewRequest_ok_iff (review : Review) (changedFiles : List ChangedFile) :
    (∃ request, reviewRequest review changedFiles = .ok request) ↔ ReadableFiles changedFiles := by
  rw [← buildDiffIndex_ok_iff]
  cases hindex : buildDiffIndex changedFiles with
  | error e => simp [reviewRequest, hindex]
  | ok index => simp [reviewRequest, hindex]

/-- No value of the key has been used. -/
def Unused (key : DiffKey) (h : GitHubHistory) : Prop := ∀ value, ¬ Used key value h

/-- The cache is asked, and a value is stored, before any value of the key is used; the review is
posted as rendered for the changed files of a used value. -/
def usesOne (review : Review) (h : GitHubHistory) : GuardOp GitHubSignature → Prop
  | .dep (.cachedDiff _) | .dep (.storeDiff ..) => Unused ⟨review.pullRequest, review.headSha⟩ h
  | .dep (.http (.createReview pr body) _) => pr = review.pullRequest ∧ ∃ value,
    Used ⟨review.pullRequest, review.headSha⟩ value h ∧
      reviewRequest review value.changedFiles = .ok body
  | _ => True

/-- An operation that uses no diff and posts no review. -/
def Undiffed : GuardOp GitHubSignature → Prop
  | .dep (.cachedDiff _) | .dep (.storeDiff ..) | .dep (.http (.createReview ..) _) => False
  | _ => True

section

variable {client : RealGitHubClient} {owner repo appId headers : String} {installationId : ℤ}
  {review : Review} {pr : PullRequest} {key : DiffKey} {α : Type} {h : GitHubHistory}
  {op : GuardOp GitHubSignature} {answer : (Guarded GitHubSignature).Answer op}

theorem undiffed_of_bookkeeping (hop : ∀ o, op ≠ .dep o) : Undiffed op := by
  cases op with
  | dep o => exact absurd rfl (hop o)
  | _ => trivial

theorem undiffed_of_resolves (hop : ResolvesInstallation op) : Undiffed op := by
  unfold Undiffed
  split <;> simp_all [ResolvesInstallation]

theorem unused_cons (hop : Undiffed op) (hh : Unused key h) : Unused key (⟨op, answer⟩ :: h) := by
  rintro value ⟨o, ho, huses⟩
  rcases List.mem_cons.mp ho with rfl | ho
  · rcases huses with heq | heq
    · cases heq
      exact hop
    · cases heq
      exact hop
  · exact hh value ⟨o, ho, huses⟩

theorem usesOne_of_undiffed (hop : Undiffed op) : usesOne review h op := by
  unfold usesOne
  split
  · exact hop.elim
  · exact hop.elim
  · exact hop.elim
  · trivial

theorem unused_of_issues {p : Session α} (hp : p.Issues Undiffed) :
    Behaves (usesOne review) (Unused key) p (fun _ => Unused key) (Unused key) :=
  Behaves.of_issues (fun _ _ hop _ => usesOne_of_undiffed hop) (fun _ _ _ => unused_cons) hp

theorem reliably_issues {func : Session α} (hfunc : func.Issues Undiffed) :
    (client.callReliably func).Issues Undiffed :=
  callReliably_issues (fun _ hop _ => undiffed_of_bookkeeping hop) hfunc

theorem installationHeaders_issues :
    (client.installationHeaders owner repo).Issues Undiffed := by
  refine ⟨trivial, fun now => ?_⟩
  apply Program.issues_bind (mint_issues.mono fun _ => undiffed_of_resolves)
  intro appJwt
  apply Program.issues_bind
    (reliably_issues (authorize_issues.mono fun _ => undiffed_of_resolves))
  intro installationId
  exact reliably_issues (getToken_issues (fun _ => undiffed_of_resolves) trivial
    (fun _ => trivial) fun _ => trivial)

theorem changedFilesFrom_issues (remaining page : ℕ) (files : List ChangedFile) :
    (client.changedFilesFrom pr headers remaining page files).Issues Undiffed := by
  induction remaining generalizing page files with
  | zero => exact ⟨trivial, fun answer => answer.elim⟩
  | succ remaining ih =>
    have hattempt : (RealGitHubClient.attempt (.files pr filesPageSize page) headers).Issues
        Undiffed := attempt_issues trivial
    apply Program.issues_bind (reliably_issues hattempt)
    intro response
    apply Program.issues_bind (Program.issues_done _)
    intro batch
    split
    · trivial
    · split
      · trivial
      · exact ih (page + 1) _

theorem overBookkeeping_used {value : DiffAndFiles} : OverBookkeeping (Used key value) :=
  lasting_used.overBookkeeping

theorem allowsBookkeeping_usesOne : AllowsBookkeeping (usesOne review) :=
  fun _ _ hop => usesOne_of_undiffed (undiffed_of_bookkeeping hop)

/-- Some request posts a review. -/
def PostsReview (h : GitHubHistory) : Prop :=
  ∃ o ∈ h, ∃ pr body bearer, o.op = .dep (.http (.createReview pr body) bearer)

theorem lasting_postsReview : Lasting PostsReview :=
  fun _ _ hs ⟨o, hmem, hpost⟩ => ⟨o, hs hmem, hpost⟩

theorem uses_getDiffAndFiles : Behaves (usesOne review)
    (Unused ⟨review.pullRequest, review.headSha⟩)
    (client.getDiffAndFiles review.pullRequest review.headSha)
    (fun value => Used ⟨review.pullRequest, review.headSha⟩ value) fun _ => True := by
  apply Behaves.dep (R := fun (cached : Option DiffAndFiles) h => match cached with
    | none => Unused ⟨review.pullRequest, review.headSha⟩ h
    | some value => Used ⟨review.pullRequest, review.headSha⟩ value h)
  · exact fun h hh => hh
  · intro h cached hh
    cases cached with
    | none =>
      rintro value ⟨o, ho, huses⟩
      rcases List.mem_cons.mp ho with rfl | ho
      · rcases huses with heq | heq <;> cases heq
      · exact hh value ⟨o, ho, huses⟩
    | some value => exact ⟨_, List.mem_cons_self, Or.inl rfl⟩
  · rintro (_ | value)
    · intro h hh
      refine (unused_of_issues installationHeaders_issues h hh).bind (fun headers h hh => ?_)
        fun e h he => trivial
      have hdiff : (RealGitHubClient.attempt (.diff review.pullRequest) headers).Issues Undiffed :=
        attempt_issues trivial
      refine (unused_of_issues (reliably_issues hdiff) h hh).bind (fun response h hh => ?_)
        fun e h he => trivial
      have hfiles : (client.getChangedFiles review.pullRequest headers).Issues Undiffed :=
        ⟨trivial, fun rounds => changedFilesFrom_issues rounds 1 []⟩
      refine (unused_of_issues hfiles h hh).bind (fun changedFiles h hh => ?_) fun e h he => trivial
      exact ⟨hh, fun _ => ⟨_, List.mem_cons_self, Or.inr rfl⟩⟩
    · exact Behaves.pure fun h hh => hh

/-- A post that returns has used no diff, the review being there, or has posted the review. -/
theorem uses_postReviewComment : Behaves (usesOne review)
    (Unused ⟨review.pullRequest, review.headSha⟩) (client.postReviewComment review)
    (fun _ h => Unused ⟨review.pullRequest, review.headSha⟩ h ∨ PostsReview h) fun _ => True := by
  intro h hh
  refine (unused_of_issues installationHeaders_issues h hh).bind (fun headers h hh => ?_)
    fun e h he => trivial
  have hfind : (client.findExistingReviewIdMarker review.pullRequest headers
      review.reviewId).Issues Undiffed := by
    have hattempt : (RealGitHubClient.attempt (.reviews review.pullRequest filesPageSize)
        headers).Issues Undiffed := attempt_issues trivial
    apply Program.issues_bind (reliably_issues hattempt)
    intro response
    exact Program.issues_bind (Program.issues_done _) fun _ => Program.issues_done _
  refine (unused_of_issues hfind h hh).bind (fun alreadyPosted h hh => ?_) fun e h he => trivial
  show Program.Follows _ _ h (ite _ _ _)
  split
  · exact Or.inl hh
  · refine (uses_getDiffAndFiles h hh).bind (fun value h hused => ?_) fun e h he => trivial
    cases hbody : reviewRequest review value.changedFiles with
    | error e => exact trivial
    | ok body =>
      have hcreate : Behaves (usesOne review)
          (Used ⟨review.pullRequest, review.headSha⟩ value)
          (client.callReliably (RealGitHubClient.attempt (.createReview review.pullRequest body)
            headers)) (fun _ => PostsReview) fun _ => True := by
        apply Behaves.mono (Behaves.reliably allowsBookkeeping_usesOne
          overBookkeeping_used (fun _ => lasting_postsReview.overBookkeeping)
          (A := fun _ => PostsReview) _) (fun _ h => h) (fun _ _ h => h) fun _ _ => trivial
        have hlasting : Lasting (Used ⟨review.pullRequest, review.headSha⟩ value) := lasting_used
        apply behaves_attempt
        · exact fun h hused => ⟨rfl, value, hused, hbody⟩
        · exact fun h e hused => hlasting _ _ (List.subset_cons_self _ _) hused
        · exact fun h response _ hused => hlasting _ _ (List.subset_cons_self _ _) hused
        · exact fun h response _ _ => ⟨_, List.mem_cons_self, _, _, _, rfl⟩
      refine (hcreate h hused).bind (fun response h hposts => ?_) fun e h he => trivial
      cases response.json with
      | error e => exact trivial
      | ok posted => exact Or.inr hposts

end

/-- A history that keeps to it uses one value. -/
theorem used_unique {review : Review} {value value' : DiffAndFiles} {h : GitHubHistory}
    (hkept : Machine.Kept (usesOne review) h)
    (hused : Used ⟨review.pullRequest, review.headSha⟩ value h)
    (hused' : Used ⟨review.pullRequest, review.headSha⟩ value' h) : value = value' := by
  induction h with
  | nil =>
    obtain ⟨o, ho, -⟩ := hused
    cases ho
  | cons o h ih =>
    obtain ⟨hallowed, hkept⟩ := Machine.kept_cons_iff.mp hkept
    have hfirst : ∀ v, Uses ⟨review.pullRequest, review.headSha⟩ v o →
        Unused ⟨review.pullRequest, review.headSha⟩ h := by
      rintro v (rfl | rfl)
      · exact hallowed
      · exact hallowed
    obtain ⟨o₁, ho₁, huses₁⟩ := hused
    obtain ⟨o₂, ho₂, huses₂⟩ := hused'
    rcases List.mem_cons.mp ho₁ with rfl | hrest₁ <;>
      rcases List.mem_cons.mp ho₂ with rfl | hrest₂
    · rcases huses₁ with rfl | rfl
      · rcases huses₂ with heq | heq <;> cases heq
        rfl
      · rcases huses₂ with heq | heq <;> cases heq
        rfl
    · exact absurd ⟨o₂, hrest₂, huses₂⟩ (hfirst _ huses₁ value')
    · exact absurd ⟨o₁, hrest₁, huses₁⟩ (hfirst _ huses₂ value)
    · exact ih hkept ⟨o₁, hrest₁, huses₁⟩ ⟨o₂, hrest₂, huses₂⟩

/-- What is posted is one request, and that has every finding of the review once. -/
structure PostsAccounted (review : Review) (changedFiles : List ChangedFile) (h : GitHubHistory)
    (p : Session Unit) (request : CreateReviewRequest) : Prop where
  accounts : ∃ index, buildDiffIndex changedFiles = .ok index ∧ Accounts review index request
  posts : ∀ o ∈ h, ∀ pr body bearer, o.op = .dep (.http (.createReview pr body) bearer) →
    pr = review.pullRequest ∧ body = request
  posted : p = .done (.ok ()) → PostsReview h

/-- An operation that uses the changed files posts one request, with every finding in it once,
exactly if their patches can be read. -/
theorem posts_accounted_iff {client : RealGitHubClient} {inst : ℕ → ℕ} {i : ℕ} {review : Review}
    {value : DiffAndFiles} {w w' : GuardWorld GitHubWorld} {p : Session Unit}
    {es : List SessionEvent}
    (hrun : (gitHubMachine inst).run i w (client.postReviewComment review) es = some (w', p))
    (hused : Used ⟨review.pullRequest, review.headSha⟩ value
      ((gitHubMachine inst).occurrences i w (client.postReviewComment review) es)) :
    (∃ request, PostsAccounted review value.changedFiles
        ((gitHubMachine inst).occurrences i w (client.postReviewComment review) es) p request) ↔
      ReadableFiles value.changedFiles := by
  have hunused : Unused ⟨review.pullRequest, review.headSha⟩ [] := by
    rintro v ⟨o, ho, -⟩
    cases ho
  obtain ⟨hends, hkept⟩ := Machine.run_follows (@uses_postReviewComment client review [] hunused)
    Machine.kept_nil hrun
  rw [List.append_nil] at hends hkept
  constructor
  · rintro ⟨request, ⟨index, hindex, -⟩, -, -⟩
    exact (buildDiffIndex_ok_iff _).mp ⟨index, hindex⟩
  · intro hreadable
    obtain ⟨request, hrequest⟩ := (reviewRequest_ok_iff review _).mpr hreadable
    refine ⟨request, reviewRequest_accounts hrequest, ?_, ?_⟩
    · intro o ho pr body bearer hop
      obtain ⟨later, earlier, hsplit⟩ := List.append_of_mem ho
      have hallowed := hkept later o earlier hsplit
      rw [hop] at hallowed
      obtain ⟨hpr, value', ⟨o', ho', huses⟩, hbody⟩ := hallowed
      have hused' : Used ⟨review.pullRequest, review.headSha⟩ value'
          ((gitHubMachine inst).occurrences i w (client.postReviewComment review) es) :=
        ⟨o', by rw [hsplit]; simp [ho'], huses⟩
      obtain rfl := used_unique hkept hused hused'
      exact ⟨hpr, Except.ok.inj (hbody.symm.trans hrequest)⟩
    · rintro rfl
      rcases hends with hnone | hposts
      · exact absurd hused (hnone value)
      · exact hposts

/-- A review with a finding on the first line of a file, and one on its second line. -/
def Review.withFindings : Review :=
  { Review.sample with
    findings :=
      [.sample,
        { Finding.sample with
          lineStart := 2
          lineEnd := 2
          lineStart_pos := by decide
          lineStart_le := by decide }]
    overallConfidence := .ofThousandths 900 Confidence.nineTenths_le
    overallConfidence_matches := by decide +kernel }

def postFindings : Session Unit :=
  (RealGitHubClient.default "1").postReviewComment .withFindings

/-- A client that has fetched the given files of the pull request, and has no token. -/
def fetchedWorld (changedFiles : List ChangedFile) : GuardWorld GitHubWorld :=
  { warmWorld with
    dep :=
      { warmWorld.dep with
        clients := fun _ =>
          { resolved := fun _ => some 1
            diffs := fun _ => some ⟨"", changedFiles⟩ } } }

/-- The schedule of an exchange for a token. -/
def tokenExchanged : List SessionEvent :=
  [.act .go, .act (.dep .go), .act (.dep (.signs (.ok "jwt"))), .act (.dep .healthy),
    .act (.dep .go), .act .go]

/-- The schedule of a post up to the cached diff. -/
def readsDiff : List SessionEvent :=
  mintsJwt ++ lookupHits ++ tokenExchanged ++ requestAnswered ++ [.act (.dep .go)]

theorem exists_run_readsDiff (changedFiles : List ChangedFile) :
    ∃ w p, (gitHubMachine id).run 0 (fetchedWorld changedFiles) postFindings readsDiff =
      some (w, p) :=
  ⟨_, _, rfl⟩

theorem used_readsDiff (changedFiles : List ChangedFile) :
    Used ⟨Review.withFindings.pullRequest, Review.withFindings.headSha⟩ ⟨"", changedFiles⟩
      ((gitHubMachine id).occurrences 0 (fetchedWorld changedFiles) postFindings readsDiff) := by
  have hasked : ∃ w k, (gitHubMachine id).run 0 (fetchedWorld changedFiles) postFindings
      (mintsJwt ++ lookupHits ++ tokenExchanged ++ requestAnswered) =
        some (w, .step (.dep (.cachedDiff ⟨Review.withFindings.pullRequest,
          Review.withFindings.headSha⟩) : GuardOp GitHubSignature) k) ∧
      (w.dep.clients 0).diffs = fun _ => some ⟨"", changedFiles⟩ :=
    ⟨_, _, rfl, rfl⟩
  obtain ⟨w, k, hrun, hdiffs⟩ := hasked
  have hlast : (gitHubMachine id).perform 0 w (.dep (.cachedDiff
      ⟨Review.withFindings.pullRequest, Review.withFindings.headSha⟩)) (.dep .go) =
        some (w, some ⟨"", changedFiles⟩) := by
    simp [gitHubMachine, guarded, guardPerform, gitHub, hdiffs]
  rw [readsDiff, Machine.occurrences_append hrun]
  simp only [Machine.occurrences, hlast]
  exact ⟨_, by simp, Or.inl rfl⟩

/-- A file of one line. -/
def ChangedFile.oneLine : ChangedFile where
  filename := "a.py"
  patch := some "@@ -0,0 +1 @@\n+x"
  filename_length := by decide

/-- The schedule of a post that goes through. -/
def postsFindings : List SessionEvent := readsDiff ++ requestAnswered

/-- The review is posted, with one finding inline and one below. -/
theorem one_inline_one_below :
    ∃ w request, (gitHubMachine id).run 0 (fetchedWorld [.oneLine]) postFindings postsFindings =
        some (w, .done (.ok ())) ∧
      PostsAccounted .withFindings [.oneLine]
        ((gitHubMachine id).occurrences 0 (fetchedWorld [.oneLine]) postFindings postsFindings)
        (.done (.ok ())) request ∧
      PostsReview
        ((gitHubMachine id).occurrences 0 (fetchedWorld [.oneLine]) postFindings postsFindings) ∧
      request.comments.length = 1 := by
  have hreturns : (gitHubMachine id).returns 0 (fetchedWorld [.oneLine]) postFindings postsFindings
      (fun _ _ => true) = true := by
    decide +kernel
  obtain ⟨w, u, hrun, -⟩ := Machine.exists_of_returns hreturns
  have hindexed : (buildDiffIndex [.oneLine]).toOption.any (fun index =>
      decide ((Review.withFindings.findings.filter index.hasPlace).length = 1)) = true := by
    decide +kernel
  obtain ⟨index, hindex, hplaced⟩ : ∃ index, buildDiffIndex [.oneLine] = .ok index ∧
      (Review.withFindings.findings.filter index.hasPlace).length = 1 := by
    cases hindex : buildDiffIndex [.oneLine] with
    | error e =>
      rw [hindex] at hindexed
      cases hindexed
    | ok index =>
      rw [hindex] at hindexed
      exact ⟨index, rfl, of_decide_eq_true hindexed⟩
  have hused : Used ⟨Review.withFindings.pullRequest, Review.withFindings.headSha⟩ ⟨"", [.oneLine]⟩
      ((gitHubMachine id).occurrences 0 (fetchedWorld [.oneLine]) postFindings postsFindings) := by
    obtain ⟨w', p', hread⟩ := exists_run_readsDiff [.oneLine]
    obtain ⟨o, ho, huses⟩ := used_readsDiff [.oneLine]
    rw [postsFindings, Machine.occurrences_append hread]
    exact ⟨o, List.mem_append_right _ ho, huses⟩
  obtain ⟨request, haccounted⟩ := (posts_accounted_iff hrun hused).mpr
    ((buildDiffIndex_ok_iff _).mp ⟨index, hindex⟩)
  refine ⟨w, request, hrun, haccounted, haccounted.posted rfl, ?_⟩
  obtain ⟨index', hindex', haccounts⟩ := haccounted.accounts
  obtain rfl := Except.ok.inj (hindex.symm.trans hindex')
  rw [← haccounts.comments.length_eq]
  exact hplaced

/-- A hunk that starts at a line with 4301 digits. -/
def Hunk.far : Hunk where
  oldStart := 10 ^ intMaxStrDigits
  newStart := 1
  showsOldCount := false
  showsNewCount := false
  trailing := ""
  lines := []
  trailing_oneLine := Hunk.noTrailing_oneLine

/-- A file of one line, a form feed and the header of that hunk. -/
def Hunk.quotingFar : Hunk where
  oldStart := 0
  newStart := 1
  showsOldCount := true
  showsNewCount := false
  trailing := ""
  lines := [⟨.added, String.ofList (Char.ofNat 12 :: Hunk.far.ranges), by
    rw [String.toList_ofList, List.mem_cons, not_or]
    refine ⟨by decide, fun hin => ?_⟩
    exact absurd (Hunk.far.ranges_not_boundary '\n' hin) (by decide)⟩]
  trailing_oneLine := Hunk.noTrailing_oneLine

def ChangedFile.quotingFar : ChangedFile where
  filename := "a.py"
  patch := some (renderPatch [Hunk.quotingFar])
  filename_length := by decide

theorem not_readable_quotingFar : ¬ ReadableFiles [.quotingFar] := by
  intro hreadable
  have hlegible := (parsePatch_ok_iff (renderPatch [Hunk.quotingFar])).mpr
    (hreadable .quotingFar (by simp) _ rfl)
  obtain ⟨index, hindex⟩ := hlegible
  rw [parsePatch_render] at hindex
  cases hwalk : ([Hunk.quotingFar].flatMap Hunk.pieces).foldlM PatchWalk.step {} with
  | error e =>
    rw [hwalk] at hindex
    cases hindex
  | ok w =>
    have hlegible := legible_hunks hwalk .quotingFar (by simp)
    have hstray : Hunk.far.ranges ∈ Hunk.quotingFar.strayPieces := by
      have hrest : splitLines Hunk.far.ranges = [Hunk.far.ranges] := by
        have hone := splitLines_append (by simp [Hunk.ranges]) Hunk.far.ranges_not_boundary []
        simpa [firstLine, strays, splitLines] using hone
      have hcontent : strays (Char.ofNat 12 :: Hunk.far.ranges) = [Hunk.far.ranges] := by
        rw [strays, splitLines, if_pos (by decide), hrest]
        · rfl
        · intro more h
          exact absurd h (by decide)
      simp [Hunk.strayPieces, Hunk.quotingFar, hcontent]
    obtain ⟨hdigits, -⟩ := hlegible.2.2 _ hstray _ _
      (by simpa using Hunk.far.matchHunkHeader_ranges [])
    rw [digitValues, List.length_map, Nat.length_toDigits_le_iff (by decide) (by decide)] at hdigits
    exact lt_irrefl _ hdigits

theorem far_header_unposted :
    ∃ w p, (gitHubMachine id).run 0 (fetchedWorld [.quotingFar]) postFindings readsDiff =
        some (w, p) ∧
      Used ⟨Review.withFindings.pullRequest, Review.withFindings.headSha⟩ ⟨"", [.quotingFar]⟩
        ((gitHubMachine id).occurrences 0 (fetchedWorld [.quotingFar]) postFindings readsDiff) ∧
      ¬ ∃ request, PostsAccounted .withFindings [.quotingFar]
        ((gitHubMachine id).occurrences 0 (fetchedWorld [.quotingFar]) postFindings readsDiff)
        p request := by
  obtain ⟨w, p, hrun⟩ := exists_run_readsDiff [.quotingFar]
  refine ⟨w, p, hrun, used_readsDiff [.quotingFar], ?_⟩
  rintro ⟨request, ⟨index, hindex, -⟩, -, -⟩
  exact not_readable_quotingFar ((buildDiffIndex_ok_iff _).mp ⟨index, hindex⟩)

end ReviewAgent
