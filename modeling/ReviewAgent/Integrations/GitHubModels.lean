import Mathlib.Algebra.Order.Ring.Rat

/-! The parts of GitHub's REST payloads that the client reads or writes. -/
namespace ReviewAgent

/-- `InstallationTokenResponse`, with `expires_at` read as seconds since the epoch. -/
structure InstallationToken where
  token : String
  expiresAt : ℚ
  token_length : 1 ≤ token.length

/-- The token of the runs here. -/
theorem token_nonempty : 1 ≤ "token".length := by decide

structure CommitRef where
  sha : String
  ref : String
  sha_length : 1 ≤ sha.length
  ref_length : 1 ≤ ref.length

structure PullRequestMetadata where
  number : ℤ
  state : String
  head : CommitRef
  base : CommitRef

structure ChangedFile where
  filename : String
  patch : Option String
  filename_length : 1 ≤ filename.length

/-- `RIGHT` is the new file's numbering, `LEFT` the old one's. -/
inductive Side where
  | right | left
  deriving DecidableEq, Repr

structure ReviewCommentInput where
  path : String
  line : ℕ
  side : Side
  body : String
  path_length : 1 ≤ path.length
  line_pos : 0 < line
  body_length : 1 ≤ body.length

instance : DecidableEq ReviewCommentInput := fun c c' =>
  decidable_of_iff (c.path = c'.path ∧ c.line = c'.line ∧ c.side = c'.side ∧ c.body = c'.body)
    (ReviewCommentInput.mk.injEq .. ▸ Iff.rfl)

structure CreateReviewRequest where
  commitId : String
  body : String
  event : String := "COMMENT"
  comments : List ReviewCommentInput := []
  commitId_length : commitId.length = 40
  deriving DecidableEq

structure CreateReviewResponse where
  id : ℤ
  htmlUrl : String
  state : String

/-- A review that is on the pull request. -/
structure ExistingReview where
  body : String
  deriving DecidableEq

end ReviewAgent
