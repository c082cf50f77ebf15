import Mathlib.Algebra.GroupWithZero.Nat
import Mathlib.Data.Nat.Notation

/-! The ingress contract: a parsed and validated `pull_request` webhook. -/
namespace ReviewAgent

/-- `[0-9a-f]`. -/
def isLowerHex (c : Char) : Bool := ('0' ≤ c && c ≤ '9') || ('a' ≤ c && c ≤ 'f')

/-- `^[0-9a-f]{40}$`. -/
def isHeadSha (s : String) : Bool := s.toList.length == 40 && s.toList.all isLowerHex

/-- The groups of a canonical lowercase UUID. -/
def uuidGroups : List ℕ := [8, 4, 4, 4, 12]

/-- Match groups of lowercase hex digits of the given lengths, joined by hyphens. -/
def matchesGroups : List ℕ → List Char → Bool
  | [], cs => cs.isEmpty
  | [n], cs => cs.length == n && cs.all isLowerHex
  | n :: ns, cs =>
    (cs.take n).length == n && (cs.take n).all isLowerHex &&
      match cs.drop n with
      | '-' :: rest => matchesGroups ns rest
      | _ => false

/-- `^[0-9a-f]{8}-[0-9a-f]{4}-[0-9a-f]{4}-[0-9a-f]{4}-[0-9a-f]{12}$`. -/
def isDeliveryId (s : String) : Bool := matchesGroups uuidGroups s.toList

/-- Groups that match, and the hyphens between them, make up the whole text. -/
theorem matchesGroups_length {groups : List ℕ} {cs : List Char} (hne : groups ≠ [])
    (h : matchesGroups groups cs = true) : cs.length + 1 = groups.sum + groups.length := by
  fun_induction matchesGroups groups cs with
  | case1 cs => exact absurd rfl hne
  | case2 cs n =>
    simp only [Bool.and_eq_true, beq_iff_eq] at h
    simp [h.1]
  | case3 n ns cs hns ih =>
    simp only [Bool.and_eq_true, beq_iff_eq] at h
    have htake : (cs.take n).length = n := h.1.1
    have hdrop : (cs.drop n).length = cs.length - n := List.length_drop
    obtain ⟨-, h⟩ := h
    split at h
    · rename_i rest hrest
      have hlength := ih rest hns h
      rw [List.length_take] at htake
      simp only [hrest, List.length_cons, List.sum_cons] at hdrop ⊢
      omega
    · cases h

theorem isDeliveryId_length {deliveryId : String} (h : isDeliveryId deliveryId = true) :
    deliveryId.length = 36 := by
  have hlength := matchesGroups_length (by decide) h
  rw [String.length_toList] at hlength
  have hgroups : uuidGroups.sum + uuidGroups.length = 37 := by decide
  omega

theorem isHeadSha_length {s : String} (h : isHeadSha s = true) : s.length = 40 := by
  simp only [isHeadSha, Bool.and_eq_true, beq_iff_eq] at h
  exact h.1

structure WebhookEvent where
  action : String
  prNumber : ℕ
  repositoryOwner : String
  repositoryName : String
  headSha : String
  deliveryId : String
  receivedAt : String
  action_length : 1 ≤ action.length ∧ action.length ≤ 50
  prNumber_pos : 0 < prNumber
  repositoryOwner_length : 1 ≤ repositoryOwner.length ∧ repositoryOwner.length ≤ 255
  repositoryName_length : 1 ≤ repositoryName.length ∧ repositoryName.length ≤ 255
  headSha_shape : isHeadSha headSha
  deliveryId_shape : isDeliveryId deliveryId

/-- The example of the schema. -/
def WebhookEvent.sample : WebhookEvent where
  action := "opened"
  prNumber := 12345
  repositoryOwner := "myorg"
  repositoryName := "myapp"
  headSha := "abc123def456abc123def456abc123def456abc1"
  deliveryId := "12345678-1234-1234-1234-123456789012"
  receivedAt := "2025-01-15T10:30:00Z"
  action_length := by decide
  prNumber_pos := by decide
  repositoryOwner_length := by decide
  repositoryName_length := by decide
  headSha_shape := by decide
  deliveryId_shape := by decide

end ReviewAgent
