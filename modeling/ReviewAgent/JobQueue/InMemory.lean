import Mathlib.Algebra.Field.Rat
import Mathlib.Data.Finset.Insert
import Mathlib.Data.NNRat.Defs
import ReviewAgent.JobQueue.RedisArq

/-! The job queue as its callers see it, and the process-local one. -/
namespace ReviewAgent

/-- A queue on a state of its own: what a call returns or raises, and what time does to it. -/
structure JobQueue (σ : Type) where
  enqueue : WebhookEvent → σ → Except Exc EnqueueResult × σ
  elapse : ℚ≥0 → σ → σ

/-- What happens to a queue. -/
inductive QueueStep where
  | enqueue (event : WebhookEvent)
  | advance (seconds : ℚ≥0)

/-- What the calls return, in order, and the state they leave. -/
def JobQueue.run {σ : Type} (queue : JobQueue σ) :
    σ → List QueueStep → List (Except Exc EnqueueResult) × σ
  | s, [] => ([], s)
  | s, .enqueue event :: steps =>
    let (result, s') := queue.enqueue event s
    let (results, s'') := queue.run s' steps
    (result :: results, s'')
  | s, .advance seconds :: steps => queue.run (queue.elapse seconds s) steps

/-- The delivery ids already seen, and the jobs in the order they were accepted. -/
structure InMemoryJobQueue where
  seenDeliveryIds : Finset String := ∅
  jobs : List WebhookEvent := []

namespace InMemoryJobQueue

variable (q : InMemoryJobQueue)

def enqueue (event : WebhookEvent) : EnqueueResult × InMemoryJobQueue :=
  if event.deliveryId ∈ q.seenDeliveryIds then (⟨false, event.deliveryId⟩, q)
  else
    (⟨true, event.deliveryId⟩,
      { q with
        seenDeliveryIds := insert event.deliveryId q.seenDeliveryIds
        jobs := q.jobs ++ [event] })

/-- It never raises, and nothing of it expires. -/
def asJobQueue : JobQueue InMemoryJobQueue where
  enqueue event q := (.ok (q.enqueue event).1, (q.enqueue event).2)
  elapse _ q := q

variable {q} {event : WebhookEvent}

theorem enqueue_seen (h : event.deliveryId ∈ q.seenDeliveryIds) :
    q.enqueue event = (⟨false, event.deliveryId⟩, q) := if_pos h

theorem enqueue_unseen (h : event.deliveryId ∉ q.seenDeliveryIds) : q.enqueue event =
    (⟨true, event.deliveryId⟩,
      ⟨insert event.deliveryId q.seenDeliveryIds, q.jobs ++ [event]⟩) := if_neg h

end InMemoryJobQueue

/-- Of several jobs with one delivery id, the first. -/
def firstPerDelivery (jobs : List WebhookEvent) : List WebhookEvent :=
  jobs.foldl (fun kept event =>
    if kept.any fun e => e.deliveryId = event.deliveryId then kept else kept ++ [event]) []

section

variable {jobs : List WebhookEvent} {event : WebhookEvent} {d : String}

theorem firstPerDelivery_concat : firstPerDelivery (jobs ++ [event]) =
    if (firstPerDelivery jobs).any fun e => e.deliveryId = event.deliveryId then
      firstPerDelivery jobs
    else firstPerDelivery jobs ++ [event] := by
  rw [firstPerDelivery, List.foldl_concat]
  rfl

/-- Every delivery keeps a job. -/
theorem firstPerDelivery_any : ((firstPerDelivery jobs).any fun e => e.deliveryId = d) =
    jobs.any fun e => e.deliveryId = d := by
  induction jobs using List.reverseRecOn with
  | nil => rfl
  | append_singleton jobs event ih =>
    rw [firstPerDelivery_concat, List.any_append, ← ih]
    split
    · rename_i hkept
      by_cases hd : event.deliveryId = d
      · rw [← hd, hkept, Bool.true_or]
      · simp [hd]
    · rw [List.any_append]

end

end ReviewAgent
