import Mathlib.Algebra.Order.Monoid.WithTop
import ReviewAgent.Effects.Steps
import ReviewAgent.Reliability.Timeout
import ReviewAgent.ServerQueue

/-! `run_with_timeout` on the executor that all dependencies share. -/
namespace ReviewAgent

open Effects

/-- On whose behalf a call is made. -/
inductive Dependency where
  | redis | llm | embedder
  deriving DecidableEq, Repr

/-- A callable and the policy it is run under: how long it runs once it is started, `⊤` if it hangs,
and how it ends. -/
structure BoundedCall where
  dependency : Dependency
  policy : TimeoutPolicy
  needs : WithTop ℚ
  outcome : Except Exc Unit
  needs_pos : 0 < needs

/-- What the executor has been handed. -/
structure WorkItem where
  id : ℕ
  call : BoundedCall
  submittedAt : ℚ

def WorkItem.deadline (item : WorkItem) : ℚ := item.submittedAt + item.call.policy.seconds

/-- A callable on a worker thread. -/
structure Started where
  item : WorkItem
  startedAt : ℚ

def Started.endsAt (r : Started) : WithTop ℚ := r.startedAt + r.item.call.needs

/-- What a caller gets, and when. -/
structure Report where
  item : WorkItem
  reportedAt : ℚ
  result : Except Exc Unit

/-- The executor and its callers. A thread stays with its callable until that ends, whether or not
the caller still waits. -/
structure Executor where
  workers : ℕ
  clock : ℚ := 0
  submitted : ℕ := 0
  queue : List WorkItem := []
  running : List Started := []
  finished : List Started := []
  waiting : List WorkItem := []
  reports : List Report := []

/-- What happens at the executor; callers and callables are picked by their position. -/
inductive ExecutorStep where
  -- `run_with_timeout` hands its callable to the executor and waits
  | submit (call : BoundedCall)
  -- an idle worker thread takes the next item
  | take
  -- a callable ends
  | finish (k : ℕ)
  -- a waiting caller finds its future done
  | collect (k : ℕ)
  -- a waiting caller finds its seconds over
  | expire (k : ℕ)
  | tick (seconds : ℚ)

namespace Executor

/-- What a future that is done holds. -/
def futureOf : Except Exc Unit → Future Unit
  | .ok value => .returned value
  | .error e => .raised e

variable (s : Executor)

/-- The callables that a thread has taken up. -/
def started : List Started := s.running ++ s.finished

/-- The caller of an item goes on. -/
def report (k : ℕ) (item : WorkItem) (future : Future Unit) : Executor :=
  { s with
    waiting := s.waiting.eraseIdx k
    reports := ⟨item, s.clock, awaitFuture item.call.policy future⟩ :: s.reports }

/-- Time goes on when no idle thread has an item to take, and no callable runs longer than it
needs. -/
def MayTick (seconds : ℚ) : Prop :=
  0 ≤ seconds ∧ (s.queue = [] ∨ s.workers ≤ s.running.length) ∧
    ∀ r ∈ s.running, ((s.clock + seconds : ℚ) : WithTop ℚ) ≤ r.endsAt

instance (seconds : ℚ) : Decidable (s.MayTick seconds) :=
  have : Decidable (s.queue = []) := decidable_of_iff _ List.isEmpty_iff
  have : Decidable (∀ r ∈ s.running, ((s.clock + seconds : ℚ) : WithTop ℚ) ≤ r.endsAt) :=
    List.decidableBAll _ _
  inferInstanceAs (Decidable (_ ∧ _ ∧ _))

def step : ExecutorStep → Option Executor
  | .submit call =>
    some
      { s with
        submitted := s.submitted + 1
        queue := s.queue ++ [⟨s.submitted, call, s.clock⟩]
        waiting := ⟨s.submitted, call, s.clock⟩ :: s.waiting }
  | .take =>
    match s.queue with
    | [] => none
    | item :: queue =>
      if s.running.length < s.workers then
        some { s with queue, running := ⟨item, s.clock⟩ :: s.running }
      else none
  | .finish k =>
    s.running[k]?.bind fun r =>
      if r.endsAt ≤ s.clock then
        some { s with running := s.running.eraseIdx k, finished := r :: s.finished }
      else none
  | .collect k =>
    s.waiting[k]?.bind fun item =>
      (s.finished.find? fun r => r.item.id = item.id).map fun r =>
        s.report k r.item (futureOf r.item.call.outcome)
  | .expire k =>
    s.waiting[k]?.bind fun item =>
      if item.deadline ≤ s.clock ∧ (s.finished.find? fun r => r.item.id = item.id) = none then
        some (s.report k item .pending)
      else none
  | .tick seconds => if s.MayTick seconds then some { s with clock := s.clock + seconds } else none

/-- When each thread is free, if nothing more is handed in. -/
def releases : Multiset (WithTop ℚ) :=
  (s.running.map Started.endsAt : List (WithTop ℚ)) +
    Multiset.replicate (s.workers - s.running.length) (s.clock : WithTop ℚ)

/-- The queue, each item with the time at which a thread will take it. -/
def schedule : List (WorkItem × WithTop ℚ) :=
  ServerQueue.schedule (fun item : WorkItem => item.call.needs) s.releases s.queue

/-- When a thread will take an item handed in now. -/
def nextStart : WithTop ℚ :=
  ServerQueue.nextStart (fun item : WorkItem => item.call.needs) s.releases s.queue

end Executor

/-- The caller got `CallTimedOutError`. -/
def Report.TimedOut (r : Report) : Prop :=
  ∃ e, r.result = .error e ∧ e.isInstance .callTimedOutError = true

/-- The callable of a report was started, and ran for the seconds of its policy. -/
def Executor.RanItsSeconds (s : Executor) (report : Report) : Prop :=
  ∃ r ∈ s.started, r.item = report.item ∧
    r.startedAt + report.item.call.policy.seconds ≤ report.reportedAt ∧
    (report.item.call.policy.seconds : WithTop ℚ) ≤ report.item.call.needs

/-- A timeout is reported only of a callable that ran for its seconds. -/
def Executor.TimesOutRightly (s : Executor) : Prop :=
  ∀ report ∈ s.reports, report.TimedOut → s.RanItsSeconds report

/-- The callable raises what its caller gets as a timeout. -/
def BoundedCall.RaisesTimeout (call : BoundedCall) : Prop :=
  ∃ e, call.outcome = .error e ∧
    (e.isInstance .timeoutError = true ∨ e.isInstance .callTimedOutError = true)

/-- Taken at `start`, a call handed in at `submittedAt` starts at once or ends in time. -/
def BoundedCall.InTime (call : BoundedCall) (submittedAt : ℚ) (start : WithTop ℚ) : Prop :=
  start ≤ submittedAt ∨ start + call.needs < ((submittedAt + call.policy.seconds : ℚ) : WithTop ℚ)

/-- Calls are made while the threads will take them at once, or early enough for them to end within
their seconds, and none raises a timeout of its own before. -/
def Executor.HasRoom (s : Executor) : ExecutorStep → Prop
  | .submit call => call.InTime s.clock s.nextStart ∧
    (call.RaisesTimeout → (call.policy.seconds : WithTop ℚ) ≤ call.needs)
  | _ => True

namespace Executor

variable {s s' : Executor} {item : WorkItem} {r : Started} {k : ℕ} {seconds : ℚ}

/-- What holds of the executor while every call finds room. -/
structure Sound (s : Executor) : Prop where
  threads : s.running.length ≤ s.workers
  ends : ∀ r ∈ s.running, (s.clock : WithTop ℚ) ≤ r.endsAt
  ended : ∀ r ∈ s.finished, r.endsAt ≤ s.clock
  queued : ∀ entry ∈ s.schedule, entry.1.call.InTime entry.1.submittedAt entry.2
  taken : ∀ r ∈ s.started, r.item.call.InTime r.item.submittedAt r.startedAt
  -- no callable raises a timeout of its own before its seconds are over
  honestQueued : ∀ item ∈ s.queue,
    item.call.RaisesTimeout → (item.call.policy.seconds : WithTop ℚ) ≤ item.call.needs
  honestStarted : ∀ r ∈ s.started,
    r.item.call.RaisesTimeout → (r.item.call.policy.seconds : WithTop ℚ) ≤ r.item.call.needs
  tracked : ∀ item ∈ s.waiting, item ∈ s.queue ∨ ∃ r ∈ s.started, r.item = item
  rightly : s.TimesOutRightly

theorem mem_started : r ∈ s.started ↔ r ∈ s.running ∨ r ∈ s.finished := List.mem_append

/-- Every thread is busy until now or longer. -/
theorem clock_le_release (h : ∀ r ∈ s.running, (s.clock : WithTop ℚ) ≤ r.endsAt) :
    ∀ t ∈ s.releases, (s.clock : WithTop ℚ) ≤ t := by
  intro t ht
  rcases Multiset.mem_add.mp ht with hrunning | hidle
  · obtain ⟨r, hr, rfl⟩ := List.mem_map.mp (Multiset.mem_coe.mp hrunning)
    exact h r hr
  · exact (Multiset.eq_of_mem_replicate hidle).ge

/-- Nothing in the queue is taken before now. -/
theorem clock_le_start (h : ∀ r ∈ s.running, (s.clock : WithTop ℚ) ≤ r.endsAt)
    {entry : WorkItem × WithTop ℚ} (hentry : entry ∈ s.schedule) :
    (s.clock : WithTop ℚ) ≤ entry.2 :=
  (Multiset.le_inf.mpr (clock_le_release h)).trans
    (ServerQueue.inf_le_start (fun item => item.call.needs_pos.le) hentry)

/-- An idle thread is free now. -/
theorem inf_releases (hidle : s.running.length < s.workers)
    (h : ∀ r ∈ s.running, (s.clock : WithTop ℚ) ≤ r.endsAt) : s.releases.inf = s.clock := by
  refine ServerQueue.inf_eq (Multiset.mem_add.mpr (Or.inr ?_)) (clock_le_release h)
  exact Multiset.mem_replicate.mpr ⟨by omega, rfl⟩

/-- The thread that takes an item is the first to be free. -/
theorem releases_take (hidle : s.running.length < s.workers)
    (h : ∀ r ∈ s.running, (s.clock : WithTop ℚ) ≤ r.endsAt) (queue : List WorkItem) :
    { s with queue, running := ⟨item, s.clock⟩ :: s.running : Executor }.releases =
      ServerQueue.assign s.releases item.call.needs := by
  obtain ⟨idle, hcount⟩ : ∃ idle, s.workers - s.running.length = idle + 1 :=
    ⟨s.workers - s.running.length - 1, by omega⟩
  have hsplit : s.releases = (s.clock : WithTop ℚ) ::ₘ
      ((s.running.map Started.endsAt : List (WithTop ℚ)) +
        Multiset.replicate idle (s.clock : WithTop ℚ)) := by
    rw [releases, hcount, Multiset.replicate_succ, Multiset.add_cons]
  have hrest : s.workers - (s.running.length + 1) = idle := by omega
  rw [ServerQueue.assign, inf_releases hidle h, hsplit, Multiset.erase_cons_head]
  simp only [releases, List.map_cons, List.length_cons, hrest, Started.endsAt,
    ← Multiset.cons_coe, Multiset.cons_add]

/-- A callable that ends leaves its thread free now. -/
theorem releases_finish (hk : s.running[k]? = some r) (hends : r.endsAt = s.clock)
    (hthreads : s.running.length ≤ s.workers) (finished : List Started) :
    { s with running := s.running.eraseIdx k, finished : Executor }.releases = s.releases := by
  obtain ⟨hlt, hget⟩ := List.getElem?_eq_some_iff.mp hk
  have hperm : (s.running.map Started.endsAt : Multiset (WithTop ℚ)) =
      (s.clock : WithTop ℚ) ::ₘ ((s.running.eraseIdx k).map Started.endsAt : List (WithTop ℚ)) := by
    rw [Multiset.cons_coe, Multiset.coe_eq_coe, ← hends, ← List.map_cons, ← hget]
    exact ((List.getElem_cons_eraseIdx_perm hlt).map _).symm
  have hlength : (s.running.eraseIdx k).length = s.running.length - 1 := by
    rw [List.length_eraseIdx_of_lt hlt]
  have hcount : s.workers - (s.running.length - 1) = s.workers - s.running.length + 1 := by omega
  simp only [releases, hlength, hcount, hperm, Multiset.replicate_succ, Multiset.add_cons,
    Multiset.cons_add]

/-- A future that is done gives a timeout only if its callable raised one. -/
theorem raisesTimeout_of_timedOut {t : ℚ} (h : (Report.mk item t
    (awaitFuture item.call.policy (futureOf item.call.outcome))).TimedOut) :
    item.call.RaisesTimeout := by
  obtain ⟨e, he, hclass⟩ := h
  cases houtcome : item.call.outcome with
  | ok value =>
    rw [houtcome] at he
    cases he
  | error raised =>
    refine ⟨raised, houtcome, ?_⟩
    rw [houtcome] at he
    by_cases htimeout : raised.isInstance .timeoutError = true
    · exact Or.inl htimeout
    · refine Or.inr ?_
      have hsame : raised = e := by simpa [futureOf, awaitFuture, htimeout] using he
      rw [hsame]
      exact hclass

/-- A caller goes on: what it is told is right if it is no timeout, or one of a callable that ran
for its seconds. -/
theorem Sound.report (h : s.Sound) {future : Future Unit}
    (hright : (Report.mk item s.clock (awaitFuture item.call.policy future)).TimedOut →
      s.RanItsSeconds ⟨item, s.clock, awaitFuture item.call.policy future⟩) :
    (s.report k item future).Sound where
  threads := h.threads
  ends := h.ends
  ended := h.ended
  queued := h.queued
  taken := h.taken
  honestQueued := h.honestQueued
  honestStarted := h.honestStarted
  tracked other hother := h.tracked other (List.mem_of_mem_eraseIdx hother)
  rightly report hreport htimeout := by
    rcases List.mem_cons.mp hreport with rfl | hold
    · exact hright htimeout
    · exact h.rightly report hold htimeout

theorem Sound.submit (h : s.Sound) {call : BoundedCall} (hroom : s.HasRoom (.submit call)) :
    Sound { s with
      submitted := s.submitted + 1
      queue := s.queue ++ [⟨s.submitted, call, s.clock⟩]
      waiting := ⟨s.submitted, call, s.clock⟩ :: s.waiting } where
  threads := h.threads
  ends := h.ends
  ended := h.ended
  queued entry hentry := by
    rw [schedule, ServerQueue.schedule_concat] at hentry
    rcases List.mem_append.mp hentry with hold | hnew
    · exact h.queued entry hold
    · rw [List.mem_singleton.mp hnew]
      exact hroom.1
  taken := h.taken
  honestQueued item hitem := by
    rcases List.mem_append.mp hitem with hold | hnew
    · exact h.honestQueued item hold
    · rw [List.mem_singleton.mp hnew]
      exact hroom.2
  honestStarted := h.honestStarted
  tracked item hitem := by
    rcases List.mem_cons.mp hitem with rfl | hold
    · exact Or.inl (by simp)
    · exact (h.tracked item hold).imp_left (List.mem_append_left _)
  rightly := h.rightly

theorem Sound.take (h : s.Sound) {queue : List WorkItem} (hqueue : s.queue = item :: queue)
    (hidle : s.running.length < s.workers) :
    Sound { s with queue, running := ⟨item, s.clock⟩ :: s.running } := by
  have hschedule : s.schedule = (item, (s.clock : WithTop ℚ)) ::
      schedule { s with queue, running := ⟨item, s.clock⟩ :: s.running } := by
    rw [schedule, schedule, hqueue, ServerQueue.schedule, inf_releases hidle h.ends,
      releases_take hidle h.ends]
  have hgrows : ∀ r ∈ s.started,
      r ∈ started { s with queue, running := ⟨item, s.clock⟩ :: s.running } :=
    fun r hr => List.mem_cons_of_mem _ hr
  refine ⟨hidle, ?_, h.ended, ?_, ?_, ?_, ?_, ?_, ?_⟩
  · intro r hr
    rcases List.mem_cons.mp hr with rfl | hold
    · exact le_add_of_nonneg_right item.call.needs_pos.le
    · exact h.ends r hold
  · intro entry hentry
    exact h.queued entry (by rw [hschedule]; exact List.mem_cons_of_mem _ hentry)
  · intro r hr
    rcases List.mem_cons.mp hr with rfl | hold
    · exact h.queued (item, s.clock) (by rw [hschedule]; exact List.mem_cons_self)
    · exact h.taken r hold
  · exact fun other hother => h.honestQueued other (by rw [hqueue]; exact List.mem_cons_of_mem _ hother)
  · intro r hr
    rcases List.mem_cons.mp hr with rfl | hold
    · exact h.honestQueued item (by rw [hqueue]; exact List.mem_cons_self)
    · exact h.honestStarted r hold
  · intro other hother
    rcases h.tracked other hother with hin | ⟨r, hr, hsame⟩
    · rw [hqueue] at hin
      rcases List.mem_cons.mp hin with rfl | hrest
      · exact Or.inr ⟨_, List.mem_cons_self, rfl⟩
      · exact Or.inl hrest
    · exact Or.inr ⟨r, hgrows r hr, hsame⟩
  · intro report hreport htimeout
    obtain ⟨r, hr, hran⟩ := h.rightly report hreport htimeout
    exact ⟨r, hgrows r hr, hran⟩

theorem Sound.finish (h : s.Sound) (hk : s.running[k]? = some r) (hends : r.endsAt ≤ s.clock) :
    Sound { s with running := s.running.eraseIdx k, finished := r :: s.finished } := by
  have hmem : r ∈ s.running := List.mem_of_getElem? hk
  have hnow : r.endsAt = s.clock := le_antisymm hends (h.ends r hmem)
  have hsame : ∀ other, other ∈ started
      { s with running := s.running.eraseIdx k, finished := r :: s.finished } ↔
        other ∈ s.started := by
    intro other
    obtain ⟨hlt, hget⟩ := List.getElem?_eq_some_iff.mp hk
    have hperm := (List.getElem_cons_eraseIdx_perm hlt).mem_iff (a := other)
    rw [hget, List.mem_cons] at hperm
    simp only [mem_started, List.mem_cons, ← hperm]
    tauto
  refine ⟨?_, fun other hother => h.ends other (List.mem_of_mem_eraseIdx hother), ?_, ?_, ?_,
    h.honestQueued, ?_, ?_, ?_⟩
  · exact (List.length_eraseIdx_le _ _).trans h.threads
  · intro other hother
    rcases List.mem_cons.mp hother with rfl | hold
    · exact hends
    · exact h.ended other hold
  · intro entry hentry
    rw [schedule, releases_finish hk hnow h.threads] at hentry
    exact h.queued entry hentry
  · exact fun other hother => h.taken other ((hsame other).mp hother)
  · exact fun other hother => h.honestStarted other ((hsame other).mp hother)
  · intro other hother
    refine (h.tracked other hother).imp_right ?_
    rintro ⟨r', hr', he⟩
    exact ⟨r', (hsame r').mpr hr', he⟩
  · intro report hreport htimeout
    obtain ⟨r', hr', hran⟩ := h.rightly report hreport htimeout
    exact ⟨r', (hsame r').mpr hr', hran⟩

theorem Sound.tick (h : s.Sound) (hmay : s.MayTick seconds) :
    Sound { s with clock := s.clock + seconds } := by
  obtain ⟨hnonneg, hbusy, hends⟩ := hmay
  refine ⟨h.threads, hends, ?_, ?_, h.taken, h.honestQueued, h.honestStarted, h.tracked,
    h.rightly⟩
  · intro r hr
    have hle : (s.clock : WithTop ℚ) ≤ ((s.clock + seconds : ℚ) : WithTop ℚ) := by
      exact_mod_cast le_add_of_nonneg_right hnonneg
    exact (h.ended r hr).trans hle
  · intro entry hentry
    rcases hbusy with hempty | hfull
    · rw [schedule, hempty] at hentry
      cases hentry
    · have hsame : releases { s with clock := s.clock + seconds } = s.releases := by
        simp only [releases, Nat.sub_eq_zero_of_le hfull, Multiset.replicate_zero]
      rw [schedule, hsame] at hentry
      exact h.queued entry hentry

/-- At its deadline a call that found room has been started, at once, and still runs. -/
theorem Sound.expired (h : s.Sound) (hk : s.waiting[k]? = some item)
    (hdeadline : item.deadline ≤ s.clock)
    (hnone : (s.finished.find? fun r => r.item.id = item.id) = none) (result : Except Exc Unit) :
    s.RanItsSeconds ⟨item, s.clock, result⟩ := by
  have hlate : (item.deadline : WithTop ℚ) ≤ s.clock := by exact_mod_cast hdeadline
  have hafter : item.submittedAt < s.clock :=
    (lt_add_of_pos_right _ item.call.policy.seconds_pos).trans_le hdeadline
  rcases h.tracked item (List.mem_of_getElem? hk) with hqueued | ⟨r, hr, rfl⟩
  · -- still in the queue: it would be taken too late
    obtain ⟨start, hstart⟩ : ∃ start, (item, start) ∈ s.schedule :=
      ServerQueue.exists_of_mem hqueued
    have hfuture : (s.clock : WithTop ℚ) ≤ start := clock_le_start h.ends hstart
    rcases h.queued (item, start) hstart with hnow | hends
    · have hle : (s.clock : WithTop ℚ) ≤ item.submittedAt := hfuture.trans hnow
      exact absurd (by exact_mod_cast hle) (not_le.mpr hafter)
    · have hlt : start < s.clock :=
        (le_add_of_nonneg_right item.call.needs_pos.le).trans_lt (hends.trans_le hlate)
      exact absurd hfuture (not_le.mpr hlt)
  · rcases mem_started.mp hr with hrunning | hfinished
    · have hruns : (s.clock : WithTop ℚ) ≤ r.startedAt + r.item.call.needs := h.ends r hrunning
      rcases h.taken r hr with hnow | hends
      · have hstarted : r.startedAt ≤ r.item.submittedAt := by exact_mod_cast hnow
        have hran : r.startedAt + r.item.call.policy.seconds ≤ s.clock :=
          (add_le_add_left hstarted _).trans hdeadline
        refine ⟨r, hr, rfl, hran, ?_⟩
        have hlong : ((r.startedAt + r.item.call.policy.seconds : ℚ) : WithTop ℚ) ≤
            r.startedAt + r.item.call.needs :=
          (show ((r.startedAt + r.item.call.policy.seconds : ℚ) : WithTop ℚ) ≤ s.clock by
            exact_mod_cast hran).trans hruns
        rw [WithTop.coe_add] at hlong
        exact WithTop.le_of_add_le_add_left WithTop.coe_ne_top hlong
      · exact absurd hruns (not_le.mpr (hends.trans_le hlate))
    · have hfound := List.find?_eq_none.mp hnone r hfinished
      simp at hfound

/-- A callable that raised a timeout of its own ran for its seconds. -/
theorem Sound.collected (h : s.Sound) (hr : r ∈ s.finished) (hraises : r.item.call.RaisesTimeout)
    (result : Except Exc Unit) : s.RanItsSeconds ⟨r.item, s.clock, result⟩ := by
  have hstarted : r ∈ s.started := mem_started.mpr (Or.inr hr)
  have hneeds := h.honestStarted r hstarted hraises
  refine ⟨r, hstarted, rfl, ?_, hneeds⟩
  have hran : ((r.startedAt + r.item.call.policy.seconds : ℚ) : WithTop ℚ) ≤ s.clock := by
    rw [WithTop.coe_add]
    exact (add_le_add_right hneeds _).trans (h.ended r hr)
  exact_mod_cast hran

theorem sound_step {a : ExecutorStep} (h : s.Sound) (hroom : s.HasRoom a)
    (hs : s.step a = some s') : s'.Sound := by
  cases a with
  | submit call =>
    cases hs
    exact h.submit hroom
  | take =>
    simp only [step] at hs
    split at hs
    · cases hs
    · rename_i item queue hqueue
      split at hs <;> cases hs
      exact h.take hqueue ‹_›
  | finish k =>
    obtain ⟨r, hk, hs⟩ := Option.bind_eq_some_iff.mp hs
    split at hs <;> cases hs
    exact h.finish hk ‹_›
  | collect k =>
    obtain ⟨item, -, hs⟩ := Option.bind_eq_some_iff.mp hs
    obtain ⟨r, hfound, rfl⟩ := Option.map_eq_some_iff.mp hs
    exact h.report fun htimeout =>
      h.collected (List.mem_of_find?_eq_some hfound) (raisesTimeout_of_timedOut htimeout) _
  | expire k =>
    obtain ⟨item, hk, hs⟩ := Option.bind_eq_some_iff.mp hs
    split at hs <;> cases hs
    rename_i hcond
    exact h.report fun _ => h.expired hk hcond.1 hcond.2 _
  | tick seconds =>
    simp only [step] at hs
    split at hs <;> cases hs
    exact h.tick ‹_›

/-- In every run in which every call finds room, whatever hangs and whoever called it, a timeout is
reported only of a callable that was started and ran for the seconds of its policy. -/
theorem timesOutRightly_of_room (workers : ℕ) (run : List ExecutorStep) (s : Executor)
    (hroom : EveryStep step (fun s a _ => s.HasRoom a) { workers } run)
    (hrun : steps step { workers } run = some s) : s.TimesOutRightly := by
  have hstart : Sound { workers } := by
    refine ⟨Nat.zero_le _, ?_, ?_, ?_, ?_, ?_, ?_, ?_, ?_⟩ <;> intro x hx <;> cases hx
  have hkeeps : ∀ s a s', Sound s → s.HasRoom a → s.step a = some s' → Sound s' :=
    fun _ _ _ => sound_step
  exact (steps_invariant hkeeps hstart hroom hrun).rightly

end Executor

/-- A Redis command that never comes back. -/
def hungRedis : BoundedCall where
  dependency := .redis
  policy := ⟨10, defaultTimeout_pos⟩
  needs := ⊤
  outcome := .ok ()
  needs_pos := WithTop.top_pos

theorem completionTimeout_pos : (0 : ℚ) < 30 := by decide +kernel

/-- A completion that would take a tenth of a second. -/
def promptCompletion : BoundedCall where
  dependency := .llm
  policy := ⟨30, completionTimeout_pos⟩
  needs := ((1 / 10 : ℚ) : WithTop ℚ)
  outcome := .ok ()
  needs_pos := by decide +kernel

/-- One command hangs, and is given up. -/
def oneHungCommand : List ExecutorStep := [.submit hungRedis, .take, .tick 10, .expire 0]

/-- A retried command hangs five times over, and then a completion is asked for. -/
def fiveHungCommands : List ExecutorStep :=
  (List.replicate 5 oneHungCommand).flatten ++ [.submit promptCompletion, .tick 30, .expire 0]

instance (r : Report) : Decidable r.TimedOut :=
  match h : r.result with
  | .ok _ => isFalse fun ⟨_, he, _⟩ => by simp [h] at he
  | .error e => decidable_of_iff (e.isInstance .callTimedOutError = true)
      ⟨fun hclass => ⟨e, h, hclass⟩, fun ⟨_, he, hclass⟩ => by
        rw [h] at he
        cases he
        exact hclass⟩

instance (call : BoundedCall) : Decidable call.RaisesTimeout :=
  match h : call.outcome with
  | .ok _ => isFalse fun ⟨_, he, _⟩ => by simp [h] at he
  | .error e =>
    decidable_of_iff (e.isInstance .timeoutError = true ∨ e.isInstance .callTimedOutError = true)
      ⟨fun hclass => ⟨e, h, hclass⟩, fun ⟨_, he, hclass⟩ => by
        rw [h] at he
        cases he
        exact hclass⟩

instance (s : Executor) : ∀ a, Decidable (s.HasRoom a)
  | .submit _ => inferInstanceAs (Decidable ((_ ∨ _) ∧ (_ → _)))
  | .take | .finish _ | .collect _ | .expire _ | .tick _ => isTrue trivial

/-- On the five threads of a machine with one processor the completion is reported as timed out,
though only Redis commands were ever started. -/
theorem completion_starved :
    ∃ s, steps Executor.step { workers := 5 } fiveHungCommands = some s ∧
      (∃ report ∈ s.reports, report.item.call.dependency = .llm ∧ report.TimedOut) ∧
      (∀ r ∈ s.started, r.item.call.dependency = .redis) ∧ ¬ s.TimesOutRightly := by
  have hrun : (steps Executor.step { workers := 5 } fiveHungCommands).any (fun s =>
      s.reports.any (fun r => r.item.call.dependency = .llm && decide r.TimedOut) &&
        s.started.all fun r => r.item.call.dependency = .redis) = true := by decide +kernel
  obtain ⟨s, hs, hfacts⟩ := (Option.any_eq_true _ _).mp hrun
  obtain ⟨hreport, hstarted⟩ := Bool.and_eq_true_iff.mp hfacts
  obtain ⟨report, hmem, hfact⟩ := List.any_eq_true.mp hreport
  have hllm : report.item.call.dependency = .llm := by simpa using (Bool.and_eq_true_iff.mp hfact).1
  have htimeout : report.TimedOut := by simpa using (Bool.and_eq_true_iff.mp hfact).2
  have hredis : ∀ r ∈ s.started, r.item.call.dependency = .redis := by simpa using hstarted
  refine ⟨s, hs, ⟨report, hmem, hllm, htimeout⟩, hredis, fun hright => ?_⟩
  obtain ⟨r, hr, hsame, -⟩ := hright report hmem htimeout
  have hboth := hredis r hr
  rw [hsame, hllm] at hboth
  cases hboth

/-- A command that hangs with a thread to spare is given up rightly. -/
theorem Executor.timesOutRightly_of_room_oneHungCommand :
    ∃ s, steps Executor.step { workers := 5 } oneHungCommand = some s ∧ s.TimesOutRightly := by
  obtain ⟨s, hs⟩ := Option.isSome_iff_exists.mp
    (show (steps Executor.step { workers := 5 } oneHungCommand).isSome = true by decide +kernel)
  exact ⟨s, hs, Executor.timesOutRightly_of_room 5 oneHungCommand s (by decide +kernel) hs⟩

end ReviewAgent
