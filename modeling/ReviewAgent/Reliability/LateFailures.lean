import ReviewAgent.Reliability.BreakerStates

/-! Failures reported to a breaker that is open already: each of them starts the window anew. -/
namespace ReviewAgent

open Effects

namespace BreakerWorld

variable {w w' : BreakerWorld} {s : BreakerStep} {run : List BreakerStep} {t : ℚ}
  {outcome : Except Exc Unit} {config : CircuitBreakerConfig} {name : String}

/-- A call admitted earlier fails while the breaker is open. -/
def FailsOpen (w : BreakerWorld) (s : BreakerStep) : Prop :=
  w.breaker.state = .opened ∧ ∃ i e, s = .finish i (.error e) ∧ Recorded (.error e)

/-- A call returns. -/
def Returns (s : BreakerStep) : Prop := ∃ i, s = .finish i (.ok ())

/-- A call failed at `t` while the breaker was open, and since then none has returned. -/
def FailedOpen (config : CircuitBreakerConfig) (name : String) (run : List BreakerStep) (t : ℚ) :
    Prop :=
  ∃ before s after u, run = before ++ s :: after ∧
    steps step (initial config name) before = some u ∧ u.FailsOpen s ∧ u.now = t ∧
    ∀ s' ∈ after, ¬ Returns s'

/-- A call failed while the breaker was open, within a reset window of `now`. -/
def Restamped (config : CircuitBreakerConfig) (name : String) (run : List BreakerStep) (now : ℚ) :
    Prop :=
  ∃ t, FailedOpen config name run t ∧ now < t + config.resetTimeoutSeconds

/-- The failure is the last step, or came before it and the step is no return. -/
theorem failedOpen_append (hrun : steps step (initial config name) run = some w) :
    FailedOpen config name (run ++ [s]) t ↔
      (FailedOpen config name run t ∧ ¬ Returns s) ∨ (w.FailsOpen s ∧ w.now = t) := by
  constructor
  · rintro ⟨before, s₀, after, u, hsplit, hu, hfails, hat, hafter⟩
    rcases List.eq_nil_or_concat after with rfl | ⟨rest, s', rfl⟩
    · obtain ⟨rfl, hs⟩ := List.append_inj' hsplit rfl
      obtain rfl := List.singleton_inj.mp hs
      obtain rfl := Option.some.inj (hrun.symm.trans hu)
      exact Or.inr ⟨hfails, hat⟩
    · have hsplit' : run ++ [s] = (before ++ s₀ :: rest) ++ [s'] := by simpa using hsplit
      obtain ⟨rfl, hs⟩ := List.append_inj' hsplit' rfl
      obtain rfl := List.singleton_inj.mp hs
      refine Or.inl ⟨⟨before, s₀, rest, u, rfl, hu, hfails, hat, ?_⟩, hafter s (by simp)⟩
      exact fun s' hs' => hafter s' (by simp [hs'])
  · rintro (⟨⟨before, s₀, after, u, rfl, hu, hfails, hat, hafter⟩, hreturns⟩ | ⟨hfails, hat⟩)
    · refine ⟨before, s₀, after ++ [s], u, by simp, hu, hfails, hat, ?_⟩
      intro s' hs'
      rcases List.mem_append.mp hs' with hs' | hs'
      · exact hafter s' hs'
      · exact List.mem_singleton.mp hs' ▸ hreturns
    · exact ⟨run, s, [], w, rfl, hrun, hfails, hat, by simp⟩

/-- Where the time an open breaker counts from comes from: its last opening, or a failure since.
Within a window of such a failure the breaker stays open. -/
structure Stamped (config : CircuitBreakerConfig) (name : String) (past : List BreakerStep)
    (w : BreakerWorld) : Prop where
  reached : steps step (initial config name) past = some w
  represents : w.breaker.Represents
  sameConfig : w.breaker.config = config
  stamp : w.breaker.state = .opened → ∃ t, w.breaker.openedAt = some t ∧
    (w.openings.head? = some t ∨ FailedOpen config name past t)
  failed : ∀ t, FailedOpen config name past t → t ≤ w.now ∧
    (w.now < t + config.resetTimeoutSeconds →
      w.breaker.state = .opened ∧ ∃ u, w.breaker.openedAt = some u ∧ t ≤ u)

theorem Stamped.initial (config : CircuitBreakerConfig) (name : String) :
    Stamped config name [] (initial config name) where
  reached := rfl
  represents := .fresh config name
  sameConfig := rfl
  stamp := nofun
  failed := by
    rintro t ⟨before, s, after, u, hsplit, -⟩
    simp at hsplit

/-- A step that records nothing leaves an open breaker as it is, but for an expiry that is due. -/
theorem Stamped.quiet (h : Stamped config name run w) (hw' : w.step s = some w')
    (hs : ∀ i outcome, s = .finish i outcome → ¬ Recorded outcome) (hnow : w.now ≤ w'.now)
    (hback : w'.breaker.state = .opened → w.breaker.state = .opened ∧
      w'.breaker.openedAt = w.breaker.openedAt ∧ w'.openings = w.openings)
    (hkeeps : w.breaker.state = .opened → ¬ w.breaker.due w.now = true →
      w'.breaker.state = .opened ∧ w'.breaker.openedAt = w.breaker.openedAt) :
    Stamped config name (run ++ [s]) w' := by
  have hsame : ∀ t, FailedOpen config name (run ++ [s]) t ↔ FailedOpen config name run t := by
    intro t
    rw [failedOpen_append h.reached]
    constructor
    · rintro (⟨hfailed, -⟩ | ⟨⟨-, i, e, rfl, he⟩, -⟩)
      · exact hfailed
      · exact absurd he (hs i _ rfl)
    · refine fun hfailed => Or.inl ⟨hfailed, ?_⟩
      rintro ⟨i, rfl⟩
      exact hs i _ rfl trivial
  refine ⟨?_, represents_step h.represents hw', (step_keeps hw').1.trans h.sameConfig, ?_, ?_⟩
  · rw [steps_append, h.reached]
    simpa [steps] using hw'
  · intro hopened
    obtain ⟨hs', hat, hopenings⟩ := hback hopened
    rw [hat, hopenings]
    simpa only [hsame] using h.stamp hs'
  · intro t ht
    obtain ⟨hle, hwait⟩ := h.failed t ((hsame t).mp ht)
    refine ⟨hle.trans hnow, fun hlt => ?_⟩
    obtain ⟨hs', u, hu, htu⟩ := hwait (hnow.trans_lt hlt)
    have hdue : ¬ w.breaker.due w.now = true := by
      intro hdue
      obtain ⟨-, v, hv, hle'⟩ := CircuitBreaker.due_iff.mp hdue
      obtain rfl := Option.some.inj (hu.symm.trans hv)
      rw [h.sameConfig] at hle'
      linarith
    obtain ⟨hs'', hat⟩ := hkeeps hs' hdue
    exact ⟨hs'', u, hat.trans hu, htu⟩

/-- The lock is taken for an admission or a look. -/
theorem Stamped.become (h : Stamped config name run w) {b : CircuitBreaker}
    (hw' : w.step s = some w') (hs : ∀ i outcome, s = .finish i outcome → ¬ Recorded outcome)
    (hbreaker : w'.breaker = (w.become b).breaker) (hopenings : w'.openings = (w.become b).openings)
    (hnow : w'.now = w.now) (hstate : b.state = (w.breaker.maybeExpireOpen w.now).state)
    (hat : b.openedAt = w.breaker.openedAt) : Stamped config name (run ++ [s]) w' := by
  rw [CircuitBreaker.maybeExpireOpen_state] at hstate
  refine h.quiet hw' hs hnow.ge ?_ ?_
  · intro hopened
    rw [hbreaker] at hopened
    have hb : b.state = .opened := hopened
    have hs' : w.breaker.state = .opened := by
      rw [hstate] at hb
      split at hb
      · cases hb
      · exact hb
    refine ⟨hs', by rw [hbreaker]; exact hat, ?_⟩
    rw [hopenings]
    simp [BreakerWorld.become, hs']
  · intro hs' hdue
    rw [hbreaker]
    rw [if_neg hdue, hs'] at hstate
    exact ⟨hstate, hat⟩

/-- A success closes the breaker; earlier failures count no more. -/
theorem Stamped.recordSuccess (h : Stamped config name run w) {i : ℕ}
    (hw' : w.step (.finish i (.ok ())) = some w') :
    Stamped config name (run ++ [.finish i (.ok ())]) w' := by
  obtain ⟨call, -, -, rfl⟩ := step_finish_some.mp hw'
  refine ⟨?_, represents_step h.represents hw', (step_keeps hw').1.trans h.sameConfig, nofun, ?_⟩
  · rw [steps_append, h.reached]
    simpa [steps] using hw'
  · intro t ht
    rcases (failedOpen_append h.reached).mp ht with ⟨-, hreturns⟩ | ⟨⟨-, j, e, he, -⟩, -⟩
    · exact absurd ⟨i, rfl⟩ hreturns
    · cases he

/-- A failure stamps an open breaker anew, and so it does when it opens it. -/
theorem Stamped.recordFailure (h : Stamped config name run w) {i : ℕ} {e : Exc}
    (he : e.isInstance .exception = true) (hw' : w.step (.finish i (.error e)) = some w') :
    Stamped config name (run ++ [.finish i (.error e)]) w' := by
  obtain ⟨call, -, -, hw⟩ := step_finish_some.mp hw'
  have hbreaker : w'.breaker = w.breaker.recordFailure w.now := by
    simp [hw, record, he, BreakerWorld.become]
  have hopenings : w'.openings = (w.become (w.breaker.recordFailure w.now)).openings := by
    simp [hw, record, he, BreakerWorld.become]
  have hnow : w'.now = w.now := by simp [hw, record, he, BreakerWorld.become]
  have hanew : w.breaker.state = .opened →
      (w.breaker.recordFailure w.now).state = .opened ∧
        (w.breaker.recordFailure w.now).openedAt = some w.now := by
    intro hs
    have hle := (h.represents.opened hs).1
    rw [CircuitBreaker.recordFailure, if_pos (Or.inr (by omega))]
    exact ⟨rfl, rfl⟩
  refine ⟨?_, represents_step h.represents hw', (step_keeps hw').1.trans h.sameConfig, ?_, ?_⟩
  · rw [steps_append, h.reached]
    simpa [steps] using hw'
  · intro hopened
    rw [hbreaker] at hopened ⊢
    by_cases hs : w.breaker.state = .opened
    · have hfails : w.FailsOpen (.finish i (.error e)) := ⟨hs, i, e, rfl, he⟩
      exact ⟨w.now, (hanew hs).2, Or.inr ((failedOpen_append h.reached).mpr (Or.inr ⟨hfails, rfl⟩))⟩
    · have hat := (CircuitBreaker.recordFailure_openedAt hopened).resolve_right fun hold => hs hold.1
      refine ⟨w.now, hat, Or.inl ?_⟩
      rw [hopenings]
      simp [BreakerWorld.become, hopened, hs]
  · intro t ht
    rw [hnow, hbreaker]
    rcases (failedOpen_append h.reached).mp ht with ⟨hfailed, -⟩ | ⟨⟨hs, -⟩, rfl⟩
    · obtain ⟨hle, hwait⟩ := h.failed t hfailed
      refine ⟨hle, fun hlt => ?_⟩
      obtain ⟨hstate, hat⟩ := hanew (hwait hlt).1
      exact ⟨hstate, w.now, hat, hle⟩
    · obtain ⟨hstate, hat⟩ := hanew hs
      exact ⟨le_rfl, fun _ => ⟨hstate, w.now, hat, le_rfl⟩⟩

theorem Stamped.step (h : Stamped config name run w) (hw' : w.step s = some w') :
    Stamped config name (run ++ [s]) w' := by
  cases s with
  | admission =>
    have hw := hw'
    simp only [BreakerWorld.step] at hw
    split at hw
    · obtain rfl := Option.some.inj hw
      exact h.become hw' (by simp) rfl rfl rfl CircuitBreaker.admission_state
        CircuitBreaker.admission_openedAt
    · obtain rfl := Option.some.inj hw
      exact h.become hw' (by simp) rfl rfl rfl CircuitBreaker.admission_state
        CircuitBreaker.admission_openedAt
  | invoke i =>
    obtain ⟨call, -, -, rfl⟩ := step_invoke_some.mp hw'
    exact h.quiet hw' (by simp) le_rfl (fun hs => ⟨hs, rfl, rfl⟩) fun hs _ => ⟨hs, rfl⟩
  | finish i outcome =>
    by_cases hrec : Recorded outcome
    · cases outcome with
      | ok u => exact h.recordSuccess hw'
      | error e => exact h.recordFailure hrec hw'
    · obtain ⟨call, -, -, hw⟩ := step_finish_some.mp hw'
      rw [record_unrecorded hrec] at hw
      subst hw
      refine h.quiet hw' ?_ le_rfl (fun hs => ⟨hs, rfl, rfl⟩) fun hs _ => ⟨hs, rfl⟩
      rintro j o ho
      cases ho
      exact hrec
  | snapshot =>
    obtain rfl := Option.some.inj hw'
    exact h.become hw' (by simp) rfl rfl rfl rfl CircuitBreaker.maybeExpireOpen_openedAt
  | tick seconds =>
    have hw := hw'
    simp only [BreakerWorld.step] at hw
    split at hw
    · rename_i hle
      obtain rfl := Option.some.inj hw
      exact h.quiet hw' (by simp) (by simpa using hle) (fun hs => ⟨hs, rfl, rfl⟩)
        fun hs _ => ⟨hs, rfl⟩
    · cases hw

theorem stamped_reached (hrun : steps step (BreakerWorld.initial config name) run = some w) :
    Stamped config name run w :=
  steps_history (I := Stamped config name) (fun _ _ _ _ h _ hw' => h.step hw')
    (.initial config name) (everyStep_true _ _ _) hrun

/-- An open breaker whose last opening is a window ago still waits exactly when a failure reported
since stamped it anew. -/
theorem Stamped.waits_iff (h : Stamped config name run w)
    (hover : ∀ t, w.openings.head? = some t → t + config.resetTimeoutSeconds ≤ w.now) :
    (w.breaker.state = .opened ∧ ¬ w.breaker.due w.now = true) ↔
      Restamped config name run w.now := by
  constructor
  · rintro ⟨hs, hdue⟩
    obtain ⟨t, hat, ht⟩ := h.stamp hs
    have hlt : w.now < t + config.resetTimeoutSeconds := by
      by_contra hge
      refine hdue (CircuitBreaker.due_iff.mpr ⟨hs, t, hat, ?_⟩)
      rw [h.sameConfig]
      linarith
    rcases ht with hhead | hfailed
    · exact absurd (hover t hhead) (not_le.mpr hlt)
    · exact ⟨t, hfailed, hlt⟩
  · rintro ⟨t, hfailed, hlt⟩
    obtain ⟨hs, u, hat, htu⟩ := (h.failed t hfailed).2 hlt
    refine ⟨hs, fun hdue => ?_⟩
    obtain ⟨-, v, hv, hle⟩ := CircuitBreaker.due_iff.mp hdue
    obtain rfl := Option.some.inj (hat.symm.trans hv)
    rw [h.sameConfig] at hle
    linarith

end BreakerWorld

end ReviewAgent
