import ReviewAgent.Effects.Sum

/-! What a program has seen so far, the operations it issues on the strength of that, and the
moments of an interleaving. -/
namespace Effects

/-- An operation that was issued, with its answer. -/
structure Occurrence (S : Signature) where
  op : S.Op
  answer : S.Answer op

variable {S : Signature} {σ χ μ ε α β ι : Type}

/-- What a result says of the history, or what an exception leaves. -/
def Ends (A : α → List (Occurrence S) → Prop) (P : List (Occurrence S) → Prop) :
    Except ε α → List (Occurrence S) → Prop
  | .ok a => A a
  | .error _ => P

namespace Program

/-- With `h` behind it (newest first), the program issues only what `C` allows there, whatever the
answers, and ends in `Q`. -/
def Follows (C : List (Occurrence S) → S.Op → Prop)
    (Q : Except ε α → List (Occurrence S) → Prop) :
    List (Occurrence S) → Program S ε α → Prop
  | h, .done r => Q r h
  | h, .step op next => C h op ∧ ∀ answer, Follows C Q (⟨op, answer⟩ :: h) (next answer)

namespace Follows

variable {C : List (Occurrence S) → S.Op → Prop} {Q R : Except ε α → List (Occurrence S) → Prop}
  {h : List (Occurrence S)} {p : Program S ε α}

theorem mono (hp : Follows C R h p) (hq : ∀ r h', R r h' → Q r h') : Follows C Q h p := by
  induction p generalizing h with
  | done r => exact hq r h hp
  | step op next ih => exact ⟨hp.1, fun answer => ih answer (hp.2 answer)⟩

theorem imp {D : List (Occurrence S) → S.Op → Prop} (hp : Follows C Q h p)
    (hC : ∀ h' op, C h' op → D h' op) : Follows D Q h p := by
  induction p generalizing h with
  | done r => exact hp
  | step op next ih => exact ⟨hC h op hp.1, fun answer => ih answer (hp.2 answer)⟩

/-- A history only grows. -/
theorem grows (hp : Follows C Q h p) : Follows C (fun r h' => Q r h' ∧ h <:+ h') h p := by
  induction p generalizing h with
  | done r => exact ⟨hp, List.suffix_rfl⟩
  | step op next ih =>
    refine ⟨hp.1, fun answer => ?_⟩
    exact (ih answer (hp.2 answer)).mono fun r h' hr => ⟨hr.1, (List.suffix_cons _ _).trans hr.2⟩

/-- What is behind the program stays behind it. -/
theorem since (hp : Follows C Q h p) :
    Follows (fun h' op => C h' op ∧ h <:+ h') (fun r h' => Q r h' ∧ h <:+ h') h p := by
  induction p generalizing h with
  | done r => exact ⟨hp, List.suffix_rfl⟩
  | step op next ih =>
    refine ⟨⟨hp.1, List.suffix_rfl⟩, fun answer => ?_⟩
    have hgrown : h <:+ ⟨op, answer⟩ :: h := List.suffix_cons _ _
    exact ((ih answer (hp.2 answer)).imp fun h' op' hC => ⟨hC.1, hgrown.trans hC.2⟩).mono
      fun r h' hr => ⟨hr.1, hgrown.trans hr.2⟩

theorem and {D : List (Occurrence S) → S.Op → Prop}
    (hp : Follows C Q h p) (hp' : Follows D R h p) :
    Follows (fun h op => C h op ∧ D h op) (fun r h => Q r h ∧ R r h) h p := by
  induction p generalizing h with
  | done r => exact ⟨hp, hp'⟩
  | step op next ih => exact ⟨⟨hp.1, hp'.1⟩, fun answer => ih answer (hp.2 answer) (hp'.2 answer)⟩

theorem andThen {k : Except ε α → Program S ε β} {Q : Except ε β → List (Occurrence S) → Prop}
    (hp : Follows C R h p) (hk : ∀ r h', R r h' → Follows C Q h' (k r)) :
    Follows C Q h (p.andThen k) := by
  induction p generalizing h with
  | done r => exact hk r h hp
  | step op next ih => exact ⟨hp.1, fun answer => ih answer (hp.2 answer)⟩

theorem bind {f : α → Program S ε β} {Q : Except ε β → List (Occurrence S) → Prop}
    (hp : Follows C R h p) (hf : ∀ a h', R (.ok a) h' → Follows C Q h' (f a))
    (he : ∀ e h', R (.error e) h' → Q (.error e) h') : Follows C Q h (p >>= f) := by
  refine hp.andThen fun r h' hr => ?_
  cases r with
  | ok a => exact hf a h' hr
  | error e => exact he e h' hr

theorem tryCatch {handler : ε → Program S ε α} (hp : Follows C R h p)
    (ha : ∀ a h', R (.ok a) h' → Q (.ok a) h')
    (hh : ∀ e h', R (.error e) h' → Follows C Q h' (handler e)) :
    Follows C Q h (MonadExcept.tryCatch p handler) := by
  refine hp.andThen fun r h' hr => ?_
  cases r with
  | ok a => exact ha a h' hr
  | error e => exact hh e h' hr

theorem attempt (hp : Follows C R h p) :
    Follows C (fun r h' => ∃ ended, r = .ok ended ∧ R ended h') h p.attempt :=
  hp.andThen fun ended _ hr => ⟨ended, rfl, hr⟩

end Follows

/-- The program ends within `n` operations, whatever the answers. -/
def EndsWithin : ℕ → Program S ε α → Prop
  | _, .done _ => True
  | 0, .step _ _ => False
  | n + 1, .step _ next => ∀ answer, EndsWithin n (next answer)

namespace EndsWithin

variable {m n : ℕ} {p : Program S ε α}

theorem done {r : Except ε α} : EndsWithin n (.done r : Program S ε α) := by
  cases n <;> trivial

theorem mono (hp : EndsWithin m p) (hmn : m ≤ n) : EndsWithin n p := by
  induction p generalizing m n with
  | done r => exact done
  | step op next ih =>
    obtain _ | m := m
    · exact hp.elim
    · obtain ⟨k, rfl⟩ : ∃ k, n = k + 1 := ⟨n - 1, by omega⟩
      exact fun answer => ih answer (hp answer) (by omega)

theorem andThen {k : Except ε α → Program S ε β} (hp : EndsWithin m p)
    (hk : ∀ r, EndsWithin n (k r)) : EndsWithin (m + n) (p.andThen k) := by
  induction p generalizing m with
  | done r => exact (hk r).mono (by omega)
  | step op next ih =>
    obtain _ | m := m
    · exact hp.elim
    · have hsum : m + 1 + n = m + n + 1 := by omega
      rw [hsum]
      exact fun answer => ih answer (hp answer)

theorem bind {f : α → Program S ε β} (hp : EndsWithin m p) (hf : ∀ a, EndsWithin n (f a)) :
    EndsWithin (m + n) (p >>= f) := by
  refine hp.andThen fun r => ?_
  cases r with
  | ok a => exact hf a
  | error e => exact done

theorem tryCatch {handler : ε → Program S ε α} (hp : EndsWithin m p)
    (hh : ∀ e, EndsWithin n (handler e)) : EndsWithin (m + n) (MonadExcept.tryCatch p handler) := by
  refine hp.andThen fun r => ?_
  cases r with
  | ok a => exact done
  | error e => exact hh e

/-- The history of such a program stays short. -/
theorem follows (hp : EndsWithin n p) (h : List (Occurrence S)) :
    p.Follows (fun h' _ => h'.length < h.length + n) (fun _ h' => h'.length ≤ h.length + n) h := by
  induction p generalizing n h with
  | done r => exact Nat.le_add_right _ _
  | step op next ih =>
    obtain _ | n := n
    · exact hp.elim
    · refine ⟨by omega, fun answer => ?_⟩
      have hnext := ih answer (hp answer) (⟨op, answer⟩ :: h)
      have hsum : (⟨op, answer⟩ :: h : List (Occurrence S)).length + n = h.length + (n + 1) := by
        rw [List.length_cons]
        omega
      rwa [hsum] at hnext

end EndsWithin

/-- A program follows what bounds the operations that it issues; its history only grows. -/
theorem Issues.follows {B : S.Op → Prop} {p : Program S ε α} (hp : p.Issues B)
    (h : List (Occurrence S)) : p.Follows (fun _ => B) (fun _ h' => h <:+ h') h := by
  have hbounded : p.Follows (fun _ => B) (fun _ _ => True) h := by
    induction p generalizing h with
    | done r => trivial
    | step op next ih => exact ⟨hp.1, fun answer => ih answer (hp.2 answer) _⟩
  exact hbounded.grows.mono fun _ _ hr => hr.2

theorem issues_of_forall {B : S.Op → Prop} (hB : ∀ op, B op) (p : Program S ε α) : p.Issues B := by
  induction p with
  | done r => trivial
  | step op next ih => exact ⟨hB op, ih⟩

/-- What holds of every operation so far, and of all that a program issues, holds at its end. -/
theorem Issues.holds {B : S.Op → Prop} {p : Program S ε α} {h : List (Occurrence S)}
    (hp : p.Issues B) (hall : ∀ o ∈ h, B o.op) :
    p.Follows (fun _ => B) (fun _ h' => ∀ o ∈ h', B o.op) h := by
  induction p generalizing h with
  | done r => exact hall
  | step op next ih =>
    exact ⟨hp.1, fun answer => ih answer (hp.2 answer) (List.forall_mem_cons.mpr ⟨hp.1, hall⟩)⟩

/-- A program as a part of another follows what it follows alone, in its own part of the history. -/
theorem Follows.relabel {T : Signature} {f : S.Op → T.Op}
    {read : ∀ op, T.Answer (f op) → S.Answer op} {part : Occurrence T → Option (Occurrence S)}
    (hpart : ∀ op answer, part ⟨f op, answer⟩ = some ⟨op, read op answer⟩)
    {C : List (Occurrence S) → S.Op → Prop} {Q : Except ε α → List (Occurrence S) → Prop}
    {p : Program S ε α} {h : List (Occurrence T)} (hp : p.Follows C Q (h.filterMap part)) :
    (p.relabel f read).Follows (fun h' op => ∃ op', op = f op' ∧ C (h'.filterMap part) op')
      (fun r h' => Q r (h'.filterMap part)) h := by
  induction p generalizing h with
  | done r => exact hp
  | step op next ih =>
    refine ⟨⟨op, rfl, hp.1⟩, fun answer => ih (read op answer) ?_⟩
    rw [List.filterMap_cons_some (hpart op answer)]
    exact hp.2 (read op answer)

/-- The same for a program of the first of two signatures. -/
theorem Follows.left {T : Signature} {part : Occurrence (S.sum T) → Option (Occurrence S)}
    (hpart : ∀ (op : S.Op) (answer : S.Answer op), part ⟨.inl op, answer⟩ = some ⟨op, answer⟩)
    {C : List (Occurrence S) → S.Op → Prop} {Q : Except ε α → List (Occurrence S) → Prop}
    {p : Program S ε α} {h : List (Occurrence (S.sum T))} (hp : p.Follows C Q (h.filterMap part)) :
    (p.left : Program (S.sum T) ε α).Follows
      (fun h' op => ∃ op', op = Sum.inl op' ∧ C (h'.filterMap part) op')
      (fun r h' => Q r (h'.filterMap part)) h := by
  induction p generalizing h with
  | done r => exact hp
  | step op next ih =>
    refine ⟨⟨op, rfl, hp.1⟩, fun answer => ih answer ?_⟩
    rw [List.filterMap_cons_some (hpart op answer)]
    exact hp.2 answer

/-- What is left of the program once its operations have been answered as `h` says, newest first. -/
def Reaches (p : Program S ε α) : List (Occurrence S) → Program S ε α → Prop
  | [], q => q = p
  | o :: h, q => ∃ next, Reaches p h (.step o.op next) ∧ q = next o.answer

/-- What the program issues next. -/
def Asks (p : Program S ε α) (h : List (Occurrence S)) (op : S.Op) : Prop :=
  ∃ next, p.Reaches h (.step op next)

/-- A program issues what it asks, and ends where it gets to. -/
theorem follows_asks (p : Program S ε α) : p.Follows p.Asks (fun r h => p.Reaches h (.done r)) [] := by
  suffices ∀ (q : Program S ε α) h, p.Reaches h q →
      q.Follows p.Asks (fun r h => p.Reaches h (.done r)) h from this p [] rfl
  intro q
  induction q with
  | done r => exact fun h hreaches => hreaches
  | step op next ih =>
    exact fun h hreaches => ⟨⟨next, hreaches⟩, fun answer => ih answer _ ⟨next, hreaches, rfl⟩⟩

/-- With `h` behind it, and as long as only `good` things occur, the program ends in `Q`. -/
def Assuming (good : Occurrence S → Prop) (Q : Except ε α → List (Occurrence S) → Prop) :
    List (Occurrence S) → Program S ε α → Prop
  | h, .done r => Q r h
  | h, .step op next =>
    ∀ answer, good ⟨op, answer⟩ → Assuming good Q (⟨op, answer⟩ :: h) (next answer)

namespace Assuming

variable {good : Occurrence S → Prop} {Q R : Except ε α → List (Occurrence S) → Prop}
  {h : List (Occurrence S)} {p : Program S ε α}

theorem mono (hp : Assuming good R h p) (hq : ∀ r h', R r h' → Q r h') : Assuming good Q h p := by
  induction p generalizing h with
  | done r => exact hq r h hp
  | step op next ih => exact fun answer hgood => ih answer (hp answer hgood)

theorem andThen {k : Except ε α → Program S ε β} {Q : Except ε β → List (Occurrence S) → Prop}
    (hp : Assuming good R h p) (hk : ∀ r h', R r h' → Assuming good Q h' (k r)) :
    Assuming good Q h (p.andThen k) := by
  induction p generalizing h with
  | done r => exact hk r h hp
  | step op next ih => exact fun answer hgood => ih answer (hp answer hgood)

theorem bind {f : α → Program S ε β} {Q : Except ε β → List (Occurrence S) → Prop}
    (hp : Assuming good R h p) (hf : ∀ a h', R (.ok a) h' → Assuming good Q h' (f a))
    (he : ∀ e h', R (.error e) h' → Q (.error e) h') : Assuming good Q h (p >>= f) := by
  refine hp.andThen fun r h' hr => ?_
  cases r with
  | ok a => exact hf a h' hr
  | error e => exact he e h' hr

theorem tryCatch {handler : ε → Program S ε α} (hp : Assuming good R h p)
    (ha : ∀ a h', R (.ok a) h' → Q (.ok a) h')
    (hh : ∀ e h', R (.error e) h' → Assuming good Q h' (handler e)) :
    Assuming good Q h (MonadExcept.tryCatch p handler) := by
  refine hp.andThen fun r h' hr => ?_
  cases r with
  | ok a => exact ha a h' hr
  | error e => exact hh e h' hr

theorem follows {B : S.Op → Prop} (hp : Assuming good Q h p) (hissues : p.Issues B) :
    p.Follows (fun _ => B) (fun r h' => (∀ o ∈ h', good o) → Q r h') h := by
  induction p generalizing h with
  | done r => exact fun _ => hp
  | step op next ih =>
    refine ⟨hissues.1, fun answer => ?_⟩
    by_cases hgood : good ⟨op, answer⟩
    · exact ih answer (hp answer hgood) (hissues.2 answer)
    · refine ((hissues.2 answer).follows _).mono fun r h' hgrows hall => ?_
      exact absurd (hall _ (hgrows.subset List.mem_cons_self)) hgood

end Assuming

end Program

namespace Machine

/-- What occurs in a run of thread `i` alone with the environment, newest first. -/
def occurrences (M : Machine S σ χ μ) (i : ℕ) :
    σ → Program S ε α → List (Event χ μ) → List (Occurrence S)
  | _, _, [] => []
  | w, p, .move m :: es =>
    match M.move w m with
    | none => []
    | some w' => M.occurrences i w' p es
  | w, .step op next, .act c :: es =>
    match M.perform i w op c with
    | none => []
    | some (w', answer) => M.occurrences i w' (next answer) es ++ [⟨op, answer⟩]
  | _, .done _, .act _ :: _ => []

/-- Every operation in a history is one that `C` allows there. -/
def Kept (C : List (Occurrence S) → S.Op → Prop) (h : List (Occurrence S)) : Prop :=
  ∀ later o earlier, h = later ++ o :: earlier → C earlier o.op

theorem kept_nil {C : List (Occurrence S) → S.Op → Prop} : Kept C [] := by
  intro later o earlier h
  simp at h

theorem kept_cons_iff {C : List (Occurrence S) → S.Op → Prop} {o : Occurrence S}
    {h : List (Occurrence S)} : Kept C (o :: h) ↔ C h o.op ∧ Kept C h := by
  constructor
  · intro hkept
    refine ⟨hkept [] o h rfl, ?_⟩
    rintro later o' earlier rfl
    exact hkept (o :: later) o' earlier rfl
  · rintro ⟨ho, hkept⟩ later o' earlier hsplit
    cases later with
    | nil =>
      obtain ⟨rfl, rfl⟩ := List.cons.inj hsplit
      exact ho
    | cons o'' later =>
      obtain ⟨rfl, rfl⟩ := List.cons.inj hsplit
      exact hkept later o' earlier rfl

/-- A run keeps to what its program follows, and the rest of the program follows on. -/
theorem run_follows {M : Machine S σ χ μ} {C : List (Occurrence S) → S.Op → Prop}
    {Q : Except ε α → List (Occurrence S) → Prop} {i : ℕ} {w w' : σ} {p p' : Program S ε α}
    {h : List (Occurrence S)} {es : List (Event χ μ)} (hp : p.Follows C Q h) (hkept : Kept C h)
    (hrun : M.run i w p es = some (w', p')) :
    p'.Follows C Q (M.occurrences i w p es ++ h) ∧ Kept C (M.occurrences i w p es ++ h) := by
  induction es generalizing w p h with
  | nil =>
    obtain ⟨rfl, rfl⟩ : w = w' ∧ p = p' := by simpa [run] using hrun
    exact ⟨hp, hkept⟩
  | cons e es ih =>
    cases e with
    | move m =>
      simp only [run, occurrences] at hrun ⊢
      cases hw : M.move w m with
      | none => simp [hw] at hrun
      | some v =>
        rw [hw] at hrun
        exact ih hp hkept hrun
    | act choice =>
      cases p with
      | done r => simp [run] at hrun
      | step op next =>
        simp only [run, occurrences] at hrun ⊢
        cases hw : M.perform i w op choice with
        | none => simp [hw] at hrun
        | some x =>
          obtain ⟨v, answer⟩ := x
          rw [hw] at hrun
          have := ih (hp.2 answer) (kept_cons_iff.mpr ⟨hp.1, hkept⟩) hrun
          simpa using this

/-- What occurs in a run and then in what follows it. -/
theorem occurrences_append {M : Machine S σ χ μ} {i : ℕ} {w w' : σ} {p p' : Program S ε α}
    {es : List (Event χ μ)} (hrun : M.run i w p es = some (w', p')) (es' : List (Event χ μ)) :
    M.occurrences i w p (es ++ es') = M.occurrences i w' p' es' ++ M.occurrences i w p es := by
  induction es generalizing w p with
  | nil =>
    obtain ⟨rfl, rfl⟩ : w = w' ∧ p = p' := by simpa [run] using hrun
    simp [occurrences]
  | cons e es ih =>
    cases e with
    | move m =>
      simp only [run] at hrun
      cases hw : M.move w m with
      | none => simp [hw] at hrun
      | some v =>
        rw [hw] at hrun
        simpa only [List.cons_append, occurrences, hw] using ih hrun
    | act choice =>
      cases p with
      | done r => simp [run] at hrun
      | step op next =>
        simp only [run] at hrun
        cases hw : M.perform i w op choice with
        | none => simp [hw] at hrun
        | some x =>
          rw [hw] at hrun
          simp only [List.cons_append, occurrences, hw, ih hrun, List.append_assoc]

/-- What occurs in a run is what the machine answers there. -/
theorem performed_of_mem_occurrences {M : Machine S σ χ μ} {i : ℕ} {w : σ} {p : Program S ε α}
    {es : List (Event χ μ)} {o : Occurrence S} (ho : o ∈ M.occurrences i w p es) :
    ∃ v choice v', M.perform i v o.op choice = some (v', o.answer) := by
  induction es generalizing w p with
  | nil => simp [occurrences] at ho
  | cons e es ih =>
    cases e with
    | move m =>
      simp only [occurrences] at ho
      split at ho
      · simp at ho
      · exact ih ho
    | act choice =>
      cases p with
      | done r => simp [occurrences] at ho
      | step op next =>
        simp only [occurrences] at ho
        split at ho
        · simp at ho
        · rename_i v answer hv
          rcases List.mem_append.mp ho with ho | ho
          · exact ih ho
          · obtain rfl := List.mem_singleton.mp ho
            exact ⟨w, choice, v, hv⟩

/-- A step of thread `thread` in an interleaving: the world it finds, and what occurs. -/
structure Moment (S : Signature) (σ : Type) where
  thread : ℕ
  world : σ
  occurrence : Occurrence S

/-- What thread `i` has seen, newest first. -/
def own (i : ℕ) (past : List (Moment S σ)) : List (Occurrence S) :=
  (past.filter fun moment => moment.thread = i).map Moment.occurrence

/-- The moment of one step, where a thread's operation is resolved. -/
def momentOf (M : Machine S σ χ μ) (c : Config S ε α σ) : Sched χ μ ι → List (Moment S σ)
  | .act i choice =>
    match c.threads[i]? with
    | some (.step op _) =>
      match M.perform i c.world op choice with
      | some r => [⟨i, c.world, op, r.2⟩]
      | none => []
    | _ => []
  | _ => []

/-- The moments of an interleaving, newest first. -/
def moments (M : Machine S σ χ μ) (body : ι → Program S ε α) :
    Config S ε α σ → List (Sched χ μ ι) → List (Moment S σ)
  | _, [] => []
  | c, s :: ss =>
    match M.next body c s with
    | none => []
    | some c' => M.moments body c' ss ++ M.momentOf c s

/-- A moment is what the machine answers there. -/
theorem performed_of_mem_moments {M : Machine S σ χ μ} {body : ι → Program S ε α}
    {c : Config S ε α σ} {ss : List (Sched χ μ ι)} {moment : Moment S σ}
    (h : moment ∈ M.moments body c ss) :
    ∃ choice w, M.perform moment.thread moment.world moment.occurrence.op choice =
      some (w, moment.occurrence.answer) := by
  induction ss generalizing c with
  | nil => cases h
  | cons s ss ih =>
    simp only [moments] at h
    split at h
    · cases h
    · rcases List.mem_append.mp h with hlater | hnow
      · exact ih hlater
      · cases s with
        | start label => cases hnow
        | move m => cases hnow
        | act i choice =>
          simp only [momentOf] at hnow
          split at hnow
          · split at hnow
            · rename_i r hr
              obtain rfl := List.mem_singleton.mp hnow
              exact ⟨choice, r.1, hr⟩
            · cases hnow
          · cases hnow

theorem own_cons_self (moment : Moment S σ) (past : List (Moment S σ)) :
    own moment.thread (moment :: past) = moment.occurrence :: own moment.thread past := by
  simp [own]

theorem own_cons_of_ne {i : ℕ} {moment : Moment S σ} (past : List (Moment S σ))
    (h : moment.thread ≠ i) : own i (moment :: past) = own i past := by
  simp [own, h]

theorem own_append {i : ℕ} (later earlier : List (Moment S σ)) :
    own i (later ++ earlier) = own i later ++ own i earlier := by
  simp [own]

/-- Where a thread's history splits, the moments do. -/
theorem exists_of_own_eq {i : ℕ} {past : List (Moment S σ)} {since before : List (Occurrence S)}
    {occurrence : Occurrence S} (h : own i past = since ++ occurrence :: before) :
    ∃ later moment earlier, past = later ++ moment :: earlier ∧ moment.thread = i ∧
      moment.occurrence = occurrence ∧ own i later = since ∧ own i earlier = before := by
  induction past generalizing since with
  | nil => simp [own] at h
  | cons m past ih =>
    by_cases hm : m.thread = i
    · subst hm
      rw [own_cons_self] at h
      cases since with
      | nil =>
        obtain ⟨hoccurrence, hbefore⟩ := List.cons.inj h
        exact ⟨[], m, past, rfl, rfl, hoccurrence, rfl, hbefore⟩
      | cons o since =>
        obtain ⟨hoccurrence, hpast⟩ := List.cons.inj h
        obtain ⟨later, moment, earlier, rfl, hthread, hmoment, hlater, hearlier⟩ := ih hpast
        refine ⟨m :: later, moment, earlier, rfl, hthread, hmoment, ?_, hearlier⟩
        rw [own_cons_self, hoccurrence, hlater]
    · rw [own_cons_of_ne past hm] at h
      obtain ⟨later, moment, earlier, rfl, hthread, hmoment, hlater, hearlier⟩ := ih h
      refine ⟨m :: later, moment, earlier, rfl, hthread, hmoment, ?_, hearlier⟩
      rw [own_cons_of_ne later hm, hlater]

theorem exists_of_mem_own {i : ℕ} {past : List (Moment S σ)} {occurrence : Occurrence S}
    (h : occurrence ∈ own i past) :
    ∃ moment ∈ past, moment.thread = i ∧ moment.occurrence = occurrence := by
  obtain ⟨moment, hmem, rfl⟩ := List.mem_map.mp h
  rw [List.mem_filter, decide_eq_true_eq] at hmem
  exact ⟨moment, hmem.1, hmem.2, rfl⟩

theorem mem_own {moment : Moment S σ} {past : List (Moment S σ)} (h : moment ∈ past) :
    moment.occurrence ∈ own moment.thread past :=
  List.mem_map.mpr ⟨moment, List.mem_filter.mpr ⟨h, by simp⟩, rfl⟩

/-- Between the steps of an interleaving: each thread goes on as its label and its history allow. -/
structure Following (C : ι → List (Occurrence S) → S.Op → Prop)
    (Q : ι → Except ε α → List (Occurrence S) → Prop) (labels : List ι) (c : Config S ε α σ)
    (past : List (Moment S σ)) : Prop where
  follows : ∀ i (p : Program S ε α), c.threads[i]? = some p →
    ∃ label, labels[i]? = some label ∧ p.Follows (C label) (Q label) (own i past)
  fresh : ∀ i, c.threads.length ≤ i → own i past = []

section

variable {M : Machine S σ χ μ} {C : ι → List (Occurrence S) → S.Op → Prop}
  {Q : ι → Except ε α → List (Occurrence S) → Prop} {body : ι → Program S ε α}
  {c c' : Config S ε α σ} {past : List (Moment S σ)} {J : σ → List (Moment S σ) → Prop}
  {labels : List ι} {ss : List (Sched χ μ ι)}

theorem started_next {s : Sched χ μ ι} (h : M.next body c s = some c')
    (hlabels : labels.drop c.threads.length = started (s :: ss)) :
    labels.drop c'.threads.length = started ss := by
  cases s with
  | start label =>
    obtain rfl : _ = c' := Option.some.inj h
    rw [List.length_append, List.length_singleton, ← List.drop_drop, hlabels]
    rfl
  | move m =>
    obtain ⟨w, hw, rfl⟩ := Option.map_eq_some_iff.mp h
    exact hlabels
  | act i choice =>
    simp only [Machine.next] at h
    split at h
    · obtain ⟨r, hr, rfl⟩ := Option.map_eq_some_iff.mp h
      rw [List.length_set]
      exact hlabels
    · cases h

theorem Following.next (hc : Following C Q labels c past)
    (hbody : ∀ label, (body label).Follows (C label) (Q label) []) {s : Sched χ μ ι}
    (h : M.next body c s = some c')
    (hlabels : labels.drop c.threads.length = started (s :: ss)) :
    Following C Q labels c' (M.momentOf c s ++ past) := by
  cases s with
  | start label =>
    obtain rfl : _ = c' := Option.some.inj h
    refine ⟨?_, fun i hi => hc.fresh i (by simp at hi; omega)⟩
    intro i p hp
    rcases Nat.lt_or_ge i c.threads.length with hi | hi
    · rw [List.getElem?_append_left hi] at hp
      exact hc.follows i p hp
    · rw [List.getElem?_append_right hi] at hp
      obtain ⟨hzero, hlabel⟩ : i - c.threads.length = 0 ∧ body label = p := by
        rcases hn : i - c.threads.length with _ | n <;> simp_all
      obtain rfl : i = c.threads.length := by omega
      have hget : labels[c.threads.length]? = some label := by
        rw [← Nat.add_zero c.threads.length, ← List.getElem?_drop, hlabels]
        rfl
      refine ⟨label, hget, ?_⟩
      show p.Follows (C label) (Q label) (own c.threads.length past)
      rw [hc.fresh _ (Nat.le_refl _), ← hlabel]
      exact hbody label
  | move m =>
    obtain ⟨w, hw, rfl⟩ := Option.map_eq_some_iff.mp h
    exact ⟨hc.follows, hc.fresh⟩
  | act i choice =>
    simp only [Machine.next] at h
    split at h
    · rename_i op k hk
      obtain ⟨⟨w, answer⟩, hr, rfl⟩ := Option.map_eq_some_iff.mp h
      have hlt := (List.getElem?_eq_some_iff.mp hk).1
      have hmoment : M.momentOf c (.act i choice : Sched χ μ ι) = [⟨i, c.world, op, answer⟩] := by
        simp only [momentOf, hk, hr]
      rw [hmoment, List.singleton_append]
      refine ⟨?_, ?_⟩
      · intro j p hp
        by_cases hj : i = j
        · subst hj
          rw [List.getElem?_set_self hlt] at hp
          obtain ⟨label, hlabel, hfollows⟩ := hc.follows i _ hk
          refine ⟨label, hlabel, ?_⟩
          rw [own_cons_self (⟨i, c.world, op, answer⟩ : Moment S σ), ← Option.some.inj hp]
          exact hfollows.2 answer
        · rw [List.getElem?_set_ne hj] at hp
          rw [own_cons_of_ne past hj]
          exact hc.follows j p hp
      · intro j hj
        rw [List.length_set] at hj
        have hne : i ≠ j := by omega
        rw [own_cons_of_ne past hne]
        exact hc.fresh j hj
    · cases h

/-- What every step that a thread may take keeps, of the world and the moments so far, holds
wherever an interleaving leads. -/
theorem Following.exec (hc : Following C Q labels c past)
    (hbody : ∀ label, (body label).Follows (C label) (Q label) [])
    (hact : ∀ w past i label op choice w' answer, J w past → labels[i]? = some label →
      C label (own i past) op → M.perform i w op choice = some (w', answer) →
      J w' (⟨i, w, op, answer⟩ :: past))
    (hmove : ∀ w past m w', J w past → M.move w m = some w' → J w' past)
    (hlabels : labels.drop c.threads.length = started ss)
    (h : M.exec body c ss = some c') (hj : J c.world past) :
    Following C Q labels c' (M.moments body c ss ++ past) ∧
      J c'.world (M.moments body c ss ++ past) := by
  induction ss generalizing c past with
  | nil => exact Option.some.inj h ▸ ⟨hc, hj⟩
  | cons s ss ih =>
    simp only [Machine.exec, moments] at h ⊢
    cases hn : M.next body c s with
    | none => simp [hn] at h
    | some c₁ =>
      rw [hn] at h
      rw [List.append_assoc]
      refine ih (hc.next hbody hn hlabels) (started_next hn hlabels) h ?_
      cases s with
      | start label =>
        obtain rfl : _ = c₁ := Option.some.inj hn
        exact hj
      | move m =>
        obtain ⟨w, hw, rfl⟩ := Option.map_eq_some_iff.mp hn
        exact hmove _ _ _ _ hj hw
      | act i choice =>
        simp only [Machine.next] at hn
        split at hn
        · rename_i op k hk
          obtain ⟨⟨w, answer⟩, hr, rfl⟩ := Option.map_eq_some_iff.mp hn
          obtain ⟨label, hlabel, hfollows⟩ := hc.follows i _ hk
          simp only [momentOf, hk, hr]
          exact hact _ _ _ _ _ _ _ _ hj hlabel hfollows.1 hr
        · cases hn

/-- An invariant of the world and the moments, and where every thread has got to. -/
theorem moments_follow (hbody : ∀ label, (body label).Follows (C label) (Q label) [])
    (hact : ∀ w past i label op choice w' answer, J w past → (started ss)[i]? = some label →
      C label (own i past) op → M.perform i w op choice = some (w', answer) →
      J w' (⟨i, w, op, answer⟩ :: past))
    (hmove : ∀ w past m w', J w past → M.move w m = some w' → J w' past)
    {w : σ} (h : M.exec body ⟨w, []⟩ ss = some c') (hj : J w []) :
    Following C Q (started ss) c' (M.moments body ⟨w, []⟩ ss) ∧
      J c'.world (M.moments body ⟨w, []⟩ ss) := by
  have hstart : Following C Q (started ss) (⟨w, []⟩ : Config S ε α σ) [] :=
    ⟨by simp, fun i _ => rfl⟩
  simpa using hstart.exec hbody hact hmove rfl h hj

theorem moments_invariant {C : List (Occurrence S) → S.Op → Prop}
    (hbody : ∀ label, (body label).Follows C (Q label) [])
    (hact : ∀ w past i op choice w' answer, J w past → C (own i past) op →
      M.perform i w op choice = some (w', answer) → J w' (⟨i, w, op, answer⟩ :: past))
    (hmove : ∀ w past m w', J w past → M.move w m = some w' → J w' past)
    {w : σ} (h : M.exec body ⟨w, []⟩ ss = some c') (hj : J w []) :
    J c'.world (M.moments body ⟨w, []⟩ ss) :=
  (moments_follow (C := fun _ => C) hbody (fun w past i _ op choice w' answer hJ _ =>
    hact w past i op choice w' answer hJ) hmove h hj).2

/-- The same for a program alone, with the end of its history. -/
theorem run_history {C : List (Occurrence S) → S.Op → Prop} {i : ℕ} {w w' : σ}
    {J : σ → List (Occurrence S) → Prop}
    {Q : Except ε α → List (Occurrence S) → Prop} {p : Program S ε α}
    {h : List (Occurrence S)} {es : List (Event χ μ)} {r : Except ε α}
    (hp : p.Follows C Q h)
    (hact : ∀ w h op choice w' answer, J w h → C h op →
      M.perform i w op choice = some (w', answer) → J w' (⟨op, answer⟩ :: h))
    (hmove : ∀ w h m w', J w h → M.move w m = some w' → J w' h)
    (hrun : M.run i w p es = some (w', .done r)) (hj : J w h) :
    ∃ h', Q r h' ∧ J w' h' := by
  induction es generalizing w p h with
  | nil =>
    obtain ⟨rfl, rfl⟩ : w = w' ∧ p = .done r := by simpa [run] using hrun
    exact ⟨h, hp, hj⟩
  | cons e es ih =>
    cases e with
    | move m =>
      simp only [run] at hrun
      cases hw : M.move w m with
      | none => simp [hw] at hrun
      | some v =>
        rw [hw] at hrun
        exact ih hp hrun (hmove _ _ _ _ hj hw)
    | act choice =>
      cases p with
      | done r' => simp [run] at hrun
      | step op next =>
        simp only [run] at hrun
        cases hw : M.perform i w op choice with
        | none => simp [hw] at hrun
        | some x =>
          obtain ⟨v, answer⟩ := x
          rw [hw] at hrun
          exact ih (hp.2 answer) hrun (hact _ _ _ _ _ _ hj hp.1 hw)

end

end Machine

end Effects
