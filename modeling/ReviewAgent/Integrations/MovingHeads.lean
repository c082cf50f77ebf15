import ReviewAgent.Integrations.DiffHistory
import ReviewAgent.Integrations.MarkerCheck

/-! Pushes to a pull request between the requests of an operation. -/
namespace ReviewAgent

open Effects

/-- The diff and the changed files of a pull request at a commit. -/
abbrev Contents : Type := PullRequest → String → DiffAndFiles

/-- GitHub with the current head of every pull request. -/
structure MovingWorld where
  api : GitHubWorld
  heads : PullRequest → String

inductive MovingMove where
  | api (m : GitHubMove)
  | push (pr : PullRequest) (headSha : String)

/-- The diff and the pages of changed files come as they are at the head; whether a request is
answered, and whether the body arrives intact, the environment decides. -/
def GitHubRequest.atHead (head : PullRequest → DiffAndFiles) :
    (request : GitHubRequest) → Response request.Content → Response request.Content
  | .diff pr, response => { response with
      text := if response.statusCode < 300 then (head pr).diffText else response.text }
  | .files pr perPage page, response => { response with
      json := response.json.map fun _ => Paging.page perPage page (head pr).changedFiles }
  | _, response => response

def GitHubChoice.atHead (head : PullRequest → DiffAndFiles) : GitHubChoice → GitHubChoice
  | .answers serve => .answers fun request => request.atHead head (serve request)
  | choice => choice

/-- GitHub and the clients' caches, every request being answered for the current head. -/
def movingGitHub (contents : Contents) (inst : ℕ → ℕ) :
    Machine GitHubSignature MovingWorld GitHubChoice MovingMove where
  perform i w op c :=
    ((gitHub inst).perform i w.api op (c.atHead fun pr => contents pr (w.heads pr))).map
      fun r => ({ w with api := r.1 }, r.2)
  move w
    | .api m => ((gitHub inst).move w.api m).map fun api => { w with api }
    | .push pr headSha => some { w with heads := Function.update w.heads pr headSha }

abbrev movingMachine (contents : Contents) (inst : ℕ → ℕ) :
    Machine (Guarded GitHubSignature) (GuardWorld MovingWorld) (GuardChoice GitHubChoice)
      (GuardMove MovingMove) :=
  guarded (movingGitHub contents inst) inst

abbrev MovingMoment : Type := Machine.Moment (Guarded GitHubSignature) (GuardWorld MovingWorld)

abbrev MovingSched : Type :=
  Machine.Sched (GuardChoice GitHubChoice) (GuardMove MovingMove) (RealGitHubClient × GitHubOperation)

abbrev MovingConfig : Type :=
  Machine.Config (Guarded GitHubSignature) Exc (Option String) (GuardWorld MovingWorld)

/-- The operations that clients may be asked for, with the text that a fetch returns. -/
def observing : RealGitHubClient × GitHubOperation → Session (Option String)
  | (client, .fetchDiff pr headSha) => do
    let text ← client.fetchDiff pr headSha
    pure (some text)
  | (client, .getPrMetadata pr) => do
    let _metadata ← client.getPrMetadata pr
    pure none
  | (client, .postReviewComment review) => do
    client.postReviewComment review
    pure none

/-- The text that an operation returns is of a value that it uses. -/
def ofUsed : GitHubOperation → Option String → GitHubHistory → Prop
  | .fetchDiff pr headSha, text, h =>
    ∃ value, Used ⟨pr, headSha⟩ value h ∧ text = some value.diffText
  | _, _, _ => True

theorem observing_follows (label : RealGitHubClient × GitHubOperation) :
    (observing label).Follows (fromDiff label.2) (Ends (ofUsed label.2) fun _ => True) [] := by
  have hstart : ∀ pr, Served pr [] [] [] := fun pr => ⟨rfl, rfl⟩
  obtain ⟨client, operation⟩ := label
  cases operation with
  | getPrMetadata pr =>
    exact (served_getPrMetadata pr [] (hstart pr)).bind (fun a h _ => trivial)
      fun e h _ => trivial
  | fetchDiff pr headSha =>
    refine (used_fetchDiff [] (hstart pr)).bind (fun text h hused => ?_) fun e h _ => trivial
    obtain ⟨value, hvalue, rfl⟩ := hused
    exact ⟨value, hvalue, rfl⟩
  | postReviewComment review =>
    exact (used_postReviewComment [] (hstart review.pullRequest)).bind (fun a h _ => trivial)
      fun e h _ => trivial

section

variable {inst : ℕ → ℕ} {i : ℕ} {contents : Contents}

theorem perform_moving {w w' : MovingWorld} {op : GitHubOp} {c : GitHubChoice}
    {answer : GitHubSignature.Answer op}
    (h : (movingGitHub contents inst).perform i w op c = some (w', answer)) :
    ∃ api, (gitHub inst).perform i w.api op (c.atHead fun pr => contents pr (w.heads pr)) =
      some (api, answer) ∧ w' = { w with api } := by
  obtain ⟨⟨api, answer'⟩, hperform, heq⟩ := Option.map_eq_some_iff.mp h
  obtain ⟨rfl, rfl⟩ := Prod.mk.inj heq
  exact ⟨api, hperform, rfl⟩

variable {w w' : GitHubWorld} {op : GitHubOp} {c : GitHubChoice} {head : PullRequest → DiffAndFiles}
  {answer : GitHubSignature.Answer op} {pr : PullRequest}

/-- What arrives intact is what GitHub has at the head. -/
theorem answered_atHead {request : GitHubRequest} {bearer : String}
    {response : Response request.Content}
    (h : (gitHub inst).perform i w (.http request bearer) (c.atHead head) =
      some (w', .ok response)) :
    ∃ served : Response request.Content, response = w.serve request (request.atHead head served) := by
  cases c with
  | answers serve =>
    simp only [gitHub, GitHubChoice.atHead] at h
    split at h
    · obtain ⟨-, hanswer⟩ := Prod.mk.inj (Option.some.inj h)
      exact ⟨serve request, (Except.ok.inj hanswer).symm⟩
    · cases h
  | lost applied e =>
    simp only [gitHub, GitHubChoice.atHead] at h
    split at h <;> cases h
  | _ => simp [gitHub, GitHubChoice.atHead] at h

/-- A diff is served as of the head. -/
theorem servedDiff_atHead (h : (gitHub inst).perform i w op (c.atHead head) = some (w', answer))
    {text : String} (hserved : servedDiff pr ⟨.dep op, answer⟩ = some text) :
    text = (head pr).diffText := by
  unfold servedDiff at hserved
  split at hserved
  · rename_i pr' bearer response heq
    cases heq
    obtain ⟨served, rfl⟩ := answered_atHead h
    split at hserved
    · rename_i hcond
      obtain ⟨rfl, hstatus⟩ := hcond
      obtain rfl := Option.some.inj hserved
      exact if_pos hstatus
    · cases hserved
  · cases hserved

/-- A page of changed files is served as of the head. -/
theorem servedPage_atHead (h : (gitHub inst).perform i w op (c.atHead head) = some (w', answer))
    {page : ℕ} {batch : List ChangedFile}
    (hserved : servedPage pr ⟨.dep op, answer⟩ = some (page, batch)) :
    batch = Paging.page filesPageSize page (head pr).changedFiles := by
  unfold servedPage at hserved
  split at hserved
  · rename_i pr' perPage page' bearer response heq
    cases heq
    obtain ⟨served, rfl⟩ := answered_atHead h
    split at hserved
    · rename_i batch' hjson
      split at hserved
      · rename_i hcond
        obtain ⟨rfl, rfl, -⟩ := hcond
        obtain ⟨rfl, rfl⟩ := Prod.mk.inj (Option.some.inj hserved)
        cases hjson' : served.json with
        | error e =>
          simp only [GitHubWorld.serve, GitHubRequest.atHead, hjson', Except.map,
            reduceCtorEq] at hjson
        | ok batch'' =>
          simp only [GitHubWorld.serve, GitHubRequest.atHead, hjson', Except.map] at hjson
          exact (Except.ok.inj hjson).symm
      · cases hserved
    · cases hserved
  · cases hserved

end

/-- The client's value under a key is that of the commit which the key names, everywhere it is used:
stored, returned as a diff, or as the changed files for the index of a posted review. -/
structure AboutCommit (contents : Contents) (key : DiffKey)
    (labels : List (RealGitHubClient × GitHubOperation)) (c : MovingConfig)
    (past : List MovingMoment) : Prop where
  stored : ∀ m ∈ past, ∀ value, m.occurrence.op = .dep (.storeDiff key value) →
    value = contents key.pr key.headSha
  returned : ∀ (i : ℕ) (client : RealGitHubClient) text,
    labels[i]? = some (client, GitHubOperation.fetchDiff key.pr key.headSha) →
    c.threads[i]? = some (Program.done (.ok (some text))) →
    text = (contents key.pr key.headSha).diffText
  indexed : ∀ m ∈ past, ∀ (client : RealGitHubClient) review,
    labels[m.thread]? = some (client, GitHubOperation.postReviewComment review) →
    review.pullRequest = key.pr → review.headSha = key.headSha → ∀ pr body bearer,
    m.occurrence.op = .dep (.http (.createReview pr body) bearer) →
    pr = key.pr ∧ reviewRequest review (contents key.pr key.headSha).changedFiles = .ok body

/-- Where a diff or a page of changed files was served, the head had the same there as the commit
which the key names. -/
def ServedAsOf (contents : Contents) (key : DiffKey) (m : MovingMoment) : Prop :=
  (∀ text, servedDiff key.pr m.occurrence = some text →
    (contents key.pr (m.world.dep.heads key.pr)).diffText =
      (contents key.pr key.headSha).diffText) ∧
  ∀ page batch, servedPage key.pr m.occurrence = some (page, batch) →
    Paging.page filesPageSize page (contents key.pr (m.world.dep.heads key.pr)).changedFiles =
      Paging.page filesPageSize page (contents key.pr key.headSha).changedFiles

/-- Of an operation that stores under the key, every diff and page was so served. -/
def HeadStays (contents : Contents) (key : DiffKey) (past : List MovingMoment) : Prop :=
  ∀ later store earlier value, past = later ++ store :: earlier →
    store.occurrence.op = .dep (.storeDiff key value) →
    ∀ m ∈ earlier, m.thread = store.thread → ServedAsOf contents key m

/-- The commit's value, or one stored under the key before. -/
def Known (contents : Contents) (key : DiffKey) (value : DiffAndFiles) (past : List MovingMoment) :
    Prop :=
  value = contents key.pr key.headSha ∨
    ∃ m ∈ past, m.occurrence.op = .dep (.storeDiff key value)

/-- What is known of a moment after what was there before. -/
structure Observed (contents : Contents) (key : DiffKey)
    (labels : List (RealGitHubClient × GitHubOperation)) (m : MovingMoment)
    (earlier : List MovingMoment) : Prop where
  diff : ∀ text, servedDiff key.pr m.occurrence = some text →
    text = (contents key.pr (m.world.dep.heads key.pr)).diffText
  page : ∀ page batch, servedPage key.pr m.occurrence = some (page, batch) →
    batch = Paging.page filesPageSize page
      (contents key.pr (m.world.dep.heads key.pr)).changedFiles
  found : ∀ value, m.occurrence = ⟨.dep (.cachedDiff key), some value⟩ →
    Known contents key value earlier
  allowed : ∃ label, labels[m.thread]? = some label ∧
    fromDiff label.2 (Machine.own m.thread earlier) m.occurrence.op

/-- So at every moment, and what a cache has is known. -/
structure AllObserved (contents : Contents) (key : DiffKey)
    (labels : List (RealGitHubClient × GitHubOperation)) (w : GuardWorld MovingWorld)
    (past : List MovingMoment) : Prop where
  cached : ∀ k value, (w.dep.api.clients k).diffs key = some value → Known contents key value past
  observed : ∀ later m earlier, past = later ++ m :: earlier →
    Observed contents key labels m earlier

section

variable {inst : ℕ → ℕ} {contents : Contents} {key : DiffKey} {i : ℕ}
  {labels : List (RealGitHubClient × GitHubOperation)} {label : RealGitHubClient × GitHubOperation}
  {w w' : GuardWorld MovingWorld} {past earlier : List MovingMoment} {m : MovingMoment}

theorem Known.mono {value : DiffAndFiles} (hs : earlier ⊆ past)
    (h : Known contents key value earlier) : Known contents key value past :=
  h.imp id fun ⟨m, hmem, hop⟩ => ⟨m, hs hmem, hop⟩

theorem moving_move_clients {move : GuardMove MovingMove}
    (h : (movingMachine contents inst).move w move = some w') :
    w'.dep.api.clients = w.dep.api.clients := by
  rcases guardMove_dep h with hdep | ⟨⟨now⟩ | ⟨pr, headSha⟩, hdep⟩
  · rw [hdep]
  · rw [← Option.some.inj hdep]
  · rw [← Option.some.inj hdep]

/-- An entry for a diff is the client's earlier one, or the one that it stores. -/
theorem diffs_of_stored {caches : ClientCaches} {op : GitHubOp} {value : DiffAndFiles}
    (h : (op.stored caches).diffs key = some value) :
    caches.diffs key = some value ∨ op = .storeDiff key value := by
  cases op with
  | storeDiff key' value' =>
    simp only [GitHubOp.stored, Function.update_apply] at h
    split at h
    · rename_i hkey
      subst hkey
      exact Or.inr (congrArg _ (Option.some.inj h))
    · exact Or.inl h
  | _ => exact Or.inl h

theorem AllObserved.cached_perform {op : GuardOp GitHubSignature} {c : GuardChoice GitHubChoice}
    {answer : (Guarded GitHubSignature).Answer op} (h : AllObserved contents key labels w past)
    (hp : (movingMachine contents inst).perform i w op c = some (w', answer)) {k : ℕ}
    {value : DiffAndFiles} (hvalue : (w'.dep.api.clients k).diffs key = some value) :
    Known contents key value (⟨i, w, op, answer⟩ :: past) := by
  by_cases hdep : ∃ o, op = .dep o
  · obtain ⟨o, rfl⟩ := hdep
    obtain ⟨c', d, rfl, hd, rfl⟩ := perform_dep hp
    obtain ⟨api, hapi, rfl⟩ := perform_moving hd
    have hclients : (api.clients k).diffs key = some value := hvalue
    rw [perform_clients hapi, Function.update_apply] at hclients
    split at hclients
    · rcases diffs_of_stored hclients with hbefore | rfl
      · exact (h.cached _ _ hbefore).mono (List.subset_cons_self _ _)
      · exact Or.inr ⟨_, List.mem_cons_self, rfl⟩
    · exact (h.cached _ _ hclients).mono (List.subset_cons_self _ _)
  · rw [guardPerform_dep hp fun o ho => hdep ⟨o, ho⟩] at hvalue
    exact (h.cached _ _ hvalue).mono (List.subset_cons_self _ _)

theorem AllObserved.observed_perform {op : GuardOp GitHubSignature} {c : GuardChoice GitHubChoice}
    {answer : (Guarded GitHubSignature).Answer op} (h : AllObserved contents key labels w past)
    (hlabel : labels[i]? = some label) (hallowed : fromDiff label.2 (Machine.own i past) op)
    (hp : (movingMachine contents inst).perform i w op c = some (w', answer)) :
    Observed contents key labels ⟨i, w, op, answer⟩ past where
  diff text hserved := by
    by_cases hdep : ∃ o, op = .dep o
    · obtain ⟨o, rfl⟩ := hdep
      obtain ⟨c', d, rfl, hd, rfl⟩ := perform_dep hp
      obtain ⟨api, hapi, rfl⟩ := perform_moving hd
      exact servedDiff_atHead hapi hserved
    · have hnone := (served_nothing key.pr answer
        (unserving_of_bookkeeping fun o ho => hdep ⟨o, ho⟩)).1
      simp [hnone] at hserved
  page page batch hserved := by
    by_cases hdep : ∃ o, op = .dep o
    · obtain ⟨o, rfl⟩ := hdep
      obtain ⟨c', d, rfl, hd, rfl⟩ := perform_dep hp
      obtain ⟨api, hapi, rfl⟩ := perform_moving hd
      exact servedPage_atHead hapi hserved
    · have hnone := (served_nothing key.pr answer
        (unserving_of_bookkeeping fun o ho => hdep ⟨o, ho⟩)).2
      simp [hnone] at hserved
  found value heq := by
    cases heq
    obtain ⟨c', d, rfl, hd, -⟩ := perform_dep hp
    obtain ⟨api, hapi, -⟩ := perform_moving hd
    cases c' <;> simp only [gitHub, GitHubChoice.atHead, reduceCtorEq] at hapi
    exact h.cached _ _ (Prod.mk.inj (Option.some.inj hapi)).2
  allowed := ⟨label, hlabel, hallowed⟩

theorem AllObserved.perform {op : GuardOp GitHubSignature} {c : GuardChoice GitHubChoice}
    {answer : (Guarded GitHubSignature).Answer op} (h : AllObserved contents key labels w past)
    (hlabel : labels[i]? = some label) (hallowed : fromDiff label.2 (Machine.own i past) op)
    (hp : (movingMachine contents inst).perform i w op c = some (w', answer)) :
    AllObserved contents key labels w' (⟨i, w, op, answer⟩ :: past) where
  cached k value := h.cached_perform hp
  observed later m earlier heq := by
    cases later with
    | nil =>
      obtain ⟨rfl, rfl⟩ := List.cons.inj heq
      exact h.observed_perform hlabel hallowed hp
    | cons m' later => exact h.observed later m earlier (List.cons.inj heq).2

/-- What an operation stores was put together from what it was served. -/
theorem AllObserved.assembled {later : List MovingMoment} {value : DiffAndFiles}
    (h : AllObserved contents key labels w past) (hpast : past = later ++ m :: earlier)
    (hop : m.occurrence.op = .dep (.storeDiff key value)) :
    Assembled key.pr value (Machine.own m.thread earlier) := by
  obtain ⟨label, -, hallowed⟩ := (h.observed later m earlier hpast).allowed
  rwa [hop] at hallowed

/-- Where the stored values are the commit's, so are the used ones. -/
theorem AllObserved.used_eq {value : DiffAndFiles} {recent : List MovingMoment}
    (h : AllObserved contents key labels w past)
    (hstored : ∀ m ∈ past, ∀ value, m.occurrence.op = .dep (.storeDiff key value) →
      value = contents key.pr key.headSha) (hpast : recent <:+ past)
    (hused : Used key value (Machine.own i recent)) : value = contents key.pr key.headSha := by
  obtain ⟨o, hown, huses⟩ := hused
  obtain ⟨m, hmem, -, rfl⟩ := Machine.exists_of_mem_own hown
  rcases huses with hfound | hstores
  · obtain ⟨later, earlier, rfl⟩ := List.append_of_mem hmem
    obtain ⟨recently, rfl⟩ := hpast
    rcases (h.observed (recently ++ later) m earlier (by simp)).found value hfound with
      rfl | ⟨m', hmem', hop⟩
    · rfl
    · exact hstored m' (by simp [hmem']) value hop
  · exact hstored m (hpast.subset hmem) value (by rw [hstores])

/-- Batches that were served are pages of the changed files at their heads. -/
theorem AllObserved.pages {later : List MovingMoment} {n : ℕ} {batch : List ChangedFile}
    (h : AllObserved contents key labels w past) (hpast : past = later ++ m :: earlier)
    (hserved : (n, batch) ∈ (Machine.own m.thread earlier).filterMap (servedPage key.pr)) :
    ∃ request ∈ earlier, request.thread = m.thread ∧
      servedPage key.pr request.occurrence = some (n, batch) ∧
      batch = Paging.page filesPageSize n
        (contents key.pr (request.world.dep.heads key.pr)).changedFiles := by
  obtain ⟨o, hown, hpage⟩ := List.mem_filterMap.mp hserved
  obtain ⟨request, hmem, hthread, rfl⟩ := Machine.exists_of_mem_own hown
  obtain ⟨since, before, hsplit⟩ := List.append_of_mem hmem
  refine ⟨request, hmem, hthread, hpage, ?_⟩
  exact (h.observed (later ++ m :: since) request before (by simp [hpast, hsplit])).page n batch
    hpage

/-- The diff that was served is that of the head. -/
theorem AllObserved.text {later : List MovingMoment} {text : String}
    (h : AllObserved contents key labels w past) (hpast : past = later ++ m :: earlier)
    (hserved : text ∈ (Machine.own m.thread earlier).filterMap (servedDiff key.pr)) :
    ∃ request ∈ earlier, request.thread = m.thread ∧
      servedDiff key.pr request.occurrence = some text ∧
      text = (contents key.pr (request.world.dep.heads key.pr)).diffText := by
  obtain ⟨o, hown, hdiff⟩ := List.mem_filterMap.mp hserved
  obtain ⟨request, hmem, hthread, rfl⟩ := Machine.exists_of_mem_own hown
  obtain ⟨since, before, hsplit⟩ := List.append_of_mem hmem
  refine ⟨request, hmem, hthread, hdiff, ?_⟩
  exact (h.observed (later ++ m :: since) request before (by simp [hpast, hsplit])).diff text hdiff

/-- A stored value is the commit's exactly when the operation that stores it was served as of the
commit. -/
theorem AllObserved.stored_iff {later : List MovingMoment} {value : DiffAndFiles}
    (h : AllObserved contents key labels w past) (hpast : past = later ++ m :: earlier)
    (hop : m.occurrence.op = .dep (.storeDiff key value)) :
    value = contents key.pr key.headSha ↔
      ∀ request ∈ earlier, request.thread = m.thread → ServedAsOf contents key request := by
  obtain ⟨k, items, batch, batches, ⟨hdiffs, hpages⟩, hcollected, hlast, hfiles⟩ :=
    h.assembled hpast hop
  have hserved : ∀ b ∈ (k + 1, batch) :: batches, ∃ request ∈ earlier, request.thread = m.thread ∧
      servedPage key.pr request.occurrence = some b ∧ b.2 = Paging.page filesPageSize b.1
        (contents key.pr (request.world.dep.heads key.pr)).changedFiles :=
    fun b hb => h.pages hpast (by rw [hpages]; exact hb)
  have hle : ∀ b ∈ batches, b.2.length ≤ filesPageSize := by
    intro b hb
    obtain ⟨request, -, -, -, hpage⟩ := hserved b (List.mem_cons_of_mem _ hb)
    rw [hpage]
    exact List.length_take_le _ _
  have hcomplete : value.changedFiles = (contents key.pr key.headSha).changedFiles ↔ _ :=
    hfiles ▸ hcollected.complete_iff hle hlast
  constructor
  · rintro rfl request hmem hthread
    obtain ⟨since, before, hsplit⟩ := List.append_of_mem hmem
    have hobserved := h.observed (later ++ m :: since) request before (by simp [hpast, hsplit])
    refine ⟨fun text hdiff => ?_, fun page batch' hpage => ?_⟩
    · have hown := List.mem_filterMap.mpr ⟨_, hthread ▸ Machine.mem_own hmem, hdiff⟩
      rw [hdiffs, List.mem_singleton] at hown
      rw [← hobserved.diff text hdiff, hown]
    · have hown := List.mem_filterMap.mpr ⟨_, hthread ▸ Machine.mem_own hmem, hpage⟩
      rw [hpages] at hown
      rw [← hobserved.page page batch' hpage]
      exact hcomplete.mp rfl _ hown
  · intro hasOf
    have htext : value.diffText = (contents key.pr key.headSha).diffText := by
      obtain ⟨request, hmem, hthread, hdiff, htext⟩ :=
        h.text hpast (by rw [hdiffs]; exact List.mem_singleton_self _)
      exact htext.trans ((hasOf request hmem hthread).1 _ hdiff)
    have hchanged : value.changedFiles = (contents key.pr key.headSha).changedFiles := by
      apply hcomplete.mpr
      intro b hb
      obtain ⟨request, hmem, hthread, hserved, hpage⟩ := hserved b hb
      exact hpage.trans ((hasOf request hmem hthread).2 _ _ hserved)
    calc value = ⟨value.diffText, value.changedFiles⟩ := rfl
      _ = contents key.pr key.headSha := by rw [htext, hchanged]

/-- Operations of clients whose caches have only the commit's value under the key. -/
theorem operations_observed {ss : List MovingSched} {c : MovingConfig}
    (hstart : ∀ k value, (w.dep.api.clients k).diffs key = some value →
      value = contents key.pr key.headSha)
    (hrun : (movingMachine contents inst).exec observing ⟨w, []⟩ ss = some c) :
    Machine.Following (fun label => fromDiff label.2)
      (fun label => Ends (ofUsed label.2) fun _ => True) (Machine.started ss) c
      ((movingMachine contents inst).moments observing ⟨w, []⟩ ss) ∧
    AllObserved contents key (Machine.started ss) c.world
      ((movingMachine contents inst).moments observing ⟨w, []⟩ ss) := by
  refine Machine.moments_follow (C := fun label => fromDiff label.2) observing_follows ?_ ?_ hrun ?_
  · intro w past i label op choice w' answer hJ hlabel hallowed hp
    exact hJ.perform hlabel hallowed hp
  · intro w past m w' hJ hmove
    refine ⟨fun k value hvalue => ?_, hJ.observed⟩
    rw [moving_move_clients hmove] at hvalue
    exact hJ.cached k value hvalue
  · exact ⟨fun k value hvalue => Or.inl (hstart k value hvalue), fun later m earlier heq => by
      simp at heq⟩

/-- In any interleaving of operations and pushes, everything under a key is about the commit which
the key names exactly when no push shows between the requests of an operation that fills the
cache. -/
theorem about_commit_iff {ss : List MovingSched} {c : MovingConfig}
    (hstart : ∀ k value, (w.dep.api.clients k).diffs key = some value →
      value = contents key.pr key.headSha)
    (hrun : (movingMachine contents inst).exec observing ⟨w, []⟩ ss = some c) :
    AboutCommit contents key (Machine.started ss) c
        ((movingMachine contents inst).moments observing ⟨w, []⟩ ss) ↔
      HeadStays contents key ((movingMachine contents inst).moments observing ⟨w, []⟩ ss) := by
  obtain ⟨hfollowing, hall⟩ := operations_observed hstart hrun
  constructor
  · intro habout later store earlier value hpast hop
    exact (hall.stored_iff hpast hop).mp (habout.stored store (by simp [hpast]) value hop)
  · intro hstays
    have hstored : ∀ m ∈ (movingMachine contents inst).moments observing ⟨w, []⟩ ss, ∀ value,
        m.occurrence.op = .dep (.storeDiff key value) → value = contents key.pr key.headSha := by
      intro m hmem value hop
      obtain ⟨later, earlier, hpast⟩ := List.append_of_mem hmem
      exact (hall.stored_iff hpast hop).mpr (hstays later m earlier value hpast hop)
    refine ⟨hstored, ?_, ?_⟩
    · intro i client text hlabel hdone
      obtain ⟨label, hlabel', hfollows⟩ := hfollowing.follows i _ hdone
      obtain rfl := Option.some.inj (hlabel.symm.trans hlabel')
      obtain ⟨value, hused, htext⟩ := hfollows
      rw [Option.some.inj htext, hall.used_eq hstored List.suffix_rfl hused]
    · intro m hmem client review hlabel hpr hsha pr body bearer hop
      obtain ⟨later, earlier, hpast⟩ := List.append_of_mem hmem
      obtain ⟨label, hlabel', hallowed⟩ := (hall.observed later m earlier hpast).allowed
      obtain rfl := Option.some.inj (hlabel.symm.trans hlabel')
      rw [hop] at hallowed
      obtain ⟨rfl, value, hbody, hused⟩ := hallowed review rfl
      rw [hpr, hsha] at hused
      refine ⟨hpr, ?_⟩
      rwa [hall.used_eq hstored ⟨later ++ [m], by simp [hpast]⟩ hused] at hbody

end

/-- A pull request whose diff is, at every commit, the commit's name. -/
def namedContents : Contents := fun _ headSha => ⟨headSha, []⟩

/-- A client that holds its token, and a pull request at its first commit. -/
def firstCommit : GuardWorld MovingWorld where
  breaker := warmWorld.breaker
  clock := 0
  running := []
  dep := ⟨warmWorld.dep, fun _ => "first"⟩

def firstKey : DiffKey := ⟨.sample, "first"⟩

/-- The thread takes these steps. -/
def movesOf (i : ℕ) (choices : List (GuardChoice GitHubChoice)) : List MovingSched :=
  choices.map fun choice => .act i choice

/-- The steps of a fetch up to its diff: nothing is cached, and the token is there. -/
def authorized : List (GuardChoice GitHubChoice) :=
  [.dep .go, .dep .go, .dep (.signs (.ok "jwt")), .go, .dep .go, .go, .go, .dep .go, .go]

/-- Its other steps: the diff, one page of files, and the cache. -/
def served : List (GuardChoice GitHubChoice) :=
  [.go, .dep .healthy, .go, .dep (.rounds 1), .go, .dep .healthy, .go, .dep .go]

/-- A fetch for the first commit; `pushes` come between its authorization and the diff. -/
def fetchWith (pushes : List (GuardMove MovingMove)) : List MovingSched :=
  .start (RealGitHubClient.default "1", .fetchDiff .sample "first") ::
    (movesOf 0 authorized ++ pushes.map (fun move => .move move) ++ movesOf 0 served)

def storesText (key : DiffKey) (text : String) (m : MovingMoment) : Bool :=
  match m.occurrence.op with
  | .dep (.storeDiff key' value) => decide (key' = key) && decide (value.diffText = text)
  | _ => false

/-- A push after the fetch was asked for: what is stored under the first commit is the second's. -/
theorem later_diff_stored_for_first :
    ∃ c, (movingMachine namedContents fun _ => 0).exec observing ⟨firstCommit, []⟩
        (fetchWith [.dep (.push .sample "second")]) = some c ∧
      ¬ AboutCommit namedContents firstKey
        (Machine.started (fetchWith [.dep (.push .sample "second")])) c
        ((movingMachine namedContents fun _ => 0).moments observing ⟨firstCommit, []⟩
          (fetchWith [.dep (.push .sample "second")])) := by
  have hreach : (movingMachine namedContents fun _ => 0).reaches observing ⟨firstCommit, []⟩
      (fetchWith [.dep (.push .sample "second")]) (fun _ => true) = true := by
    decide +kernel
  obtain ⟨c, hrun, -⟩ := Machine.exists_of_reaches hreach
  refine ⟨c, hrun, fun habout => ?_⟩
  have hstores : ((movingMachine namedContents fun _ => 0).moments observing ⟨firstCommit, []⟩
      (fetchWith [.dep (.push .sample "second")])).any (storesText firstKey "second") = true := by
    decide +kernel
  obtain ⟨m, hmem, hm⟩ := List.any_eq_true.mp hstores
  unfold storesText at hm
  split at hm
  · rename_i key' value hop
    simp only [Bool.and_eq_true, decide_eq_true_eq] at hm
    obtain ⟨rfl, htext⟩ := hm
    have hvalue := habout.stored m hmem value hop
    rw [hvalue] at htext
    exact absurd htext (by decide)
  · cases hm

/-- The pull request at the commit that the review is about. -/
def reviewedCommit : GuardWorld MovingWorld :=
  { firstCommit with dep := ⟨warmWorld.dep, fun _ => Review.sample.headSha⟩ }

def reviewedKey : DiffKey := ⟨.sample, Review.sample.headSha⟩

/-- A fetch for that commit, a push after it, and the post of the review from what is cached. -/
def fetchPushPost : List MovingSched :=
  .start (RealGitHubClient.default "1", .fetchDiff .sample Review.sample.headSha) ::
    (movesOf 0 authorized ++ movesOf 0 served ++ .move (.dep (.push .sample "second")) ::
      .start (RealGitHubClient.default "1", .postReviewComment .sample) ::
      movesOf 1 [.dep .go, .dep (.signs (.ok "jwt")), .go, .dep .go, .go, .go, .dep .go, .go,
        .go, .dep .healthy, .go, .dep .go, .go, .dep .healthy, .go])

/-- The moment stores a diff. -/
def storesDiff (m : MovingMoment) : Bool :=
  match m.occurrence.op with
  | .dep (.storeDiff ..) => true
  | _ => false

/-- With a push between them, the fetch and the post are about the commit. -/
theorem about_commit_pushed_after :
    ∃ c, (movingMachine namedContents fun _ => 0).exec observing ⟨reviewedCommit, []⟩ fetchPushPost =
        some c ∧
      c.world.dep.heads .sample = "second" ∧ (posts c.world.dep.api.log).length = 1 ∧
      AboutCommit namedContents reviewedKey (Machine.started fetchPushPost) c
        ((movingMachine namedContents fun _ => 0).moments observing ⟨reviewedCommit, []⟩
          fetchPushPost) := by
  have hreach : (movingMachine namedContents fun _ => 0).reaches observing ⟨reviewedCommit, []⟩
      fetchPushPost (fun w => decide (w.dep.heads .sample = "second") &&
        decide ((posts w.dep.api.log).length = 1)) = true := by
    decide +kernel
  obtain ⟨c, hrun, hc⟩ := Machine.exists_of_reaches hreach
  rw [Bool.and_eq_true, decide_eq_true_eq, decide_eq_true_eq] at hc
  refine ⟨c, hrun, hc.1, hc.2, (about_commit_iff (by simp [reviewedCommit, warmWorld]) hrun).mpr ?_⟩
  have hmoments : ∀ m ∈ (movingMachine namedContents fun _ => 0).moments observing
      ⟨reviewedCommit, []⟩ fetchPushPost, (storesDiff m = true → m.thread = 0) ∧
        (m.thread = 0 → m.world.dep.heads .sample = Review.sample.headSha) := by
    decide +kernel
  intro later store earlier value hpast hop m hmem hthread
  have hstores : storesDiff store = true := by rw [storesDiff, hop]
  have hfetch := (hmoments store (by simp [hpast])).1 hstores
  have hsame : m.world.dep.heads reviewedKey.pr = reviewedKey.headSha :=
    (hmoments m (by simp [hpast, hmem])).2 (hthread.trans hfetch)
  exact ⟨fun _ _ => by rw [hsame], fun _ _ _ => by rw [hsame]⟩

end ReviewAgent
