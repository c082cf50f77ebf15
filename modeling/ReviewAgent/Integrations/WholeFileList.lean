import ReviewAgent.Integrations.Accounting
import ReviewAgent.Integrations.PostedOnce

/-! The changed files of a pull request are all there: the loop over their pages ends, and has read
every page. -/
namespace ReviewAgent

open Effects

/-- The page of the changed files is asked for. -/
def AsksPage (pr : PullRequest) (page : ℕ) (h : GitHubHistory) : Prop :=
  ∃ o ∈ h, ∃ bearer, o.op = .dep (.http (.files pr filesPageSize page) bearer)

/-- A call for a page has failed there: it was refused, or the answer is no page. -/
def FailsPage (pr : PullRequest) : Occurrence (Guarded GitHubSignature) → Prop
  | ⟨.admission, .error _⟩ => True
  | ⟨.dep (.http (.files pr' perPage page) bearer), answer⟩ =>
    pr' = pr ∧ servedPage pr ⟨.dep (.http (.files pr' perPage page) bearer), answer⟩ = none
  | _ => False

/-- Every failure is made good: there is none after the newest page answered. -/
def Absorbed (pr : PullRequest) (h : GitHubHistory) : Prop :=
  ∀ o ∈ h.takeWhile fun o => (servedPage pr o).isNone, ¬ FailsPage pr o

/-- GitHub's answers to requests for changed files are their pages, apart from those that fail, and
the loop may go on for as many rounds as there are pages. -/
def ServesFiles (pr : PullRequest) (files : List ChangedFile) :
    Occurrence (Guarded GitHubSignature) → Prop
  | ⟨.dep .rounds, rounds⟩ => files.length / filesPageSize < rounds
  | ⟨.dep (.http (.files pr' perPage page) _), .ok response⟩ =>
    pr' = pr → response.statusCode < 300 → response.json = .ok (Paging.page perPage page files)
  | _ => True

/-- So far. -/
def Serving (pr : PullRequest) (files : List ChangedFile) (h : GitHubHistory) : Prop :=
  ∀ o ∈ h, ServesFiles pr files o

instance : DecidableEq ChangedFile := fun a b =>
  decidable_of_iff (a.filename = b.filename ∧ a.patch = b.patch) (by cases a; cases b; simp)

instance decidableEqExcept {ε α : Type} [DecidableEq ε] [DecidableEq α] :
    DecidableEq (Except ε α)
  | .ok a, .ok b => decidable_of_iff (a = b) (by simp)
  | .error e, .error e' => decidable_of_iff (e = e') (by simp)
  | .ok _, .error _ | .error _, .ok _ => isFalse (by simp)

instance (pr : PullRequest) : DecidablePred (FailsPage pr)
  | ⟨.admission, .error _⟩ => isTrue trivial
  | ⟨.dep (.http (.files ..) _), _⟩ => inferInstanceAs (Decidable (_ = _ ∧ _ = none))
  | ⟨.admission, .ok _⟩ | ⟨.dep .rounds, _⟩
  | ⟨.dep .now, _⟩ | ⟨.dep (.sign _), _⟩ | ⟨.dep (.resolved ..), _⟩ | ⟨.dep (.storeResolved ..), _⟩
  | ⟨.dep (.cachedToken _), _⟩ | ⟨.dep (.storeToken ..), _⟩ | ⟨.dep (.cachedDiff _), _⟩
  | ⟨.dep (.storeDiff ..), _⟩ | ⟨.dep .loops, _⟩ | ⟨.dep (.http (.installation ..) _), _⟩
  | ⟨.dep (.http (.accessToken ..) _), _⟩ | ⟨.dep (.http (.pull ..) _), _⟩
  | ⟨.dep (.http (.diff ..) _), _⟩ | ⟨.dep (.http (.reviews ..) _), _⟩
  | ⟨.dep (.http (.createReview ..) _), _⟩ | ⟨.recordFailure, _⟩ | ⟨.recordSuccess, _⟩
  | ⟨.sleep _, _⟩ | ⟨.rand, _⟩ => isFalse id

instance (pr : PullRequest) (h : GitHubHistory) : Decidable (Absorbed pr h) := by
  unfold Absorbed
  infer_instance

instance (pr : PullRequest) (files : List ChangedFile) : DecidablePred (ServesFiles pr files)
  | ⟨.dep .rounds, _⟩ => Nat.decLt _ _
  | ⟨.dep (.http (.files ..) _), .ok _⟩ =>
    inferInstanceAs
      (Decidable (_ → _ → @Eq (Except Exc (List ChangedFile)) (Response.json _) (.ok _)))
  | ⟨.dep (.http (.files ..) _), .error _⟩ | ⟨.admission, _⟩
  | ⟨.dep .now, _⟩ | ⟨.dep (.sign _), _⟩ | ⟨.dep (.resolved ..), _⟩ | ⟨.dep (.storeResolved ..), _⟩
  | ⟨.dep (.cachedToken _), _⟩ | ⟨.dep (.storeToken ..), _⟩ | ⟨.dep (.cachedDiff _), _⟩
  | ⟨.dep (.storeDiff ..), _⟩ | ⟨.dep .loops, _⟩ | ⟨.dep (.http (.installation ..) _), _⟩
  | ⟨.dep (.http (.accessToken ..) _), _⟩ | ⟨.dep (.http (.pull ..) _), _⟩
  | ⟨.dep (.http (.diff ..) _), _⟩ | ⟨.dep (.http (.reviews ..) _), _⟩
  | ⟨.dep (.http (.createReview ..) _), _⟩ | ⟨.recordFailure, _⟩ | ⟨.recordSuccess, _⟩
  | ⟨.sleep _, _⟩ | ⟨.rand, _⟩ => isTrue trivial

instance (pr : PullRequest) (files : List ChangedFile) (h : GitHubHistory) :
    Decidable (Serving pr files h) := by
  unfold Serving
  infer_instance

/-- Exactly the first `k` pages have been asked for. -/
def AskedUpTo (pr : PullRequest) (k : ℕ) (h : GitHubHistory) : Prop :=
  ∀ page, AsksPage pr page h ↔ 1 ≤ page ∧ page ≤ k

/-- The page after the first `k` is being asked for, in vain so far. -/
def Waiting (pr : PullRequest) (k : ℕ) (h : GitHubHistory) : Prop :=
  (AskedUpTo pr k h ∨ AskedUpTo pr (k + 1) h) ∧ ¬ Absorbed pr h

section

variable {client : RealGitHubClient} {pr : PullRequest} {headers : String}
  {files : List ChangedFile} {h : GitHubHistory} {k : ℕ}

theorem Serving.of_cons {o : Occurrence (Guarded GitHubSignature)} (hs : Serving pr files (o :: h)) :
    Serving pr files h := fun o' ho' => hs o' (List.mem_cons_of_mem _ ho')

theorem asksPage_cons {page : ℕ} {o : Occurrence (Guarded GitHubSignature)} :
    AsksPage pr page (o :: h) ↔
      (∃ bearer, o.op = .dep (.http (.files pr filesPageSize page) bearer)) ∨ AsksPage pr page h := by
  simp [AsksPage]

theorem servedPage_op {o : Occurrence (Guarded GitHubSignature)} {page : ℕ}
    {batch : List ChangedFile} (hserved : servedPage pr o = some (page, batch)) :
    ∃ bearer, o.op = .dep (.http (.files pr filesPageSize page) bearer) := by
  unfold servedPage at hserved
  split at hserved
  · split at hserved
    · split at hserved
      · rename_i hcond
        obtain ⟨rfl, rfl, -⟩ := hcond
        cases hserved
        exact ⟨_, rfl⟩
      · cases hserved
    · cases hserved
  · cases hserved

theorem not_absorbed_of_fails {o : Occurrence (Guarded GitHubSignature)}
    (hserved : servedPage pr o = none) (ho : FailsPage pr o) : ¬ Absorbed pr (o :: h) :=
  fun habsorbed => habsorbed o (by simp [hserved]) ho

theorem not_absorbed_cons {o : Occurrence (Guarded GitHubSignature)}
    (hserved : servedPage pr o = none) (hnot : ¬ Absorbed pr h) : ¬ Absorbed pr (o :: h) := by
  intro habsorbed
  refine hnot fun o' ho' => habsorbed o' ?_
  rw [List.takeWhile_cons_of_pos (by simp [hserved])]
  exact List.mem_cons_of_mem _ ho'

/-- Another page asked for. -/
theorem AskedUpTo.ask (ha : AskedUpTo pr k h) {bearer : String}
    {answer : (Guarded GitHubSignature).Answer (.dep (.http (.files pr filesPageSize (k + 1)) bearer))} :
    AskedUpTo pr (k + 1) (⟨.dep (.http (.files pr filesPageSize (k + 1)) bearer), answer⟩ :: h) := by
  intro page
  rw [asksPage_cons, ha page]
  constructor
  · rintro (⟨bearer', hop⟩ | hbefore)
    · cases hop
      omega
    · omega
  · rintro ⟨hlo, hhi⟩
    by_cases hlast : page = k + 1
    · exact Or.inl ⟨bearer, by rw [hlast]⟩
    · exact Or.inr (by omega)

/-- The last page asked for again. -/
theorem AskedUpTo.again (ha : AskedUpTo pr (k + 1) h) {bearer : String}
    {answer : (Guarded GitHubSignature).Answer (.dep (.http (.files pr filesPageSize (k + 1)) bearer))} :
    AskedUpTo pr (k + 1) (⟨.dep (.http (.files pr filesPageSize (k + 1)) bearer), answer⟩ :: h) := by
  intro page
  rw [asksPage_cons, ha page]
  constructor
  · rintro (⟨bearer', hop⟩ | hbefore)
    · cases hop
      omega
    · exact hbefore
  · exact Or.inr

theorem askedUpTo_cons {o : Occurrence (Guarded GitHubSignature)}
    (ho : ∀ page bearer, o.op ≠ .dep (.http (.files pr filesPageSize page) bearer))
    (ha : AskedUpTo pr k h) : AskedUpTo pr k (o :: h) := by
  intro page
  rw [asksPage_cons, ha page, or_iff_right]
  rintro ⟨bearer, hop⟩
  exact ho page bearer hop

theorem waiting_cons {o : Occurrence (Guarded GitHubSignature)}
    (ho : ∀ page bearer, o.op ≠ .dep (.http (.files pr filesPageSize page) bearer))
    (hw : Waiting pr k h) : Waiting pr k (o :: h) := by
  refine ⟨hw.1.imp (askedUpTo_cons ho) (askedUpTo_cons ho), not_absorbed_cons ?_ hw.2⟩
  rcases hserved : servedPage pr o with _ | ⟨page, batch⟩
  · rfl
  · obtain ⟨bearer, hop⟩ := servedPage_op hserved
    exact absurd hop (ho page bearer)

/-- What does not ask for a page while GitHub serves them. -/
theorem overBookkeeping_serving {P : GitHubHistory → Prop}
    (hP : ∀ h o, (∀ page bearer, o.op ≠ .dep (.http (.files pr filesPageSize page) bearer)) →
      P h → P (o :: h)) : OverBookkeeping fun h => Serving pr files h → P h := by
  intro h op answer hop hh hs
  exact hP h ⟨op, answer⟩ (fun page bearer => hop _) (hh hs.of_cons)

/-- The loop stops at no round, while GitHub serves. -/
def goesOn (pr : PullRequest) (files : List ChangedFile) (h : GitHubHistory)
    (op : GuardOp GitHubSignature) : Prop := Serving pr files h → op ≠ .dep .loops

theorem allowsBookkeeping_goesOn : AllowsBookkeeping (goesOn pr files) :=
  fun _ _ hop _ => hop _

/-- A request for the next page, from a history that says `P`. -/
theorem asks_page {P : GitHubHistory → Prop} (hasks : ∀ h bearer answer, P h →
      AskedUpTo pr (k + 1) (⟨.dep (.http (.files pr filesPageSize (k + 1)) bearer), answer⟩ :: h)) :
    Behaves (goesOn pr files) (fun h => Serving pr files h → P h)
      (RealGitHubClient.attempt (.files pr filesPageSize (k + 1)) headers)
      (fun response h => Serving pr files h → AskedUpTo pr (k + 1) h ∧
        response.json = .ok (Paging.page filesPageSize (k + 1) files))
      fun h => Serving pr files h → Waiting pr k h := by
  apply behaves_attempt
  · exact fun h hP hs => by simp
  · intro h e hP hs
    have hserved : servedPage pr ⟨.dep (.http (.files pr filesPageSize (k + 1)) headers),
        .error e⟩ = none := by simp [servedPage]
    exact ⟨Or.inr (hasks h _ _ (hP hs.of_cons)), not_absorbed_of_fails hserved ⟨rfl, hserved⟩⟩
  · intro h response hstatus hP hs
    have hserved : servedPage pr ⟨.dep (.http (.files pr filesPageSize (k + 1)) headers),
        .ok response⟩ = none := by
      cases hjson : response.json <;> simp [servedPage, hjson, hstatus]
    exact ⟨Or.inr (hasks h _ _ (hP hs.of_cons)), not_absorbed_of_fails hserved ⟨rfl, hserved⟩⟩
  · intro h response hstatus hP hs
    exact ⟨hasks h _ _ (hP hs.of_cons), hs _ List.mem_cons_self rfl hstatus⟩

/-- The call for the next page, with its retries. -/
theorem calls_page : Behaves (goesOn pr files) (fun h => Serving pr files h → AskedUpTo pr k h)
    (client.callReliably (RealGitHubClient.attempt (.files pr filesPageSize (k + 1)) headers))
    (fun response h => Serving pr files h → AskedUpTo pr (k + 1) h ∧
      response.json = .ok (Paging.page filesPageSize (k + 1) files))
    fun h => Serving pr files h → Waiting pr k h := by
  apply Behaves.tried allowsBookkeeping_goesOn
  · exact overBookkeeping_serving fun h o ho ha => askedUpTo_cons ho ha
  · exact overBookkeeping_serving fun h o ho hw => waiting_cons ho hw
  · exact fun response => overBookkeeping_serving fun h o ho ha => ⟨askedUpTo_cons ho ha.1, ha.2⟩
  · intro h e hP hs
    exact ⟨Or.inl (askedUpTo_cons (by simp) (hP hs.of_cons)), not_absorbed_of_fails rfl trivial⟩
  · exact asks_page fun h bearer answer ha => ha.ask
  · apply asks_page
    intro h bearer answer hw
    rcases hw.1 with hbefore | hagain
    · exact hbefore.ask
    · exact hagain.again

/-- Operations enough for one call per page. -/
def RealGitHubClient.filesBound (client : RealGitHubClient) (files : List ChangedFile) : ℕ :=
  1 + (files.length / filesPageSize + 1) * (client.retryPolicy.maxAttempts * 6)

/-- The loop goes on within that bound, while GitHub serves. -/
def readsOn (client : RealGitHubClient) (pr : PullRequest) (files : List ChangedFile)
    (h : GitHubHistory) (op : GuardOp GitHubSignature) : Prop :=
  Serving pr files h → op ≠ .dep .loops ∧ h.length < client.filesBound files

/-- The loop has the whole list, or a failure that is not made good. -/
def ReadsAll (client : RealGitHubClient) (pr : PullRequest) (files : List ChangedFile)
    (r : Except Exc (List ChangedFile)) (h : GitHubHistory) : Prop :=
  Serving pr files h → h.length ≤ client.filesBound files ∧
    (¬ Absorbed pr h ∨ r = .ok files ∧ AskedUpTo pr (files.length / filesPageSize + 1) h)

theorem lasting_not_serving : Lasting fun h => ¬ Serving pr files h :=
  fun _ _ hs hnot hserving => hnot fun o ho => hserving o (hs ho)

theorem follows_of_not_serving {p : Session (List ChangedFile)} (hnot : ¬ Serving pr files h) :
    p.Follows (readsOn client pr files) (ReadsAll client pr files) h := by
  refine (Behaves.of_lasting lasting_not_serving (C := readsOn client pr files)
    (fun h op hnot hs => absurd hs hnot) p h hnot).mono fun r h' hr => ?_
  cases r with
  | ok a => exact fun hs => absurd hs hr
  | error e => exact fun hs => absurd hs hr

theorem attempt_endsWithin {request : GitHubRequest} :
    (RealGitHubClient.attempt request headers).EndsWithin 1 := by
  rintro (e | response)
  · exact .done
  · cases herror : request.statusError response.toReply with
    | ok u => 
      show Program.EndsWithin 0 (Program.ofExcept (request.statusError response.toReply) >>= _)
      rw [herror]
      exact .done
    | error e =>
      show Program.EndsWithin 0 (Program.ofExcept (request.statusError response.toReply) >>= _)
      rw [herror]
      exact .done

/-- The loop, after `k` full pages. -/
theorem reads_changedFilesFrom (remaining k : ℕ) (hserving : Serving pr files h)
    (hasked : AskedUpTo pr k h) (hfull : k * filesPageSize ≤ files.length)
    (hrounds : files.length / filesPageSize < remaining + k)
    (hlength : h.length ≤ 1 + k * (client.retryPolicy.maxAttempts * 6)) :
    (client.changedFilesFrom pr headers remaining (k + 1) (files.take (k * filesPageSize))).Follows
      (readsOn client pr files) (ReadsAll client pr files) h := by
  have hk : k ≤ files.length / filesPageSize := (Nat.le_div_iff_mul_le (by decide)).mpr hfull
  induction remaining generalizing k h with
  | zero => omega
  | succ remaining ih =>
    have hbound : 1 + k * (client.retryPolicy.maxAttempts * 6) +
        client.retryPolicy.maxAttempts * (1 + 5) ≤ client.filesBound files := by
      have hmul : (k + 1) * (client.retryPolicy.maxAttempts * 6) ≤
          (files.length / filesPageSize + 1) * (client.retryPolicy.maxAttempts * 6) :=
        Nat.mul_le_mul_right _ (Nat.succ_le_succ hk)
      rw [Nat.succ_mul] at hmul
      unfold RealGitHubClient.filesBound
      omega
    have hcall := ((@calls_page client pr headers files k h
      fun _ => hasked).and ((callReliably_endsWithin attempt_endsWithin).follows h)).imp
        (D := readsOn client pr files) fun h' op hop hs => ⟨hop.1 hs, by have := hop.2; omega⟩
    refine hcall.bind (fun response h' hresponse => ?_) fun e h' herror => ?_
    · obtain ⟨hpage, hlen⟩ := hresponse
      by_cases hs : Serving pr files h'
      · obtain ⟨hasked', hjson⟩ := hpage hs
        have hbatch : (Paging.page filesPageSize (k + 1) files).length =
            min filesPageSize (files.length - k * filesPageSize) := by
          simp [Paging.page]
        have htake : files.take (k * filesPageSize) ++ Paging.page filesPageSize (k + 1) files =
            files.take ((k + 1) * filesPageSize) := by
          rw [Nat.succ_mul, List.take_add]
          simp [Paging.page]
        show Program.Follows _ _ h' (Program.ofExcept response.json >>= _)
        rw [hjson]
        show Program.Follows _ _ h' (ite _ _ _)
        by_cases hlast : (Paging.page filesPageSize (k + 1) files).length < filesPageSize
        · -- the page is not full, so the list ends on it
          have hend : files.length < (k + 1) * filesPageSize := by
            rw [Nat.succ_mul]
            omega
          have hpages : files.length / filesPageSize = k :=
            Nat.div_eq_of_lt_le hfull hend
          have hall : files.take (k * filesPageSize) ++ Paging.page filesPageSize (k + 1) files =
              files := by
            rw [htake, List.take_of_length_le hend.le]
          have hdone : ReadsAll client pr files (.ok files) h' :=
            fun _ => ⟨by omega, Or.inr ⟨rfl, by rwa [hpages]⟩⟩
          split
          · rename_i hempty
            rw [List.isEmpty_iff.mp hempty, List.append_nil] at hall
            rw [hall]
            exact hdone
          · rw [hall]
            exact hdone
        · have hmore : (k + 1) * filesPageSize ≤ files.length := by
            rw [Nat.succ_mul]
            omega
          split
          · rename_i hempty
            rw [List.isEmpty_iff.mp hempty] at hlast
            exact absurd (by decide : ([] : List ChangedFile).length < filesPageSize) hlast
          · rw [htake]
            refine ih (k + 1) hs hasked' hmore (by omega) ?_
              ((Nat.le_div_iff_mul_le (by decide)).mpr hmore)
            rw [Nat.succ_mul]
            omega
      · exact follows_of_not_serving hs
    · obtain ⟨hwaiting, hlen⟩ := herror
      exact fun hs => ⟨by omega, Or.inl (hwaiting hs).2⟩

theorem reads_getChangedFiles : (client.getChangedFiles pr headers).Follows
    (readsOn client pr files) (ReadsAll client pr files) [] := by
  refine ⟨fun _ => ⟨by simp, by simp [RealGitHubClient.filesBound]⟩, fun rounds => ?_⟩
  by_cases hs : Serving pr files [⟨.dep .rounds, rounds⟩]
  · have hrounds : files.length / filesPageSize < rounds := hs _ List.mem_cons_self
    have hnone : AskedUpTo pr 0 [⟨.dep .rounds, rounds⟩] := by
      apply askedUpTo_cons (by simp)
      intro page
      simp [AsksPage]
      omega
    show Program.Follows _ _ _ (client.changedFilesFrom pr headers rounds 1 [])
    simpa using @reads_changedFilesFrom client pr headers files _ rounds 0 hs hnone
      (by simp) (by simpa using hrounds) (by simp)
  · exact follows_of_not_serving hs

/-- While GitHub serves the pages of a list, apart from failures, the loop over them ends. If every
failure is made good, it returns the list, and it has asked for exactly the pages up to one that is
not full. -/
theorem changed_files_whole {inst : ℕ → ℕ} {i : ℕ} {w w' : GuardWorld GitHubWorld}
    {p : Session (List ChangedFile)} {es : List SessionEvent}
    (hrun : (gitHubMachine inst).run i w (client.getChangedFiles pr headers) es = some (w', p))
    (hserving : Serving pr files
      ((gitHubMachine inst).occurrences i w (client.getChangedFiles pr headers) es)) :
    let h := (gitHubMachine inst).occurrences i w (client.getChangedFiles pr headers) es
    h.length ≤ client.filesBound files ∧ (∀ next, p ≠ .step (.dep .loops) next) ∧
      ∀ r, p = .done r → Absorbed pr h →
        r = .ok files ∧
          ∀ page, AsksPage pr page h ↔ 1 ≤ page ∧ page ≤ files.length / filesPageSize + 1 := by
  intro h
  obtain ⟨hends, -⟩ := Machine.run_follows (@reads_getChangedFiles client pr headers files) Machine.kept_nil hrun
  rw [List.append_nil] at hends
  cases p with
  | done r =>
    obtain ⟨hlength, hresult⟩ := hends hserving
    refine ⟨hlength, nofun, fun r' hr habsorbed => ?_⟩
    cases hr
    exact hresult.resolve_left fun hnot => hnot habsorbed
  | step op next =>
    obtain ⟨hop, hlength⟩ := hends.1 hserving
    refine ⟨hlength.le, fun next' hnext => ?_, nofun⟩
    cases hnext
    exact hop rfl

end

/-- GitHub answers requests for changed files with pages of this list. -/
def GitHubRequest.listing (files : List ChangedFile) :
    (request : GitHubRequest) → Response request.Content
  | .files _ perPage page => { statusCode := 200, json := .ok (Paging.page perPage page files) }
  | request => request.healthyAnswer

/-- A hundred and one files. -/
def manyFiles : List ChangedFile := .replicate 101 .oneLine

/-- Two pages are read; the first request for each is lost. -/
def readsTwoPages : List SessionEvent :=
  .act (.dep (.rounds 2)) :: (answerLost false ++ pageAnswered ++ answerLost false ++ pageAnswered)
where
  pageAnswered : List SessionEvent :=
    [.act .go, .act (.dep (.answers (GitHubRequest.listing manyFiles))), .act .go]

/-- The loop over the pages of the sample review's pull request. -/
def sampleFiles : Session (List ChangedFile) :=
  (RealGitHubClient.default "1").getChangedFiles Review.sample.pullRequest "token"

theorem changed_files_of_two_pages :
    ∃ w, (gitHubMachine id).run 0 (reviewedWorld []) sampleFiles readsTwoPages =
        some (w, .done (.ok manyFiles)) ∧
      ∀ page, AsksPage Review.sample.pullRequest page
        ((gitHubMachine id).occurrences 0 (reviewedWorld []) sampleFiles readsTwoPages) ↔
          1 ≤ page ∧ page ≤ 2 := by
  have hreturns : (gitHubMachine id).returns 0 (reviewedWorld []) sampleFiles readsTwoPages
      (fun _ _ => true) = true := by
    decide +kernel
  obtain ⟨w, files, hrun, -⟩ := Machine.exists_of_returns hreturns
  obtain ⟨-, -, hwhole⟩ := @changed_files_whole _ _ _ manyFiles _ _ _ _ _ _ hrun (by decide +kernel)
  obtain ⟨hfiles, hpages⟩ := hwhole _ rfl (by decide +kernel)
  cases hfiles
  exact ⟨w, hrun, hpages⟩

end ReviewAgent
