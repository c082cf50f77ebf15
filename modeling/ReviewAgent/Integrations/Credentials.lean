import ReviewAgent.Integrations.GitHubClient
import ReviewAgent.Reliability.GuardedHistories

/-! With which credentials the client's requests about pull requests act. -/
namespace ReviewAgent

open Effects

/-- The pull request under whose path a request goes. -/
def GitHubRequest.underPulls : GitHubRequest → Option PullRequest
  | .installation .. | .accessToken .. => none
  | .pull pr | .diff pr | .files pr .. | .reviews pr _ | .createReview pr _ => some pr

abbrev GitHubHistory : Type := GuardedHistory GitHubSignature

/-- GitHub has answered a request with a status below 300. -/
def AnsweredOk (h : GitHubHistory) (request : GitHubRequest) (response : Response request.Content) :
    Prop :=
  response.statusCode < 300 ∧
    ∃ bearer, (⟨.dep (.http request bearer), .ok response⟩ : Occurrence (Guarded GitHubSignature)) ∈ h

/-- A lookup has named the installation of a repository. -/
def LookedUp (h : GitHubHistory) (owner repo : String) (installationId : ℤ) : Prop :=
  ∃ response, AnsweredOk h (.installation owner repo) response ∧ response.json = .ok installationId

/-- An exchange has issued a token for an installation. -/
def TokenIssued (h : GitHubHistory) (installationId : ℤ) (token : InstallationToken) : Prop :=
  ∃ response, AnsweredOk h (.accessToken installationId) response ∧ response.json = .ok token

/-- The token was found in the cache, not due for a refresh. -/
def TokenFound (h : GitHubHistory) (installationId : ℤ) (token : InstallationToken) : Prop :=
  ∃ entry : Option InstallationToken × ℚ, freshToken entry.1 entry.2 = some token ∧
    (⟨.dep (.cachedToken installationId), entry⟩ : Occurrence (Guarded GitHubSignature)) ∈ h

/-- The installation was found in the cache. -/
def InstallationFound (h : GitHubHistory) (owner repo : String) (installationId : ℤ) : Prop :=
  (⟨.dep (.resolved owner repo), some installationId⟩ : Occurrence (Guarded GitHubSignature)) ∈ h

/-- Where the bearer token of a repository's installation comes from. -/
def Credentialed (h : GitHubHistory) (owner repo bearer : String) : Prop :=
  ∃ installationId token, token.token = bearer ∧
    (InstallationFound h owner repo installationId ∨ LookedUp h owner repo installationId) ∧
    (TokenFound h installationId token ∨ TokenIssued h installationId token)

/-- What an operation of the client may do on the strength of what it has seen: requests about a
pull request need its repository's credentials, and only what GitHub answered goes to a cache. -/
def credentials (h : GitHubHistory) : GuardOp GitHubSignature → Prop
  | .dep (.http request bearer) =>
    ∀ pr, request.underPulls = some pr → Credentialed h pr.owner pr.repo bearer
  | .dep (.storeResolved owner repo installationId) => LookedUp h owner repo installationId
  | .dep (.storeToken installationId token) => TokenIssued h installationId token
  | _ => True

section

variable {h h' : GitHubHistory} {owner repo bearer : String} {installationId : ℤ}
  {token : InstallationToken}

theorem LookedUp.mono (hs : h ⊆ h') (hl : LookedUp h owner repo installationId) :
    LookedUp h' owner repo installationId := by
  obtain ⟨response, ⟨hstatus, bearer, hmem⟩, hjson⟩ := hl
  exact ⟨response, ⟨hstatus, bearer, hs hmem⟩, hjson⟩

theorem TokenIssued.mono (hs : h ⊆ h') (ht : TokenIssued h installationId token) :
    TokenIssued h' installationId token := by
  obtain ⟨response, ⟨hstatus, bearer, hmem⟩, hjson⟩ := ht
  exact ⟨response, ⟨hstatus, bearer, hs hmem⟩, hjson⟩

theorem TokenFound.mono (hs : h ⊆ h') (ht : TokenFound h installationId token) :
    TokenFound h' installationId token := by
  obtain ⟨entry, hfresh, hmem⟩ := ht
  exact ⟨entry, hfresh, hs hmem⟩

theorem Credentialed.mono (hs : h ⊆ h') (hc : Credentialed h owner repo bearer) :
    Credentialed h' owner repo bearer := by
  obtain ⟨id, token, hbearer, hinstallation, htoken⟩ := hc
  exact ⟨id, token, hbearer, hinstallation.imp (fun hmem => hs hmem) (LookedUp.mono hs),
    htoken.imp (TokenFound.mono hs) (TokenIssued.mono hs)⟩

theorem allowsBookkeeping_credentials : AllowsBookkeeping credentials := by
  intro h op hop
  cases op with
  | dep o => exact absurd rfl (hop o)
  | _ => trivial

theorem lasting_lookedUp : Lasting fun h => LookedUp h owner repo installationId :=
  fun _ _ hs => LookedUp.mono hs

theorem lasting_credentialed : Lasting fun h => Credentialed h owner repo bearer :=
  fun _ _ hs => Credentialed.mono hs

end

section

variable {client : RealGitHubClient} {owner repo headers appId : String} {installationId : ℤ}
  {pr : PullRequest} {α : Type} {P : GitHubHistory → Prop} {A : α → GitHubHistory → Prop}

/-- A request, and what the code makes of its answer. -/
theorem behaves_http {C : GitHubHistory → GuardOp GitHubSignature → Prop} {E : GitHubHistory → Prop}
    {request : GitHubRequest} {bearer : String} {f : Response request.Content → Session α}
    {R : Response request.Content → GitHubHistory → Prop}
    (hC : ∀ h, P h → C h (.dep (.http request bearer)))
    (hlost : ∀ h e, P h → E (⟨.dep (.http request bearer), .error e⟩ :: h))
    (hanswered : ∀ h response, P h → R response (⟨.dep (.http request bearer), .ok response⟩ :: h))
    (hf : ∀ response, Behaves C (R response) (f response) A E) :
    Behaves C P (http request bearer >>= f) A E := by
  intro h hPh
  refine ⟨hC h hPh, ?_⟩
  rintro (e | response)
  · exact hlost h e hPh
  · exact hf response _ (hanswered h response hPh)

/-- A request whose credentials are there. -/
theorem learns_http {request : GitHubRequest} {bearer : String}
    {f : Response request.Content → Session α} (hP : Lasting P)
    (hrequest : ∀ h pr, P h → request.underPulls = some pr →
      Credentialed h pr.owner pr.repo bearer)
    (hf : ∀ response, Learns credentials (fun h => P h ∧
      (⟨.dep (.http request bearer), .ok response⟩ : Occurrence (Guarded GitHubSignature)) ∈ h)
      (f response) A) :
    Learns credentials P (http request bearer >>= f) A :=
  behaves_http (fun h hPh pr => hrequest h pr hPh) (fun _ _ _ => trivial)
    (fun _ _ hPh => ⟨hP _ _ (List.subset_cons_self _ _) hPh, List.mem_cons_self⟩) hf

theorem learns_reliably {func : Session α} (hP : Lasting P) (hA : ∀ a, Lasting (A a))
    (hfunc : Learns credentials P func A) : Learns credentials P (client.callReliably func) A :=
  Learns.reliably allowsBookkeeping_credentials hP hA hfunc

theorem learns_mint {now : ℚ} :
    Learns credentials (fun _ => True) (mintAppJwt appId now) fun _ _ => True := by
  apply Learns.dep lasting_true fun _ _ => trivial
  rintro (e | jwt)
  · dsimp only
    split
    · exact Learns.done fun _ _ _ _ => trivial
    · exact Learns.done fun _ _ _ _ => trivial
  · exact Learns.pure fun _ _ => trivial

theorem learns_discover {appJwt : String} : Learns credentials (fun _ => True)
    (discoverInstallationId owner repo appJwt) fun id h => LookedUp h owner repo id := by
  apply learns_http lasting_true (by simp [GitHubRequest.underPulls])
  intro response
  by_cases hstatus : 300 ≤ response.statusCode
  · have herror : installationStatusError owner repo response.toReply = .error _ := if_pos hstatus
    rw [herror]
    exact Learns.done (by simp)
  · have hok : installationStatusError owner repo response.toReply = .ok () := if_neg hstatus
    rw [hok]
    apply Learns.done
    rintro id h hjson ⟨-, hmem⟩
    exact ⟨response, ⟨not_le.mp hstatus, appJwt, hmem⟩, hjson⟩

theorem learns_authorize {appJwt : String} : Learns credentials (fun _ => True)
    (authorize owner repo appJwt) fun id h =>
      InstallationFound h owner repo id ∨ LookedUp h owner repo id := by
  apply Learns.dep lasting_true fun _ _ => trivial
  rintro (_ | installationId)
  · have hlookup : Learns credentials (fun _ => True)
        (tryCatch (discoverInstallationId owner repo appJwt) fun e =>
          throw (notFoundAsUnauthorized owner repo e)) fun id h => LookedUp h owner repo id := by
      intro h hPh
      exact (learns_discover h hPh).tryCatch (fun a h' ha => ha) fun e h' he => trivial
    apply Learns.bind (lasting_true.and (lasting_mem _)) hlookup.of_true
    intro installationId
    apply Learns.dep ((lasting_true.and (lasting_mem _)).and lasting_lookedUp) fun _ h => h.2
    exact fun _ => Learns.pure fun h hP => Or.inr hP.1.2
  · exact Learns.pure fun h hmem => Or.inl hmem.2

theorem learns_exchange {appJwt : String} : Learns credentials (fun _ => True)
    (exchangeJwtForInstallationToken appJwt installationId) fun token h =>
      TokenIssued h installationId token := by
  apply learns_http lasting_true (by simp [GitHubRequest.underPulls])
  intro response
  by_cases hstatus : 300 ≤ response.statusCode
  · have herror : exchangeStatusError installationId response.toReply = .error _ := if_pos hstatus
    rw [herror]
    exact Learns.done (by simp)
  · have hok : exchangeStatusError installationId response.toReply = .ok () := if_neg hstatus
    rw [hok]
    apply Learns.done
    rintro token h hjson ⟨-, hmem⟩
    exact ⟨response, ⟨not_le.mp hstatus, appJwt, hmem⟩, hjson⟩

theorem learns_getToken : Learns credentials (fun _ => True) (getToken appId installationId)
    fun bearer h => ∃ token, token.token = bearer ∧
      (TokenFound h installationId token ∨ TokenIssued h installationId token) := by
  apply Learns.dep lasting_true fun _ _ => trivial
  intro entry
  have hP := lasting_true.and (lasting_mem
    (⟨.dep (.cachedToken installationId), entry⟩ : Occurrence (Guarded GitHubSignature)))
  split
  · rename_i token hfresh
    exact Learns.pure fun h hmem => ⟨token, rfl, Or.inl ⟨entry, hfresh, hmem.2⟩⟩
  · apply Learns.bind hP learns_mint.of_true
    intro appJwt
    apply Learns.bind (hP.and lasting_true) learns_exchange.of_true
    intro token
    have hissued : Lasting fun h => TokenIssued h installationId token :=
      fun _ _ hs => TokenIssued.mono hs
    apply Learns.dep ((hP.and lasting_true).and hissued) fun _ h => h.2
    exact fun _ => Learns.pure fun h hPh => ⟨token, rfl, Or.inr hPh.1.2⟩

theorem learns_installationHeaders : Learns credentials (fun _ => True)
    (client.installationHeaders owner repo) fun bearer h => Credentialed h owner repo bearer := by
  apply Learns.dep lasting_true fun _ _ => trivial
  intro now
  have hP := lasting_true.and (lasting_mem
    (⟨.dep .now, now⟩ : Occurrence (Guarded GitHubSignature)))
  apply Learns.bind hP learns_mint.of_true
  intro appJwt
  have hknown : ∀ id, Lasting fun h =>
      InstallationFound h owner repo id ∨ LookedUp h owner repo id :=
    fun _ _ _ hs hk => hk.imp (fun hmem => hs hmem) (LookedUp.mono hs)
  apply Learns.bind (hP.and lasting_true)
    (learns_reliably lasting_true hknown learns_authorize).of_true
  intro installationId
  have hheld : ∀ bearer : String, Lasting fun h => ∃ token : InstallationToken,
      token.token = bearer ∧
        (TokenFound h installationId token ∨ TokenIssued h installationId token) :=
    fun _ _ _ hs ⟨token, hbearer, htoken⟩ =>
      ⟨token, hbearer, htoken.imp (TokenFound.mono hs) (TokenIssued.mono hs)⟩
  have htoken : Learns credentials (fun _ => True)
      (client.callReliably (getToken client.appId installationId)) fun bearer h =>
        ∃ token : InstallationToken, token.token = bearer ∧
          (TokenFound h installationId token ∨ TokenIssued h installationId token) :=
    learns_reliably lasting_true hheld learns_getToken
  have hkept := htoken.of_true.keep ((hP.and lasting_true).and (hknown installationId))
  exact hkept.mono (fun _ h => h)
    (fun _ _ ⟨⟨token, hbearer, ht⟩, hPh⟩ => ⟨installationId, token, hbearer, hPh.2, ht⟩)
    fun _ _ => trivial

/-- The closures `do`, where their credentials are there. -/
theorem learns_attempt {request : GitHubRequest}
    (hpr : request.underPulls = some pr) : Learns credentials
      (fun h => Credentialed h pr.owner pr.repo headers)
      (RealGitHubClient.attempt request headers) fun _ _ => True := by
  apply learns_http lasting_credentialed
  · intro h pr' hc hpr'
    obtain rfl := Option.some.inj (hpr.symm.trans hpr')
    exact hc
  · intro response
    apply Learns.bind (lasting_credentialed.and (lasting_mem _)) (Learns.done fun _ _ _ _ => trivial)
    exact fun _ => Learns.pure fun _ _ => trivial

theorem learns_request {request : GitHubRequest} {f : Response request.Content → Session α}
    (hpr : request.underPulls = some pr)
    (hf : ∀ response, Learns credentials (fun h => Credentialed h pr.owner pr.repo headers)
      (f response) fun _ _ => True) :
    Learns credentials (fun h => Credentialed h pr.owner pr.repo headers)
      (client.callReliably (RealGitHubClient.attempt request headers) >>= f) fun _ _ => True := by
  apply Learns.bind lasting_credentialed
    (learns_reliably lasting_credentialed (fun _ => lasting_true) (learns_attempt hpr))
  exact fun response => (hf response).mono (fun _ h => h.1) fun _ _ h => h

theorem learns_changedFilesFrom (remaining page : ℕ) (files : List ChangedFile) :
    Learns credentials (fun h => Credentialed h pr.owner pr.repo headers)
      (client.changedFilesFrom pr headers remaining page files) fun _ _ => True := by
  induction remaining generalizing page files with
  | zero => exact fun h _ => ⟨trivial, fun answer => answer.elim⟩
  | succ remaining ih =>
    apply learns_request rfl
    intro response
    apply Learns.bind lasting_credentialed (A := fun _ _ => True) (Learns.done fun _ _ _ _ => trivial)
    intro batch
    split
    · exact Learns.pure fun _ _ => trivial
    · split
      · exact Learns.pure fun _ _ => trivial
      · exact (ih _ _).mono (fun _ h => h.1) fun _ _ h => h

theorem learns_getDiffAndFiles {headSha : String} : Learns credentials (fun _ => True)
    (client.getDiffAndFiles pr headSha) fun _ _ => True := by
  apply Learns.dep lasting_true fun _ _ => trivial
  rintro (_ | value)
  · apply Learns.bind (lasting_true.and (lasting_mem _)) learns_installationHeaders.of_true
    intro headers
    apply Learns.mono (P := fun h => Credentialed h pr.owner pr.repo headers) _ (fun _ h => h.2)
      fun _ _ h => h
    apply learns_request rfl
    intro response
    have hfiles : Learns credentials (fun h => Credentialed h pr.owner pr.repo headers)
        (client.getChangedFiles pr headers) fun _ _ => True := by
      apply Learns.dep lasting_credentialed fun _ _ => trivial
      exact fun rounds => (learns_changedFilesFrom rounds 1 []).mono (fun _ h => h.1) fun _ _ h => h
    apply Learns.bind lasting_credentialed hfiles
    intro changedFiles
    apply Learns.dep (lasting_credentialed.and lasting_true) fun _ _ => trivial
    exact fun _ => Learns.pure fun _ _ => trivial
  · exact Learns.pure fun _ _ => trivial

theorem learns_postReviewComment {review : Review} : Learns credentials (fun _ => True)
    (client.postReviewComment review) fun _ _ => True := by
  apply Learns.bind lasting_true learns_installationHeaders
  intro headers
  apply Learns.mono (P := fun h =>
    Credentialed h review.pullRequest.owner review.pullRequest.repo headers) _ (fun _ h => h.2)
      fun _ _ h => h
  have hfind : Learns credentials
      (fun h => Credentialed h review.pullRequest.owner review.pullRequest.repo headers)
      (client.findExistingReviewIdMarker review.pullRequest headers review.reviewId)
      fun _ _ => True := by
    apply learns_request rfl
    intro response
    apply Learns.bind lasting_credentialed (A := fun _ _ => True) (Learns.done fun _ _ _ _ => trivial)
    exact fun _ => Learns.pure fun _ _ => trivial
  apply Learns.bind lasting_credentialed hfind
  rintro (_ | _)
  · apply Learns.bind (lasting_credentialed.and lasting_true) learns_getDiffAndFiles.of_true
    intro value
    apply Learns.mono (P := fun h =>
      Credentialed h review.pullRequest.owner review.pullRequest.repo headers) _
      (fun _ h => h.1.1) fun _ _ h => h
    apply Learns.bind lasting_credentialed (A := fun _ _ => True) (Learns.done fun _ _ _ _ => trivial)
    intro requestBody
    apply Learns.mono (P := fun h =>
      Credentialed h review.pullRequest.owner review.pullRequest.repo headers) _
      (fun _ h => h.1) fun _ _ h => h
    apply learns_request rfl
    intro response
    apply Learns.bind lasting_credentialed (A := fun _ _ => True) (Learns.done fun _ _ _ _ => trivial)
    exact fun _ => Learns.pure fun _ _ => trivial
  · exact Learns.pure fun _ _ => trivial

theorem learns_operation (op : GitHubOperation) : Learns credentials (fun _ => True)
    (client.operation op) fun _ _ => True := by
  cases op with
  | getPrMetadata pr =>
    have hmetadata : Learns credentials (fun _ => True) (client.getPrMetadata pr)
        fun _ _ => True := by
      apply Learns.bind lasting_true learns_installationHeaders
      intro headers
      apply Learns.mono (P := fun h => Credentialed h pr.owner pr.repo headers) _ (fun _ h => h.2)
        fun _ _ h => h
      exact learns_request rfl fun _ => Learns.done fun _ _ _ _ => trivial
    exact Learns.bind lasting_true hmetadata fun _ => Learns.pure fun _ _ => trivial
  | fetchDiff pr headSha =>
    have hdiff : Learns credentials (fun _ => True) (client.fetchDiff pr headSha)
        fun _ _ => True :=
      Learns.bind lasting_true learns_getDiffAndFiles fun _ => Learns.pure fun _ _ => trivial
    exact Learns.bind lasting_true hdiff fun _ => Learns.pure fun _ _ => trivial
  | postReviewComment review => exact learns_postReviewComment

end

/-- A moment of the client's operations. -/
abbrev GitHubMoment : Type := Machine.Moment (Guarded GitHubSignature) (GuardWorld GitHubWorld)

/-- What the operations of client `k` have seen, newest first. -/
def ofClient (inst : ℕ → ℕ) (k : ℕ) (past : List GitHubMoment) : GitHubHistory :=
  (past.filter fun moment => inst moment.thread = k).map Machine.Moment.occurrence

/-- At this moment an operation comes by a token of the installation: the cached one, or one that an
exchange issues. -/
def Obtains (moment : GitHubMoment) (installationId : ℤ) (token : InstallationToken) : Prop :=
  TokenFound [moment.occurrence] installationId token ∨
    TokenIssued [moment.occurrence] installationId token

/-- Every entry of a client's caches comes from an answer to one of its requests. -/
structure CachesSound (inst : ℕ → ℕ) (w : GuardWorld GitHubWorld) (past : List GitHubMoment) :
    Prop where
  resolved : ∀ k owner repo installationId,
    (w.dep.clients k).resolved (owner, repo) = some installationId →
      LookedUp (ofClient inst k past) owner repo installationId
  tokens : ∀ k installationId token, (w.dep.clients k).tokens installationId = some token →
    TokenIssued (ofClient inst k past) installationId token

/-- What a moment finds in the caches comes from earlier answers, and its token is not due; a
request about a pull request has its credentials from its own operation. -/
structure Accounted (inst : ℕ → ℕ) (moment : GitHubMoment) (earlier : List GitHubMoment) : Prop where
  installation : ∀ owner repo installationId,
    InstallationFound [moment.occurrence] owner repo installationId →
      LookedUp (ofClient inst (inst moment.thread) earlier) owner repo installationId
  token : ∀ installationId token, TokenFound [moment.occurrence] installationId token →
    TokenIssued (ofClient inst (inst moment.thread) earlier) installationId token ∧
      moment.world.dep.wallClock + refreshMarginSeconds < token.expiresAt
  request : ∀ request bearer pr, moment.occurrence.op = .dep (.http request bearer) →
    request.underPulls = some pr →
      Credentialed (Machine.own moment.thread earlier) pr.owner pr.repo bearer

/-- Every moment so far, against those before it. -/
def AllAccounted (inst : ℕ → ℕ) (past : List GitHubMoment) : Prop :=
  ∀ later moment earlier, past = later ++ moment :: earlier → Accounted inst moment earlier

/-- A token that is issued at `now` lives longer than the refresh margin. -/
def LongLived (now : ℚ) : Occurrence (Guarded GitHubSignature) → Prop
  | ⟨.dep (.http (.accessToken _) _), .ok response⟩ =>
    match response.json with
    | .ok token => now + refreshMarginSeconds < token.expiresAt
    | .error _ => True
  | _ => True

instance (now : ℚ) (occurrence : Occurrence (Guarded GitHubSignature)) :
    Decidable (LongLived now occurrence) := by
  unfold LongLived
  split
  · split <;> infer_instance
  · infer_instance

section

variable {inst : ℕ → ℕ} {i k : ℕ} {past : List GitHubMoment} {moment : GitHubMoment}

theorem ofClient_subset_cons : ofClient inst k past ⊆ ofClient inst k (moment :: past) := by
  intro occurrence h
  obtain ⟨m, hmem, rfl⟩ := List.mem_map.mp h
  rw [List.mem_filter] at hmem
  exact List.mem_map.mpr ⟨m, List.mem_filter.mpr ⟨List.mem_cons_of_mem _ hmem.1, hmem.2⟩, rfl⟩

theorem ofClient_subset_append {later : List GitHubMoment} :
    ofClient inst k past ⊆ ofClient inst k (later ++ moment :: past) := by
  induction later with
  | nil => exact ofClient_subset_cons
  | cons m later ih => exact List.Subset.trans ih ofClient_subset_cons

/-- An operation's own history is part of its client's. -/
theorem own_subset_ofClient : Machine.own i past ⊆ ofClient inst (inst i) past := by
  intro occurrence h
  obtain ⟨m, hmem, hthread, rfl⟩ := Machine.exists_of_mem_own h
  exact List.mem_map.mpr ⟨m, List.mem_filter.mpr ⟨hmem, by simp [hthread]⟩, rfl⟩

theorem freshToken_eq_some {entry : Option InstallationToken} {now : ℚ}
    {token : InstallationToken} (h : freshToken entry now = some token) :
    entry = some token ∧ now + refreshMarginSeconds < token.expiresAt := by
  obtain ⟨hentry, hmargin⟩ := Option.filter_eq_some_iff.mp h
  refine ⟨hentry, ?_⟩
  rw [decide_eq_true_eq] at hmargin
  linarith

/-- A cached installation was there before, or is the one that the operation stores. -/
theorem perform_resolved {w w' : GitHubWorld} {op : GitHubOp} {c : GitHubChoice}
    {answer : GitHubSignature.Answer op} {owner repo : String} {installationId : ℤ}
    (h : (gitHub inst).perform i w op c = some (w', answer))
    (hentry : (w'.clients k).resolved (owner, repo) = some installationId) :
    (w.clients k).resolved (owner, repo) = some installationId ∨
      k = inst i ∧ op = .storeResolved owner repo installationId := by
  rw [perform_clients h, Function.update_apply] at hentry
  split at hentry
  · rename_i hk
    subst hk
    cases op with
    | storeResolved owner' repo' installationId' =>
      simp only [GitHubOp.stored, Function.update_apply] at hentry
      split at hentry
      · rename_i hkey
        obtain ⟨rfl, rfl⟩ := Prod.mk.inj hkey
        exact Or.inr ⟨rfl, by rw [Option.some.inj hentry]⟩
      · exact Or.inl hentry
    | _ => exact Or.inl hentry
  · exact Or.inl hentry

/-- A cached token was there before, or is the one that the operation stores. -/
theorem perform_tokens {w w' : GitHubWorld} {op : GitHubOp} {c : GitHubChoice}
    {answer : GitHubSignature.Answer op} {installationId : ℤ} {token : InstallationToken}
    (h : (gitHub inst).perform i w op c = some (w', answer))
    (hentry : (w'.clients k).tokens installationId = some token) :
    (w.clients k).tokens installationId = some token ∨
      k = inst i ∧ op = .storeToken installationId token := by
  rw [perform_clients h, Function.update_apply] at hentry
  split at hentry
  · rename_i hk
    subst hk
    cases op with
    | storeToken installationId' token' =>
      simp only [GitHubOp.stored, Function.update_apply] at hentry
      split at hentry
      · rename_i hkey
        subst hkey
        exact Or.inr ⟨rfl, by rw [Option.some.inj hentry]⟩
      · exact Or.inl hentry
    | _ => exact Or.inl hentry
  · exact Or.inl hentry

theorem CachesSound.mono {w w' : GuardWorld GitHubWorld} {past' : List GitHubMoment}
    (h : CachesSound inst w past) (hs : ∀ k, ofClient inst k past ⊆ ofClient inst k past')
    (hclients : w'.dep.clients = w.dep.clients) : CachesSound inst w' past' where
  resolved k owner repo installationId hentry :=
    (h.resolved k owner repo installationId (hclients ▸ hentry)).mono (hs k)
  tokens k installationId token hentry :=
    (h.tokens k installationId token (hclients ▸ hentry)).mono (hs k)

theorem gitHub_move_clients {w w' : GuardWorld GitHubWorld} {m : GuardMove GitHubMove}
    (h : (gitHubMachine inst).move w m = some w') : w'.dep.clients = w.dep.clients := by
  rcases guardMove_dep h with hdep | ⟨⟨now⟩, hdep⟩
  · rw [hdep]
  · rw [← Option.some.inj hdep]

/-- The caches stay sound at every moment that the credentials allow. -/
theorem CachesSound.perform {w w' : GuardWorld GitHubWorld} {op : GuardOp GitHubSignature}
    {c : GuardChoice GitHubChoice} {answer : (Guarded GitHubSignature).Answer op}
    (h : CachesSound inst w past) (hallowed : credentials (Machine.own i past) op)
    (hp : (gitHubMachine inst).perform i w op c = some (w', answer)) :
    CachesSound inst w' (⟨i, w, op, answer⟩ :: past) := by
  by_cases hdep : ∃ o, op = .dep o
  · obtain ⟨o, rfl⟩ := hdep
    obtain ⟨c', d, rfl, hd, rfl⟩ := perform_dep hp
    refine ⟨fun k owner repo installationId hentry => ?_, fun k installationId token hentry => ?_⟩
    · rcases perform_resolved hd hentry with hold | ⟨rfl, rfl⟩
      · exact (h.resolved k owner repo installationId hold).mono ofClient_subset_cons
      · exact LookedUp.mono (List.Subset.trans own_subset_ofClient ofClient_subset_cons) hallowed
    · rcases perform_tokens hd hentry with hold | ⟨rfl, rfl⟩
      · exact (h.tokens k installationId token hold).mono ofClient_subset_cons
      · exact TokenIssued.mono (List.Subset.trans own_subset_ofClient ofClient_subset_cons) hallowed
  · have hsame : w'.dep = w.dep := guardPerform_dep hp fun o ho => hdep ⟨o, ho⟩
    exact h.mono (fun _ => ofClient_subset_cons) (by rw [hsame])

/-- A moment that the credentials allow, in a world with sound caches, is accounted for. -/
theorem CachesSound.accounted {w w' : GuardWorld GitHubWorld} {op : GuardOp GitHubSignature}
    {c : GuardChoice GitHubChoice} {answer : (Guarded GitHubSignature).Answer op}
    (h : CachesSound inst w past) (hallowed : credentials (Machine.own i past) op)
    (hp : (gitHubMachine inst).perform i w op c = some (w', answer)) :
    Accounted inst ⟨i, w, op, answer⟩ past where
  installation owner repo installationId hfound := by
    cases List.mem_singleton.mp hfound
    obtain ⟨c', d, rfl, hd, -⟩ := perform_dep hp
    cases c' <;> simp only [gitHub, reduceCtorEq] at hd
    exact h.resolved _ owner repo installationId (Prod.mk.inj (Option.some.inj hd)).2
  token installationId token hfound := by
    obtain ⟨entry, hfresh, hmem⟩ := hfound
    cases List.mem_singleton.mp hmem
    obtain ⟨c', d, rfl, hd, -⟩ := perform_dep hp
    cases c' <;> simp only [gitHub, reduceCtorEq] at hd
    obtain ⟨-, rfl⟩ := Prod.mk.inj (Option.some.inj hd)
    obtain ⟨hentry, hmargin⟩ := freshToken_eq_some hfresh
    exact ⟨h.tokens _ installationId token hentry, hmargin⟩
  request request bearer pr hop hpr := by
    obtain rfl : op = _ := hop
    exact hallowed pr hpr

theorem AllAccounted.cons (h : AllAccounted inst past) (hm : Accounted inst moment past) :
    AllAccounted inst (moment :: past) := by
  intro later m earlier heq
  cases later with
  | nil =>
    obtain ⟨rfl, rfl⟩ := List.cons.inj heq
    exact hm
  | cons m' later => exact h later m earlier (List.cons.inj heq).2

/-- The operations that a client may be asked for, each by its own thread. -/
abbrev operating (request : RealGitHubClient × GitHubOperation) : Session Unit :=
  request.1.operation request.2

/-- Operations of clients that start with empty caches, in any interleaving. -/
theorem operations_accounted {w : GuardWorld GitHubWorld}
    {ss : List (Machine.Sched (GuardChoice GitHubChoice) (GuardMove GitHubMove)
      (RealGitHubClient × GitHubOperation))}
    {c : Machine.Config (Guarded GitHubSignature) Exc Unit (GuardWorld GitHubWorld)}
    (hempty : ∀ k, w.dep.clients k = {})
    (hrun : (gitHubMachine inst).exec operating ⟨w, []⟩ ss = some c) :
    AllAccounted inst ((gitHubMachine inst).moments operating ⟨w, []⟩ ss) := by
  have hsound : CachesSound inst w [] :=
    ⟨fun k owner repo id h => by simp [hempty k] at h, fun k id token h => by simp [hempty k] at h⟩
  have hall : AllAccounted inst [] := fun later moment earlier h => by simp at h
  have hbody : ∀ request : RealGitHubClient × GitHubOperation,
      (operating request).Follows credentials (Ends (fun _ _ => True) fun _ => True) [] :=
    fun request => learns_operation request.2 [] trivial
  refine (Machine.moments_invariant (J := fun w past => CachesSound inst w past ∧
    AllAccounted inst past) hbody ?_ ?_ hrun ⟨hsound, hall⟩).2
  · intro w past i op choice w' answer hJ hallowed hp
    exact ⟨hJ.1.perform hallowed hp, hJ.2.cons (hJ.1.accounted hallowed hp)⟩
  · intro w past m w' hJ hmove
    exact ⟨hJ.1.mono (fun _ => List.Subset.refl _) (gitHub_move_clients hmove), hJ.2⟩

/-- An installation that an operation knows has been looked up by its client. -/
theorem AllAccounted.lookedUp {owner repo : String} {id : ℤ} (h : AllAccounted inst past)
    (hknown : InstallationFound (Machine.own i past) owner repo id ∨
      LookedUp (Machine.own i past) owner repo id) :
    LookedUp (ofClient inst (inst i) past) owner repo id := by
  rcases hknown with hfound | hlooked
  · obtain ⟨m, hmem, rfl, hm⟩ := Machine.exists_of_mem_own hfound
    obtain ⟨later, earlier, rfl⟩ := List.append_of_mem hmem
    have haccounted := (h later m earlier rfl).installation owner repo id
      (by rw [InstallationFound, hm]; exact List.mem_cons_self)
    exact haccounted.mono ofClient_subset_append
  · exact hlooked.mono own_subset_ofClient

/-- A token that an operation holds was issued to its client, and the operation came by it before
its expiry. -/
theorem AllAccounted.issued {id : ℤ} {token : InstallationToken} (h : AllAccounted inst past)
    (hlives : ∀ m ∈ past, LongLived m.world.dep.wallClock m.occurrence)
    (hheld : TokenFound (Machine.own i past) id token ∨
      TokenIssued (Machine.own i past) id token) :
    TokenIssued (ofClient inst (inst i) past) id token ∧
      ∃ resolution ∈ past, resolution.thread = i ∧ Obtains resolution id token ∧
        resolution.world.dep.wallClock < token.expiresAt := by
  have hmargin : (0 : ℚ) ≤ refreshMarginSeconds := by norm_num [refreshMarginSeconds]
  rcases hheld with ⟨entry, hfresh, hown⟩ | hissued
  · obtain ⟨m, hmem, rfl, hm⟩ := Machine.exists_of_mem_own hown
    obtain ⟨later, earlier, rfl⟩ := List.append_of_mem hmem
    have hfound : TokenFound [m.occurrence] id token :=
      ⟨entry, hfresh, by rw [hm]; exact List.mem_cons_self⟩
    obtain ⟨hissued, hclock⟩ := (h later m earlier rfl).token id token hfound
    exact ⟨hissued.mono ofClient_subset_append, m, hmem, rfl, Or.inl hfound, by linarith⟩
  · refine ⟨hissued.mono own_subset_ofClient, ?_⟩
    obtain ⟨response, ⟨hstatus, bearer, hown⟩, hjson⟩ := hissued
    obtain ⟨m, hmem, rfl, hm⟩ := Machine.exists_of_mem_own hown
    have hhere : TokenIssued [m.occurrence] id token :=
      ⟨response, ⟨hstatus, bearer, by rw [hm]; exact List.mem_cons_self⟩, hjson⟩
    have hclock : m.world.dep.wallClock + refreshMarginSeconds < token.expiresAt := by
      have hlong := hlives m hmem
      rw [hm] at hlong
      simpa only [LongLived, hjson] using hlong
    exact ⟨m, hmem, rfl, Or.inr hhere, by linarith⟩

end

/-- Nothing was stored in a cache. -/
def StoresNothing (h : GitHubHistory) : Prop :=
  ∀ occurrence ∈ h, ∀ op : GitHubOp, occurrence.op = .dep op → ∀ caches, op.stored caches = caches

section

variable {inst : ℕ → ℕ} {i : ℕ}

/-- A program that stores nothing before it raises leaves the caches as they were. -/
theorem clients_of_raised {α : Type} {p : Session α} {A : α → GitHubHistory → Prop}
    {w w' : GuardWorld GitHubWorld} {es : List SessionEvent} {e : Exc}
    (hp : Behaves (fun _ _ => True) StoresNothing p A StoresNothing)
    (hrun : (gitHubMachine inst).run i w p es = some (w', .done (.error e))) :
    w'.dep.clients = w.dep.clients := by
  have hstart : StoresNothing [] := fun _ hmem => absurd hmem List.not_mem_nil
  have hact : ∀ (v : GuardWorld GitHubWorld) (h : GitHubHistory) op c v' answer,
      (StoresNothing h → v.dep.clients = w.dep.clients) → True →
      (gitHubMachine inst).perform i v op c = some (v', answer) →
      StoresNothing (⟨op, answer⟩ :: h) → v'.dep.clients = w.dep.clients := by
    intro v h op c v' answer hJ _ hperform hstores
    have hbefore := hJ fun occurrence hmem => hstores occurrence (List.mem_cons_of_mem _ hmem)
    by_cases hdep : ∃ o, op = .dep o
    · obtain ⟨o, rfl⟩ := hdep
      obtain ⟨c', d, rfl, hd, rfl⟩ := perform_dep hperform
      have hsame := hstores _ List.mem_cons_self o rfl
      rw [← hbefore]
      show d.clients = v.dep.clients
      rw [perform_clients hd, hsame, Function.update_eq_self]
    · rw [← hbefore, guardPerform_dep hperform fun o ho => hdep ⟨o, ho⟩]
  obtain ⟨h, hstores, hkept⟩ := Machine.run_history
    (J := fun v h => StoresNothing h → v.dep.clients = w.dep.clients) (hp [] hstart) hact
    (fun v h m v' hJ hmove hstores => by rw [gitHub_move_clients hmove, hJ hstores]) hrun
    fun _ => rfl
  exact hkept hstores

theorem storesNothing_cons {h : GitHubHistory} {op : GitHubOp}
    {answer : GitHubSignature.Answer op} (hop : ∀ caches, op.stored caches = caches)
    (hh : StoresNothing h) : StoresNothing (⟨.dep op, answer⟩ :: h) := by
  intro occurrence hmem op' heq
  rcases List.mem_cons.mp hmem with rfl | hmem
  · obtain rfl := GuardOp.dep.inj heq
    exact hop
  · exact hh occurrence hmem op' heq

/-- A program that issues one operation that stores nothing, and what follows it. -/
theorem behaves_quiet {α : Type} {op : GitHubOp} {k : GitHubSignature.Answer op → Session α}
    {A : α → GitHubHistory → Prop} (hop : ∀ caches, op.stored caches = caches)
    (hk : ∀ answer, Behaves (fun _ _ => True) StoresNothing (k answer) A StoresNothing) :
    Behaves (fun _ _ => True) StoresNothing (dep op >>= k) A StoresNothing :=
  Behaves.dep (R := fun _ => StoresNothing) (fun _ _ => trivial)
    (fun _ _ hh => storesNothing_cons hop hh) hk

theorem quiet_http {α : Type} {request : GitHubRequest} {bearer : String}
    {f : Response request.Content → Session α} {A : α → GitHubHistory → Prop}
    (hf : ∀ response, Behaves (fun _ _ => True) StoresNothing (f response) A StoresNothing) :
    Behaves (fun _ _ => True) StoresNothing (http request bearer >>= f) A StoresNothing :=
  behaves_http (fun _ _ => trivial) (fun _ _ hh => storesNothing_cons (fun _ => rfl) hh)
    (fun _ _ hh => storesNothing_cons (fun _ => rfl) hh) hf

theorem behaves_done {α : Type} (r : Except Exc α) :
    Behaves (fun _ _ => True) StoresNothing (.done r : Session α) (fun _ => StoresNothing)
      StoresNothing := by
  intro h hh
  cases r with
  | ok a => exact hh
  | error e => exact hh

/-- A failed lookup stores nothing: the entry is made last. -/
theorem authorize_stores_last {owner repo appJwt : String} :
    Behaves (fun _ _ => True) StoresNothing (authorize owner repo appJwt) (fun _ _ => True)
      StoresNothing := by
  apply behaves_quiet fun _ => rfl
  rintro (_ | installationId)
  · have hdiscover : Behaves (fun _ _ => True) StoresNothing
        (discoverInstallationId owner repo appJwt) (fun _ => StoresNothing) StoresNothing :=
      quiet_http fun response => (behaves_done _).bind fun _ => behaves_done _
    have hlookup : Behaves (fun _ _ => True) StoresNothing
        (tryCatch (discoverInstallationId owner repo appJwt) fun e =>
          throw (notFoundAsUnauthorized owner repo e)) (fun _ => StoresNothing) StoresNothing := by
      intro h hh
      exact (hdiscover h hh).tryCatch (fun a h' ha => ha) fun e h' he => he
    apply hlookup.bind
    intro installationId h hh
    exact ⟨trivial, fun _ => trivial⟩
  · exact Behaves.pure fun _ _ => trivial

theorem mint_stores_nothing {appId : String} {now : ℚ} :
    Behaves (fun _ _ => True) StoresNothing (mintAppJwt appId now) (fun _ => StoresNothing)
      StoresNothing := by
  apply behaves_quiet fun _ => rfl
  rintro (e | jwt)
  · dsimp only
    split
    · exact behaves_done _
    · exact behaves_done _
  · exact behaves_done _

/-- A failed exchange stores nothing: the entry is made last. -/
theorem getToken_stores_last {appId : String} {installationId : ℤ} :
    Behaves (fun _ _ => True) StoresNothing (getToken appId installationId) (fun _ _ => True)
      StoresNothing := by
  apply behaves_quiet fun _ => rfl
  intro entry
  split
  · exact Behaves.pure fun _ _ => trivial
  · apply mint_stores_nothing.bind
    intro appJwt
    have hexchange : Behaves (fun _ _ => True) StoresNothing
        (exchangeJwtForInstallationToken appJwt installationId) (fun _ => StoresNothing)
        StoresNothing :=
      quiet_http fun response => (behaves_done _).bind fun _ => behaves_done _
    apply hexchange.bind
    intro token h hh
    exact ⟨trivial, fun _ => trivial⟩

/-- Requests about pull requests act with the credentials of their repository: in every interleaving
of operations by clients that start with empty caches, an earlier lookup of the repository's
installation and an earlier exchange for it account for the bearer token, which had not expired
when the operation came by it. A lookup or an exchange that fails leaves the caches. -/
theorem requests_have_credentials {w : GuardWorld GitHubWorld}
    {ss : List (Machine.Sched (GuardChoice GitHubChoice) (GuardMove GitHubMove)
      (RealGitHubClient × GitHubOperation))}
    {c : Machine.Config (Guarded GitHubSignature) Exc Unit (GuardWorld GitHubWorld)}
    (hempty : ∀ k, w.dep.clients k = {})
    (hrun : (gitHubMachine inst).exec operating ⟨w, []⟩ ss = some c)
    (hlives : ∀ m ∈ (gitHubMachine inst).moments operating ⟨w, []⟩ ss,
      LongLived m.world.dep.wallClock m.occurrence) :
    (∀ later moment earlier request bearer pr,
      (gitHubMachine inst).moments operating ⟨w, []⟩ ss = later ++ moment :: earlier →
      moment.occurrence.op = .dep (.http request bearer) → request.underPulls = some pr →
      ∃ id token, token.token = bearer ∧
        LookedUp (ofClient inst (inst moment.thread) earlier) pr.owner pr.repo id ∧
        TokenIssued (ofClient inst (inst moment.thread) earlier) id token ∧
        ∃ resolution ∈ earlier, resolution.thread = moment.thread ∧
          Obtains resolution id token ∧ resolution.world.dep.wallClock < token.expiresAt) ∧
      (∀ i v v' es e owner repo appJwt,
        (gitHubMachine inst).run i v (authorize owner repo appJwt) es =
          some (v', .done (.error e)) → v'.dep.clients = v.dep.clients) ∧
      ∀ i v v' es e appId installationId,
        (gitHubMachine inst).run i v (getToken appId installationId) es =
          some (v', .done (.error e)) → v'.dep.clients = v.dep.clients := by
  have hall := operations_accounted hempty hrun
  refine ⟨?_, fun i v v' es e owner repo appJwt => clients_of_raised authorize_stores_last,
    fun i v v' es e appId installationId => clients_of_raised getToken_stores_last⟩
  intro later moment earlier request bearer pr heq hop hpr
  rw [heq] at hall hlives
  have hearlier : AllAccounted inst earlier := by
    intro later' m earlier' heq'
    exact hall (later ++ moment :: later') m earlier' (by rw [heq']; simp)
  obtain ⟨id, token, hbearer, hknown, hheld⟩ :=
    (hall later moment earlier rfl).request request bearer pr hop hpr
  obtain ⟨hissued, hresolution⟩ := hearlier.issued (fun m hmem => hlives m (by simp [hmem])) hheld
  exact ⟨id, token, hbearer, hearlier.lookedUp hknown, hissued, hresolution⟩

end

/-- The schedule of an installation lookup that GitHub answers. -/
def lookupAnswered : List SessionEvent :=
  [.act .go, .act (.dep .go), .act (.dep .healthy), .act (.dep .go), .act .go]

/-- The schedule of a token exchange that GitHub answers. -/
def exchangeAnswered : List SessionEvent :=
  [.act .go, .act (.dep .go), .act (.dep (.signs (.ok "jwt"))), .act (.dep .healthy),
    .act (.dep .go), .act .go]

/-- A cold client looks the installation up and exchanges a token before its request; a second
operation finds both in the caches. -/
def coldThenWarm : List (Machine.Sched (GuardChoice GitHubChoice) (GuardMove GitHubMove)
    (RealGitHubClient × GitHubOperation)) :=
  [.start (.default "1", .getPrMetadata .sample), .start (.default "1", .getPrMetadata .sample)] ++
    (mintsJwt ++ lookupAnswered ++ exchangeAnswered ++ requestAnswered).map (Machine.Event.on 0) ++
    (mintsJwt ++ lookupHits ++ lookupHits ++ requestAnswered).map (Machine.Event.on 1)

/-- The moments at which a pull request is asked for. -/
def pullRequests (past : List GitHubMoment) : ℕ :=
  past.countP fun moment =>
    match moment.occurrence.op with
    | .dep (.http (.pull _) _) => true
    | _ => false

theorem requests_have_credentials_coldThenWarm :
    ∃ c, (gitHubMachine fun _ => 0).exec operating ⟨coldWorld, []⟩ coldThenWarm = some c ∧
      pullRequests ((gitHubMachine fun _ => 0).moments operating ⟨coldWorld, []⟩ coldThenWarm) = 2 ∧
      ∀ later moment earlier request bearer pr,
        (gitHubMachine fun _ => 0).moments operating ⟨coldWorld, []⟩ coldThenWarm =
          later ++ moment :: earlier →
        moment.occurrence.op = .dep (.http request bearer) → request.underPulls = some pr →
        ∃ id token, token.token = bearer ∧
          LookedUp (ofClient (fun _ => 0) 0 earlier) pr.owner pr.repo id ∧
          TokenIssued (ofClient (fun _ => 0) 0 earlier) id token ∧
          ∃ resolution ∈ earlier, resolution.thread = moment.thread ∧
            Obtains resolution id token ∧ resolution.world.dep.wallClock < token.expiresAt := by
  have hreach : (gitHubMachine fun _ => 0).reaches operating ⟨coldWorld, []⟩ coldThenWarm
      (fun _ => true) = true := by
    decide +kernel
  obtain ⟨c, hrun, -⟩ := Machine.exists_of_reaches hreach
  exact ⟨c, hrun, by decide +kernel,
    (requests_have_credentials (fun _ => rfl) hrun (by decide +kernel)).1⟩

end ReviewAgent
