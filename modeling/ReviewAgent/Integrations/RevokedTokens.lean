import ReviewAgent.Integrations.Credentials

/-! What becomes of a cached token that GitHub has rejected: the next operation of its
installation. -/
namespace ReviewAgent

open Effects

/-- A request about a pull request. -/
def IsPullRequest (op : GuardOp GitHubSignature) : Prop :=
  ∃ request bearer pr, op = .dep (.http request bearer) ∧ request.underPulls = some pr

instance : DecidablePred IsPullRequest
  | .dep (.http request bearer) =>
    match hpr : request.underPulls with
    | some pr => isTrue ⟨request, bearer, pr, rfl, hpr⟩
    | none => isFalse fun ⟨_, _, _, heq, hsome⟩ => by cases heq; simp [hpr] at hsome
  | .dep .now | .dep (.sign _) | .dep (.resolved ..) | .dep (.storeResolved ..)
  | .dep (.cachedToken _) | .dep (.storeToken ..) | .dep (.cachedDiff _) | .dep (.storeDiff ..)
  | .dep .rounds | .dep .loops | .admission | .recordFailure | .recordSuccess | .sleep _ | .rand =>
    isFalse fun ⟨_, _, _, heq, _⟩ => by cases heq

/-- An operation that resolves an installation: clock, signature, the cache of installations, and
the lookup itself. -/
def ResolvesInstallation : GuardOp GitHubSignature → Prop
  | .dep .now | .dep (.sign _) | .dep (.resolved ..) | .dep (.storeResolved ..)
  | .dep (.http (.installation ..) _) => True
  | _ => False

/-- So far the operation has neither sent a request about a pull request nor come by a token of its
own. -/
structure Untouched (h : GitHubHistory) : Prop where
  pulls : ∀ o ∈ h, ¬ IsPullRequest o.op
  stores : ∀ o ∈ h, ∀ id token, o.op ≠ .dep (.storeToken id token)
  issued : ∀ id token, ¬ TokenIssued h id token

/-- The last look at the token cache, before which nothing was stored there. -/
def LookedFor (h : GitHubHistory) (id : ℤ) (entry : Option InstallationToken × ℚ) : Prop :=
  ∃ since before : GitHubHistory, h = since ++ ⟨.dep (.cachedToken id), entry⟩ :: before ∧
    (∀ o ∈ since, ∀ id, o.op ≠ .dep (.cachedToken id)) ∧
    ∀ o ∈ before, ∀ id token, o.op ≠ .dep (.storeToken id token)

/-- An exchange has issued a token exactly when the look at the cache found none that was not
due. -/
def TokenResolved (h : GitHubHistory) (id : ℤ) (entry : Option InstallationToken × ℚ) : Prop :=
  LookedFor h id entry ∧ ((∃ token, TokenIssued h id token) ↔ freshToken entry.1 entry.2 = none)

/-- The state in which the first request about a pull request is sent. -/
def Ready (h : GitHubHistory) : Prop :=
  (∀ o ∈ h, ¬ IsPullRequest o.op) ∧ ∃ id entry, TokenResolved h id entry

/-- The first request about a pull request follows on a look at the token cache. -/
def resolvesFirst (h : GitHubHistory) (op : GuardOp GitHubSignature) : Prop :=
  IsPullRequest op → (∀ o ∈ h, ¬ IsPullRequest o.op) → Ready h

section

variable {h : GitHubHistory} {op : GuardOp GitHubSignature}
  {answer : (Guarded GitHubSignature).Answer op} {id : ℤ} {token : InstallationToken}

theorem tokenIssued_cons {o : Occurrence (Guarded GitHubSignature)} :
    TokenIssued (o :: h) id token ↔ TokenIssued [o] id token ∨ TokenIssued h id token := by
  constructor
  · rintro ⟨response, ⟨hstatus, bearer, hmem⟩, hjson⟩
    rcases List.mem_cons.mp hmem with rfl | hmem
    · exact Or.inl ⟨response, ⟨hstatus, bearer, List.mem_cons_self⟩, hjson⟩
    · exact Or.inr ⟨response, ⟨hstatus, bearer, hmem⟩, hjson⟩
  · rintro (hhere | hbefore)
    · exact hhere.mono fun o' ho' => List.mem_cons.mpr (Or.inl (List.mem_singleton.mp ho'))
    · exact hbefore.mono (List.subset_cons_self _ _)

theorem not_tokenIssued_of_op (hop : ∀ id bearer, op ≠ .dep (.http (.accessToken id) bearer)) :
    ¬ TokenIssued [⟨op, answer⟩] id token := by
  rintro ⟨response, ⟨hstatus, bearer, hmem⟩, hjson⟩
  exact hop id bearer (congrArg Occurrence.op (List.mem_singleton.mp hmem)).symm

theorem Untouched.cons (hh : Untouched h) (hpull : ¬ IsPullRequest op)
    (hstore : ∀ id token, op ≠ .dep (.storeToken id token))
    (hissue : ∀ id token, ¬ TokenIssued [⟨op, answer⟩] id token) :
    Untouched (⟨op, answer⟩ :: h) where
  pulls o ho := by
    rcases List.mem_cons.mp ho with rfl | ho
    · exact hpull
    · exact hh.pulls o ho
  stores o ho := by
    rcases List.mem_cons.mp ho with rfl | ho
    · exact hstore
    · exact hh.stores o ho
  issued id token hissued := by
    rcases tokenIssued_cons.mp hissued with hhere | hbefore
    · exact hissue id token hhere
    · exact hh.issued id token hbefore

theorem Untouched.resolves (hh : Untouched h) (hop : ResolvesInstallation op) :
    Untouched (⟨op, answer⟩ :: h) := by
  apply hh.cons
  · rintro ⟨request, bearer, pr, rfl, hpr⟩
    cases request <;> simp_all [ResolvesInstallation, GitHubRequest.underPulls]
  · rintro id token rfl
    exact hop
  · refine fun id token => not_tokenIssued_of_op ?_
    rintro id bearer rfl
    exact hop

theorem not_isPullRequest_of_bookkeeping (hop : ∀ o, op ≠ .dep o) : ¬ IsPullRequest op := by
  rintro ⟨request, bearer, pr, rfl, -⟩
  exact hop _ rfl

theorem overBookkeeping_untouched : OverBookkeeping Untouched := by
  intro h op answer hop hh
  apply hh.cons (not_isPullRequest_of_bookkeeping hop)
  · exact fun id token => hop _
  · exact fun id token => not_tokenIssued_of_op fun id bearer => hop _

theorem LookedFor.cons {entry : Option InstallationToken × ℚ} (hh : LookedFor h id entry)
    (hop : ∀ id, op ≠ .dep (.cachedToken id)) : LookedFor (⟨op, answer⟩ :: h) id entry := by
  obtain ⟨since, before, rfl, hsince, hbefore⟩ := hh
  refine ⟨⟨op, answer⟩ :: since, before, rfl, fun o ho => ?_, hbefore⟩
  rcases List.mem_cons.mp ho with rfl | ho
  · exact hop
  · exact hsince o ho

theorem no_pulls_cons (hh : ∀ o ∈ h, ¬ IsPullRequest o.op) (hop : ¬ IsPullRequest op) :
    ∀ o ∈ (⟨op, answer⟩ :: h : GitHubHistory), ¬ IsPullRequest o.op := by
  intro o ho
  rcases List.mem_cons.mp ho with rfl | ho
  · exact hop
  · exact hh o ho

theorem overBookkeeping_ready : OverBookkeeping Ready := by
  rintro h op answer hop ⟨hpulls, id, entry, hlooked, hiff⟩
  refine ⟨no_pulls_cons hpulls (not_isPullRequest_of_bookkeeping hop), id, entry,
    hlooked.cons fun id => hop _, ?_⟩
  rw [← hiff]
  refine exists_congr fun token => ?_
  rw [tokenIssued_cons, or_iff_right (not_tokenIssued_of_op fun id bearer => hop _)]

theorem allowsBookkeeping_resolvesFirst : AllowsBookkeeping resolvesFirst := by
  intro h op hop hpull
  exact absurd hpull (not_isPullRequest_of_bookkeeping hop)

end

section

variable {client : RealGitHubClient} {owner repo appId headers : String} {installationId : ℤ}
  {pr : PullRequest} {α : Type}

theorem mint_issues {now : ℚ} : (mintAppJwt appId now).Issues ResolvesInstallation := by
  refine ⟨trivial, ?_⟩
  rintro (e | jwt)
  · show Program.Issues _ (ite _ _ _)
    split <;> trivial
  · trivial

theorem authorize_issues {appJwt : String} :
    (authorize owner repo appJwt).Issues ResolvesInstallation := by
  refine ⟨trivial, ?_⟩
  rintro (_ | installationId)
  · have hdiscover : (discoverInstallationId owner repo appJwt).Issues ResolvesInstallation := by
      refine Program.issues_bind ⟨trivial, fun answer => Program.issues_done _⟩ fun response => ?_
      exact Program.issues_bind (Program.issues_done _) fun _ => Program.issues_done _
    apply Program.issues_bind (Program.issues_tryCatch hdiscover fun _ => Program.issues_done _)
    exact fun _ => ⟨trivial, fun _ => trivial⟩
  · trivial

theorem untouched_of_issues {p : Session α} (hp : p.Issues ResolvesInstallation) :
    Behaves resolvesFirst Untouched p (fun _ => Untouched) Untouched := by
  refine Behaves.of_issues (fun h op hop _ => ?_) (fun h op answer hop hh => hh.resolves hop) hp
  rintro ⟨request, bearer, pr, rfl, hpr⟩
  cases request <;> simp_all [ResolvesInstallation, GitHubRequest.underPulls]

/-- The operation has looked for a token, and has none of its own. -/
def Looking (id : ℤ) (entry : Option InstallationToken × ℚ) (h : GitHubHistory) : Prop :=
  Untouched h ∧ LookedFor h id entry

/-- The operation has looked for a token, and an exchange has issued one since. -/
def Acquired (id : ℤ) (entry : Option InstallationToken × ℚ) (h : GitHubHistory) : Prop :=
  (∀ o ∈ h, ¬ IsPullRequest o.op) ∧ LookedFor h id entry ∧ ∃ token, TokenIssued h id token

theorem looking_mint {id : ℤ} {entry : Option InstallationToken × ℚ} {now : ℚ} :
    Behaves resolvesFirst (Looking id entry) (mintAppJwt appId now) (fun _ => Looking id entry)
      (Looking id entry) := by
  refine Behaves.of_issues (fun h op hop _ => ?_) (fun h op answer hop hh => ?_) mint_issues
  · rintro ⟨request, bearer, pr, rfl, hpr⟩
    cases request <;> simp_all [ResolvesInstallation, GitHubRequest.underPulls]
  · refine ⟨hh.1.resolves hop, hh.2.cons ?_⟩
    rintro id rfl
    exact hop

theorem looking_exchange {id : ℤ} {entry : Option InstallationToken × ℚ} {appJwt : String} :
    Behaves resolvesFirst (Looking id entry) (exchangeJwtForInstallationToken appJwt id)
      (fun _ => Acquired id entry) Untouched := by
  have hpull : ¬ IsPullRequest (.dep (.http (.accessToken id) appJwt)) := by
    rintro ⟨request, bearer, pr, heq, hpr⟩
    cases heq
    cases hpr
  apply behaves_http (R := fun response h' => ∃ h, Looking id entry h ∧
    h' = ⟨.dep (.http (.accessToken id) appJwt), .ok response⟩ :: h)
  · exact fun h _ hp => absurd hp hpull
  · rintro h e ⟨hh, -⟩
    refine hh.cons hpull (by simp) fun id token => ?_
    rintro ⟨response, ⟨hstatus, bearer, hmem⟩, hjson⟩
    cases List.mem_singleton.mp hmem
  · exact fun h response hh => ⟨h, hh, rfl⟩
  · intro response
    have hfailed : (∀ token, response.statusCode < 300 → response.json ≠ .ok token) →
        ∀ h, Untouched h →
          Untouched (⟨.dep (.http (.accessToken id) appJwt), .ok response⟩ :: h) := by
      intro hnone h hh
      refine hh.cons hpull (by simp) fun id token => ?_
      rintro ⟨response', ⟨hstatus, bearer, hmem⟩, hjson⟩
      cases List.mem_singleton.mp hmem
      exact hnone token hstatus hjson
    by_cases hstatus : 300 ≤ response.statusCode
    · have herror : exchangeStatusError id response.toReply = .error _ := if_pos hstatus
      rw [herror]
      rintro _ ⟨h, ⟨hh, -⟩, rfl⟩
      exact hfailed (fun token hlt => absurd hstatus (not_le.mpr hlt)) h hh
    · have hok : exchangeStatusError id response.toReply = .ok () := if_neg hstatus
      rw [hok]
      cases hjson : response.json with
      | error e =>
        rintro _ ⟨h, ⟨hh, -⟩, rfl⟩
        exact hfailed (fun token _ heq => by rw [hjson] at heq; cases heq) h hh
      | ok token =>
        rintro _ ⟨h, ⟨hh, hlooked⟩, rfl⟩
        refine ⟨no_pulls_cons hh.pulls hpull, hlooked.cons (by simp), token, ?_⟩
        exact ⟨response, ⟨not_le.mp hstatus, appJwt, List.mem_cons_self⟩, hjson⟩

/-- A token comes from the cache or from an exchange, and nothing is left of one that comes from
neither. -/
theorem getToken_ready {id : ℤ} : Behaves resolvesFirst Untouched (getToken appId id)
    (fun _ => Ready) Untouched := by
  apply Behaves.dep (R := fun entry => Looking id entry)
  · rintro h hh ⟨request, bearer, pr, heq, -⟩
    cases heq
  · intro h entry hh
    refine ⟨hh.cons ?_ (by simp) fun id token => not_tokenIssued_of_op (by simp), [], h, rfl,
      by simp, hh.stores⟩
    rintro ⟨request, bearer, pr, heq, -⟩
    cases heq
  · intro entry
    split
    · rename_i token hfresh
      apply Behaves.pure
      rintro h ⟨hh, hlooked⟩
      refine ⟨hh.pulls, id, entry, hlooked, ?_⟩
      simp [hh.issued, hfresh]
    · rename_i hdue
      have hmint : Behaves resolvesFirst (Looking id entry) (mintAppJwt appId entry.2)
          (fun _ => Looking id entry) Untouched :=
        looking_mint.mono (fun _ h => h) (fun _ _ h => h) fun _ h => h.1
      apply hmint.bind
      intro appJwt
      apply looking_exchange.bind
      rintro token h ⟨hpulls, hlooked, token', hissued⟩
      refine ⟨?_, fun answer => ⟨no_pulls_cons hpulls ?_, id, entry, hlooked.cons (by simp), ?_⟩⟩
      · rintro ⟨request, bearer, pr, heq, -⟩
        cases heq
      · rintro ⟨request, bearer, pr, heq, -⟩
        cases heq
      · simp only [hdue, iff_true]
        exact ⟨token', hissued.mono (List.subset_cons_self _ _)⟩

theorem installationHeaders_ready : Behaves resolvesFirst Untouched
    (client.installationHeaders owner repo) (fun _ => Ready) Untouched := by
  apply Behaves.dep (R := fun _ => Untouched)
  · rintro h hh ⟨request, bearer, pr, heq, -⟩
    cases heq
  · exact fun h now hh => hh.resolves trivial
  · intro now
    apply (untouched_of_issues mint_issues).bind
    intro appJwt
    apply (Behaves.reliably allowsBookkeeping_resolvesFirst overBookkeeping_untouched
      (fun _ => overBookkeeping_untouched) (untouched_of_issues authorize_issues)).bind
    intro installationId
    exact Behaves.reliably allowsBookkeeping_resolvesFirst overBookkeeping_untouched
      (fun _ => overBookkeeping_ready) getToken_ready

/-- A request about a pull request has been sent. -/
def Pulled (h : GitHubHistory) : Prop := ∃ o ∈ h, IsPullRequest o.op

theorem lasting_pulled : Lasting Pulled := fun _ _ hs ⟨o, hmem, hpull⟩ => ⟨o, hs hmem, hpull⟩

theorem pulled_allows {h : GitHubHistory} {op : GuardOp GitHubSignature} (hh : Pulled h) :
    resolvesFirst h op := by
  obtain ⟨o, hmem, hpull⟩ := hh
  exact fun _ hnone => absurd hpull (hnone o hmem)

theorem pulled_rest (p : Session α) : Behaves resolvesFirst Pulled p (fun _ => Pulled)
    fun _ => True :=
  (Behaves.of_lasting lasting_pulled (fun _ _ => pulled_allows) p).mono (fun _ h => h)
    (fun _ _ h => h) fun _ _ => trivial

/-- The first request about a pull request, and whatever follows. -/
theorem first_request {request : GitHubRequest} {f : Response request.Content → Session α}
    (hpr : request.underPulls = some pr) : Behaves resolvesFirst Ready
      (client.callReliably (RealGitHubClient.attempt request headers) >>= f) (fun _ => Pulled)
      fun _ => True := by
  have hattempt : Behaves resolvesFirst (fun h => Ready h ∨ Pulled h)
      (RealGitHubClient.attempt request headers) (fun _ => Pulled) fun h => Ready h ∨ Pulled h := by
    have hpulled : ∀ (h : GitHubHistory) answer,
        Pulled (⟨.dep (.http request headers), answer⟩ :: h) :=
      fun h answer => ⟨_, List.mem_cons_self, request, headers, pr, rfl, hpr⟩
    apply behaves_http (R := fun _ => Pulled)
    · rintro h (hready | hpulled) hpull hnone
      · exact hready
      · exact pulled_allows hpulled hpull hnone
    · exact fun h e _ => Or.inr (hpulled h _)
    · exact fun h response _ => hpulled h _
    · intro response
      exact (Behaves.of_lasting lasting_pulled (fun _ _ => pulled_allows) _).mono (fun _ h => h)
        (fun _ _ h => h) fun _ h => Or.inr h
  have hover : OverBookkeeping fun h => Ready h ∨ Pulled h := by
    intro h op answer hop hh
    exact hh.imp (overBookkeeping_ready h op answer hop)
      (lasting_pulled.overBookkeeping h op answer hop)
  have hreliably : Behaves resolvesFirst (fun h => Ready h ∨ Pulled h)
      (client.callReliably (RealGitHubClient.attempt request headers)) (fun _ => Pulled)
      fun h => Ready h ∨ Pulled h :=
    Behaves.reliably allowsBookkeeping_resolvesFirst hover
      (fun _ => lasting_pulled.overBookkeeping) hattempt
  have hstart : Behaves resolvesFirst Ready
      (client.callReliably (RealGitHubClient.attempt request headers)) (fun _ => Pulled)
      fun _ => True :=
    hreliably.mono (fun _ h => Or.inl h) (fun _ _ h => h) fun _ _ => trivial
  exact hstart.bind fun response => pulled_rest _

/-- The client's operations look for their token before their first request about a pull
request. -/
theorem operation_ready (op : GitHubOperation) :
    Behaves resolvesFirst Untouched (client.operation op) (fun _ _ => True) fun _ => True := by
  have hheaders : ∀ {owner repo : String}, Behaves resolvesFirst Untouched
      (client.installationHeaders owner repo) (fun _ => Ready) fun _ => True :=
    installationHeaders_ready.mono (fun _ h => h) (fun _ _ h => h) fun _ _ => trivial
  have hrest : ∀ {α : Type} (p : Session α), Behaves resolvesFirst Pulled p (fun _ _ => True)
      fun _ => True :=
    fun p => (pulled_rest p).mono (fun _ h => h) (fun _ _ _ => trivial) fun _ h => h
  cases op with
  | getPrMetadata pr =>
    have hmetadata : Behaves resolvesFirst Untouched (client.getPrMetadata pr) (fun _ => Pulled)
        fun _ => True := hheaders.bind fun headers => first_request rfl
    exact hmetadata.bind fun _ => hrest _
  | fetchDiff pr headSha =>
    have hdiff : Behaves resolvesFirst Untouched (client.getDiffAndFiles pr headSha)
        (fun _ _ => True) fun _ => True := by
      apply Behaves.dep (R := fun _ => Untouched)
      · rintro h hh ⟨request, bearer, pr, heq, -⟩
        cases heq
      · intro h answer hh
        refine hh.cons ?_ (by simp) fun id token => not_tokenIssued_of_op (by simp)
        rintro ⟨request, bearer, pr, heq, -⟩
        cases heq
      · rintro (_ | value)
        · apply hheaders.bind
          intro headers
          exact (first_request rfl).mono (fun _ h => h) (fun _ _ _ => trivial) fun _ h => h
        · exact Behaves.pure fun _ _ => trivial
    have hfetch : Behaves resolvesFirst Untouched (client.fetchDiff pr headSha)
        (fun _ _ => True) fun _ => True := hdiff.bind fun _ => Behaves.pure fun _ _ => trivial
    exact hfetch.bind fun _ => Behaves.pure fun _ _ => trivial
  | postReviewComment review =>
    apply hheaders.bind
    intro headers
    have hfind : Behaves resolvesFirst Ready
        (client.findExistingReviewIdMarker review.pullRequest headers review.reviewId)
        (fun _ => Pulled) fun _ => True := first_request rfl
    exact hfind.bind fun _ => hrest _

end

/-- At this moment the client `k` stores a token of the installation. -/
def StoresToken (inst : ℕ → ℕ) (k : ℕ) (id : ℤ) (moment : GitHubMoment) : Prop :=
  inst moment.thread = k ∧ ∃ token, moment.occurrence.op = .dep (.storeToken id token)

/-- The world holds the tokens that moment `r` found, but for those stored since. -/
def TokensKept (inst : ℕ → ℕ) (w : GuardWorld GitHubWorld) (past : List GitHubMoment) : Prop :=
  ∀ since r before, past = since ++ r :: before → ∀ k id,
    (∀ m ∈ since ++ [r], ¬ StoresToken inst k id m) →
      (w.dep.clients k).tokens id = (r.world.dep.clients k).tokens id

/-- A moment finds the tokens that were kept, reads the cache as it is, and follows the protocol. -/
structure Consistent (inst : ℕ → ℕ) (moment : GitHubMoment) (earlier : List GitHubMoment) :
    Prop where
  kept : TokensKept inst moment.world earlier
  looked : ∀ id entry, moment.occurrence = ⟨.dep (.cachedToken id), entry⟩ →
    entry = ((moment.world.dep.clients (inst moment.thread)).tokens id,
      moment.world.dep.wallClock)
  ready : resolvesFirst (Machine.own moment.thread earlier) moment.occurrence.op

section

variable {inst : ℕ → ℕ} {i : ℕ} {past : List GitHubMoment} {w w' : GuardWorld GitHubWorld}

theorem TokensKept.same (h : TokensKept inst w past) (hclients : w'.dep.clients = w.dep.clients) :
    TokensKept inst w' past := by
  intro since r before heq k id hnone
  rw [hclients]
  exact h since r before heq k id hnone

theorem perform_keeps_tokens {op : GuardOp GitHubSignature} {c : GuardChoice GitHubChoice}
    {answer : (Guarded GitHubSignature).Answer op} {k : ℕ} {id : ℤ}
    (hp : (gitHubMachine inst).perform i w op c = some (w', answer))
    (hnone : ¬ StoresToken inst k id ⟨i, w, op, answer⟩) :
    (w'.dep.clients k).tokens id = (w.dep.clients k).tokens id := by
  by_cases hdep : ∃ o, op = .dep o
  · obtain ⟨o, rfl⟩ := hdep
    obtain ⟨c', d, rfl, hd, rfl⟩ := perform_dep hp
    show (d.clients k).tokens id = _
    rw [perform_clients hd, Function.update_apply]
    split
    · rename_i hk
      subst hk
      cases o with
      | storeToken id' token =>
        have hid : id ≠ id' := by
          rintro rfl
          exact hnone ⟨rfl, token, rfl⟩
        simp [GitHubOp.stored, Function.update_of_ne hid]
      | _ => rfl
    · rfl
  · rw [guardPerform_dep hp fun o ho => hdep ⟨o, ho⟩]

theorem TokensKept.perform {op : GuardOp GitHubSignature} {c : GuardChoice GitHubChoice}
    {answer : (Guarded GitHubSignature).Answer op} (h : TokensKept inst w past)
    (hp : (gitHubMachine inst).perform i w op c = some (w', answer)) :
    TokensKept inst w' (⟨i, w, op, answer⟩ :: past) := by
  intro since r before heq k id hnone
  cases since with
  | nil =>
    obtain ⟨rfl, rfl⟩ := List.cons.inj heq
    exact perform_keeps_tokens hp (hnone _ (by simp))
  | cons m since =>
    obtain ⟨rfl, rfl⟩ := List.cons.inj heq
    rw [perform_keeps_tokens hp (hnone _ (by simp))]
    exact h since r before rfl k id fun m hm => hnone m (List.mem_cons_of_mem _ hm)

theorem consistent_of_perform {op : GuardOp GitHubSignature} {c : GuardChoice GitHubChoice}
    {answer : (Guarded GitHubSignature).Answer op} (h : TokensKept inst w past)
    (hready : resolvesFirst (Machine.own i past) op)
    (hp : (gitHubMachine inst).perform i w op c = some (w', answer)) :
    Consistent inst ⟨i, w, op, answer⟩ past where
  kept := h
  looked id entry heq := by
    cases heq
    obtain ⟨c', d, rfl, hd, -⟩ := perform_dep hp
    cases c' <;> simp only [gitHub, reduceCtorEq] at hd
    exact (Prod.mk.inj (Option.some.inj hd)).2.symm
  ready := hready

/-- Operations of clients, in any interleaving and from any caches. -/
theorem operations_consistent {ss : List (Machine.Sched (GuardChoice GitHubChoice)
      (GuardMove GitHubMove) (RealGitHubClient × GitHubOperation))}
    {c : Machine.Config (Guarded GitHubSignature) Exc Unit (GuardWorld GitHubWorld)}
    (hrun : (gitHubMachine inst).exec operating ⟨w, []⟩ ss = some c)
    {later earlier : List GitHubMoment} {moment : GitHubMoment}
    (hpast : (gitHubMachine inst).moments operating ⟨w, []⟩ ss = later ++ moment :: earlier) :
    Consistent inst moment earlier := by
  have huntouched : Untouched [] :=
    ⟨by simp, by simp, by rintro id token ⟨response, ⟨-, bearer, hmem⟩, -⟩; simp at hmem⟩
  have hbody : ∀ request : RealGitHubClient × GitHubOperation,
      (operating request).Follows resolvesFirst (Ends (fun _ _ => True) fun _ => True) [] :=
    fun request => operation_ready request.2 [] huntouched
  have hall := Machine.moments_invariant (J := fun w past => TokensKept inst w past ∧
    ∀ later moment earlier, past = later ++ moment :: earlier → Consistent inst moment earlier)
    hbody ?_ ?_ hrun ⟨?_, ?_⟩
  · exact hall.2 later moment earlier hpast
  · intro w past i op choice w' answer hJ hready hp
    refine ⟨hJ.1.perform hp, fun later m earlier heq => ?_⟩
    cases later with
    | nil =>
      obtain ⟨rfl, rfl⟩ := List.cons.inj heq
      exact consistent_of_perform hJ.1 hready hp
    | cons m' later => exact hJ.2 later m earlier (List.cons.inj heq).2
  · exact fun w past m w' hJ hmove => ⟨hJ.1.same (gitHub_move_clients hmove), hJ.2⟩
  · intro since r before heq
    simp at heq
  · intro later m earlier heq
    simp at heq

theorem freshToken_eq_none {token : InstallationToken} {now : ℚ} :
    freshToken (some token) now = none ↔ token.expiresAt ≤ now + refreshMarginSeconds := by
  rw [freshToken, Option.filter_some]
  simp only [decide_eq_true_eq, ite_eq_right_iff, reduceCtorEq, imp_false, not_lt]
  constructor <;> intro h <;> linarith

/-- GitHub has rejected a request about a pull request, made with the token, as unauthorized. -/
def Rejects (moment : GitHubMoment) (token : InstallationToken) : Prop :=
  ∃ (request : GitHubRequest) (response : Response request.Content), request.underPulls.isSome ∧
    moment.occurrence = ⟨.dep (.http request token.token), .ok response⟩ ∧
      response.statusCode = 401

/-- After a request with a cached token has been rejected, the next operation for the installation
exchanges a token before its first request about a pull request exactly when the rejected token is
due for a refresh by its reported expiry. -/
theorem next_operation_exchanges_iff {ss : List (Machine.Sched (GuardChoice GitHubChoice)
      (GuardMove GitHubMove) (RealGitHubClient × GitHubOperation))}
    {c : Machine.Config (Guarded GitHubSignature) Exc Unit (GuardWorld GitHubWorld)}
    (hrun : (gitHubMachine inst).exec operating ⟨w, []⟩ ss = some c)
    {later between before : List GitHubMoment} {moment rejection : GitHubMoment} {id : ℤ}
    {token : InstallationToken}
    (hpast : (gitHubMachine inst).moments operating ⟨w, []⟩ ss =
      later ++ moment :: (between ++ rejection :: before))
    (hcached : (rejection.world.dep.clients (inst rejection.thread)).tokens id = some token)
    (hrejected : Rejects rejection token) (hclient : inst moment.thread = inst rejection.thread)
    (hnext : Machine.own moment.thread (rejection :: before) = [])
    (hquiet : ∀ m ∈ between, m.thread ≠ moment.thread →
      ¬ StoresToken inst (inst rejection.thread) id m)
    (hpull : IsPullRequest moment.occurrence.op)
    (hfirst : ∀ o ∈ Machine.own moment.thread between, ¬ IsPullRequest o.op)
    (hinstallation : ∀ o ∈ Machine.own moment.thread between, ∀ id',
      o.op = .dep (.cachedToken id') → id' = id) :
    ∃ (since : List GitHubMoment) (lookup : GitHubMoment) (earlier : List GitHubMoment),
      between = since ++ lookup :: earlier ∧ lookup.thread = moment.thread ∧
      lookup.occurrence.op = .dep (.cachedToken id) ∧
      (∀ o ∈ Machine.own moment.thread since, ∀ id', o.op ≠ .dep (.cachedToken id')) ∧
      ((∃ token, TokenIssued (Machine.own moment.thread between) id token) ↔
        token.expiresAt ≤ lookup.world.dep.wallClock + refreshMarginSeconds) := by
  have hown : Machine.own moment.thread (between ++ rejection :: before) =
      Machine.own moment.thread between := by
    rw [Machine.own_append, hnext, List.append_nil]
  have hready := (operations_consistent hrun hpast).ready hpull (by rwa [hown])
  rw [hown] at hready
  obtain ⟨-, id', entry, ⟨since, before', heq, hsince, hbefore⟩, hiff⟩ := hready
  obtain rfl : id' = id :=
    hinstallation ⟨GuardOp.dep (.cachedToken id'), entry⟩ (by rw [heq]; simp) id' rfl
  obtain ⟨since', lookup, earlier, rfl, hthread, hlookup, rfl, rfl⟩ := Machine.exists_of_own_eq heq
  have hsplit : (gitHubMachine inst).moments operating ⟨w, []⟩ ss =
      (later ++ moment :: since') ++ lookup :: (earlier ++ rejection :: before) := by
    rw [hpast]
    simp
  have hlook := operations_consistent hrun hsplit
  have hentry := hlook.looked id' entry hlookup
  have hkept : (lookup.world.dep.clients (inst rejection.thread)).tokens id' = some token := by
    rw [← hcached]
    apply hlook.kept earlier rejection before rfl
    intro m hm hstores
    rcases List.mem_append.mp hm with hm | hm
    · by_cases hthread' : m.thread = moment.thread
      · obtain ⟨-, token', hop⟩ := hstores
        refine hbefore m.occurrence (List.mem_map.mpr ⟨m, ?_, rfl⟩) id' token' hop
        exact List.mem_filter.mpr ⟨hm, by simpa using hthread'⟩
      · exact hquiet m (by simp [hm]) hthread' hstores
    · obtain rfl := List.mem_singleton.mp hm
      obtain ⟨request, response, -, hoccurrence, -⟩ := hrejected
      obtain ⟨-, token', hop⟩ := hstores
      rw [hoccurrence] at hop
      cases hop
  refine ⟨since', lookup, earlier, rfl, hthread, by rw [hlookup], hsince, hiff.trans ?_⟩
  rw [hentry, hthread, hclient, hkept, freshToken_eq_none]

end

/-- What a request was, for the record: thread, credentials, pull request, status. -/
def Sent.summary (sent : Sent) : ℕ × String × Option PullRequest × Option ℕ :=
  (sent.thread, sent.bearer, sent.request.underPulls,
    match sent.sending with
    | .answered response => some response.statusCode
    | .lost .. => none)

/-- The schedule of a request whose credentials GitHub rejects. -/
def requestUnauthorized : List SessionEvent :=
  [.act .go, .act (.dep (.answers fun request => { request.healthyAnswer with statusCode := 401 })),
    .act .go]

/-- Two operations of a client, of which the first meets a revoked token; `rest` is what the second
one does. -/
def revokedThen (rest : List SessionEvent) : List (Machine.Sched (GuardChoice GitHubChoice)
    (GuardMove GitHubMove) (RealGitHubClient × GitHubOperation)) :=
  [.start (.default "1", .getPrMetadata .sample), .start (.default "1", .getPrMetadata .sample)] ++
    (mintsJwt ++ lookupHits ++ lookupHits ++ requestUnauthorized).map (Machine.Event.on 0) ++
    rest.map (Machine.Event.on 1)

/-- The second operation finds the token in the cache. -/
def findsToken : List SessionEvent :=
  mintsJwt ++ lookupHits ++ lookupHits ++ requestAnswered.dropLast

/-- The rejected token is used again, without an exchange. -/
theorem revoked_token_reused :
    ∃ c, (gitHubMachine fun _ => 0).exec operating ⟨warmWorld, []⟩ (revokedThen findsToken) =
        some c ∧
      c.world.dep.log.map Sent.summary =
        [(1, "token", some .sample, some 200), (0, "token", some .sample, some 401)] := by
  have hreach : (gitHubMachine fun _ => 0).reaches operating ⟨warmWorld, []⟩
      (revokedThen findsToken) (fun w => decide (w.dep.log.map Sent.summary =
        [(1, "token", some .sample, some 200), (0, "token", some .sample, some 401)])) = true := by
    decide +kernel
  obtain ⟨c, hrun, hcheck⟩ := Machine.exists_of_reaches hreach
  exact ⟨c, hrun, of_decide_eq_true hcheck⟩

/-- The second operation starts five minutes before the token's expiry. -/
def exchangesToken : List SessionEvent :=
  .move (.dep (.clock 3300)) :: mintsJwt ++ lookupHits ++ exchangeAnswered ++
    requestAnswered.dropLast

/-- The occurrence is a request about a pull request, rejected as unauthorized. -/
def rejectedWith (bearer : String) : Occurrence (Guarded GitHubSignature) → Bool
  | ⟨.dep (.http request bearer'), .ok response⟩ =>
    request.underPulls.isSome && decide (bearer' = bearer) && decide (response.statusCode = 401)
  | _ => false

theorem rejects_of_rejectedWith {moment : GitHubMoment} {token : InstallationToken}
    (h : rejectedWith token.token moment.occurrence = true) : Rejects moment token := by
  unfold rejectedWith at h
  split at h
  · rename_i request bearer response heq
    simp only [Bool.and_eq_true, decide_eq_true_eq] at h
    obtain ⟨⟨hpr, rfl⟩, hstatus⟩ := h
    exact ⟨request, response, hpr, heq, hstatus⟩
  · cases h

/-- The newest moment, the `n` before it, the one before those, and the rest pass the check. -/
def splitsAt {α : Type} (n : ℕ) (check : α → List α → α → List α → Bool) : List α → Bool
  | [] => false
  | a :: l =>
    match l.drop n with
    | [] => false
    | b :: l' => check a (l.take n) b l'

theorem exists_of_splitsAt {α : Type} {n : ℕ} {check : α → List α → α → List α → Bool}
    {l : List α} (h : splitsAt n check l = true) :
    ∃ a between b before, l = a :: (between ++ b :: before) ∧ check a between b before = true := by
  unfold splitsAt at h
  split at h
  · cases h
  · rename_i a l
    split at h
    · cases h
    · rename_i b l' hdrop
      exact ⟨a, l.take n, b, l', by rw [← hdrop, List.take_append_drop], h⟩

/-- What a thread other than `i` does is not to store a token. -/
def storesNoToken (i : ℕ) (moment : GitHubMoment) : Bool :=
  moment.thread == i ||
    match moment.occurrence.op with
    | .dep (.storeToken ..) => false
    | _ => true

/-- The operation looks for no token but the installation's. -/
def looksFor (id : ℤ) (o : Occurrence (Guarded GitHubSignature)) : Bool :=
  match o.op with
  | .dep (.cachedToken id') => decide (id' = id)
  | _ => true

/-- The token is due when the second operation looks, and it exchanges one. -/
theorem due_token_exchanged :
    ∃ c, (gitHubMachine fun _ => 0).exec operating ⟨warmWorld, []⟩ (revokedThen exchangesToken) =
        some c ∧
      ∃ moment between rejection before,
        (gitHubMachine fun _ => 0).moments operating ⟨warmWorld, []⟩ (revokedThen exchangesToken) =
          moment :: (between ++ rejection :: before) ∧
        ∃ token, Rejects rejection token ∧
          ∃ token', TokenIssued (Machine.own moment.thread between) 1 token' := by
  have hreach : (gitHubMachine fun _ => 0).reaches operating ⟨warmWorld, []⟩
      (revokedThen exchangesToken) (fun _ => true) = true := by
    decide +kernel
  obtain ⟨c, hrun, -⟩ := Machine.exists_of_reaches hreach
  have hsplits : splitsAt 13 (fun moment between rejection before =>
      ((rejection.world.dep.clients 0).tokens 1).any (fun token =>
        rejectedWith token.token rejection.occurrence && decide (token.expiresAt = 3600)) &&
      decide (Machine.own moment.thread (rejection :: before)).isEmpty &&
      between.all (storesNoToken moment.thread) &&
      decide (IsPullRequest moment.occurrence.op) &&
      decide (∀ o ∈ Machine.own moment.thread between, ¬ IsPullRequest o.op) &&
      (Machine.own moment.thread between).all (looksFor 1) &&
      between.all fun m => m.thread != moment.thread || m.world.dep.wallClock == 3300)
      ((gitHubMachine fun _ => 0).moments operating ⟨warmWorld, []⟩ (revokedThen exchangesToken)) =
        true := by
    decide +kernel
  obtain ⟨moment, between, rejection, before, hpast, hcheck⟩ := exists_of_splitsAt hsplits
  simp only [Bool.and_eq_true, Option.any_eq_true, decide_eq_true_eq, List.isEmpty_iff,
    List.all_eq_true] at hcheck
  obtain ⟨⟨⟨⟨⟨⟨⟨token, hcached, hrejected, hexpires⟩, hnext⟩, hquiet⟩, hpull⟩, hfirst⟩, hlooks⟩,
    hclock⟩ := hcheck
  have hrejects := rejects_of_rejectedWith hrejected
  have hstart : (gitHubMachine fun _ => 0).moments operating ⟨warmWorld, []⟩
      (revokedThen exchangesToken) = [] ++ moment :: (between ++ rejection :: before) := hpast
  obtain ⟨since, lookup, earlier, rfl, hthread, -, -, hiff⟩ :=
    next_operation_exchanges_iff hrun hstart hcached hrejects rfl hnext
      (fun m hm hne => by
        rintro ⟨-, token', hop⟩
        simpa [storesNoToken, hne, hop] using hquiet m hm) hpull hfirst
      (fun o ho id' hop => by simpa [looksFor, hop] using hlooks o ho)
  refine ⟨c, hrun, moment, _, rejection, before, hpast, token, hrejects, hiff.mpr ?_⟩
  have hlate : lookup.world.dep.wallClock = 3300 := by
    simpa [hthread] using hclock lookup (by simp)
  rw [hexpires, hlate]
  norm_num [refreshMarginSeconds]

end ReviewAgent
