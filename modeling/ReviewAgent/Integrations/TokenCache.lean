import ReviewAgent.Effects.Script
import ReviewAgent.Integrations.GitHubAuth

/-! The token cache over sequences of calls: what it hands out, and when it exchanges. -/
namespace ReviewAgent

open Effects

/-- An exchange that was asked for, and how it ended. -/
structure Exchange where
  installationId : ℤ
  ended : Except Exc (Response InstallationToken)

/-- The token that it brought. -/
def Exchange.issued (exchange : Exchange) : Option InstallationToken :=
  match exchange.ended with
  | .ok response => if response.statusCode < 300 then response.json.toOption else none
  | .error _ => none

/-- What a call of `get_token` meets: the clock, the signing of the JWT, the end of an exchange, and
the answers to what it does not ask. -/
structure TokenSetting where
  now : ℚ
  signed : Except Exc String
  exchanged : Except Exc (Response InstallationToken)
  rest : (op : GuardOp GitHubSignature) → (Guarded GitHubSignature).Answer op

/-- The caches in the course of a call, and the exchanges that it has asked for. -/
structure CachesInUse where
  caches : ClientCaches
  exchanges : List Exchange := []

def TokenSetting.script (setting : TokenSetting) : Script (Guarded GitHubSignature) CachesInUse
  | .dep (.cachedToken installationId), s =>
    ((s.caches.tokens installationId, setting.now), s)
  | .dep (.sign _), s => (setting.signed, s)
  | .dep (.http (.accessToken installationId) _), s =>
    (setting.exchanged, { s with exchanges := ⟨installationId, setting.exchanged⟩ :: s.exchanges })
  | .dep op, s => (setting.rest (.dep op), { s with caches := op.stored s.caches })
  | op, s => (setting.rest op, s)

/-- What a call of `get_token` returns or raises, asks for, and leaves in the caches. -/
structure TokenCall where
  outcome : Except Exc String
  exchanges : List Exchange
  caches : ClientCaches

def ClientCaches.getToken (caches : ClientCaches) (appId : String) (installationId : ℤ)
    (setting : TokenSetting) : TokenCall :=
  let played := (ReviewAgent.getToken appId installationId).play setting.script ⟨caches, []⟩
  ⟨played.1, played.2.exchanges, played.2.caches⟩

/-- `InstallationTokenCache.invalidate`. -/
def ClientCaches.invalidate (caches : ClientCaches) (installationId : ℤ) : ClientCaches :=
  { caches with tokens := Function.update caches.tokens installationId none }

/-- A call of the token cache. -/
inductive CacheCall where
  | getToken (installationId : ℤ) (setting : TokenSetting)
  | invalidate (installationId : ℤ)

def CacheCall.installationId : CacheCall → ℤ
  | getToken installationId _ => installationId
  | invalidate installationId => installationId

/-- The cache after calls, the last one first. -/
def cachesAfter (appId : String) : List CacheCall → ClientCaches
  | [] => {}
  | .getToken installationId setting :: earlier =>
    ((cachesAfter appId earlier).getToken appId installationId setting).caches
  | .invalidate installationId :: earlier => (cachesAfter appId earlier).invalidate installationId

/-- What becomes of a cache: an exchange, or an invalidation. -/
inductive CacheEvent where
  | exchanged (exchange : Exchange)
  | invalidated (installationId : ℤ)

/-- What the calls have done, the last first. -/
def cacheEvents (appId : String) : List CacheCall → List CacheEvent
  | [] => []
  | .getToken installationId setting :: earlier =>
    ((cachesAfter appId earlier).getToken appId installationId setting).exchanges.map .exchanged ++
      cacheEvents appId earlier
  | .invalidate installationId :: earlier => .invalidated installationId :: cacheEvents appId earlier

/-- The token last exchanged for an installation since its last invalidation. -/
def lastIssued (installationId : ℤ) : List CacheEvent → Option InstallationToken
  | [] => none
  | .exchanged exchange :: before =>
    if exchange.installationId = installationId then
      exchange.issued.or (lastIssued installationId before)
    else lastIssued installationId before
  | .invalidated installationId' :: before =>
    if installationId' = installationId then none else lastIssued installationId before

/-- The number of exchanges that brought a token. -/
def exchangesIssued (events : List CacheEvent) : ℕ :=
  events.countP fun
    | .exchanged exchange => exchange.issued.isSome
    | .invalidated _ => false

section

variable {appId : String} {caches : ClientCaches} {id : ℤ} {setting : TokenSetting}

/-- Minting a JWT asks for no exchange, and returns when the JWT is signed. -/
theorem play_mintAppJwt (appId : String) (now : ℚ) (setting : TokenSetting) (s : CachesInUse) :
    ∃ r, (mintAppJwt appId now).play setting.script s = (r, s) ∧ r.isOk = setting.signed.isOk := by
  have hsign : ∀ claims : JwtClaims, setting.script (.dep (.sign claims)) s = (setting.signed, s) :=
    fun _ => rfl
  unfold mintAppJwt
  rw [Program.play_bind_ok rfl, hsign]
  cases setting.signed with
  | ok jwt => exact ⟨_, rfl, rfl⟩
  | error e =>
    dsimp only
    split
    · exact ⟨_, rfl, rfl⟩
    · exact ⟨_, rfl, rfl⟩

/-- An exchange returns the token that it brings. -/
theorem play_exchange (jwt : String) (id : ℤ) (setting : TokenSetting) (s : CachesInUse) :
    ∃ r, (exchangeJwtForInstallationToken jwt id).play setting.script s =
        (r, { s with exchanges := ⟨id, setting.exchanged⟩ :: s.exchanges }) ∧
      r.toOption = Exchange.issued ⟨id, setting.exchanged⟩ := by
  have hplay : (exchangeJwtForInstallationToken jwt id).play setting.script s =
      (Program.ofExcept setting.exchanged >>= fun response => do
        Program.ofExcept (exchangeStatusError id response.toReply)
        Program.ofExcept response.json).play setting.script
          { s with exchanges := ⟨id, setting.exchanged⟩ :: s.exchanges } := rfl
  rw [hplay]
  unfold Exchange.issued
  cases setting.exchanged with
  | error e => exact ⟨_, rfl, rfl⟩
  | ok response =>
    by_cases hstatus : response.statusCode < 300
    · have haccepted : exchangeStatusError id response.toReply = .ok () := by
        simp [exchangeStatusError, hstatus]
      show ∃ r, Program.play setting.script
        (Program.ofExcept (exchangeStatusError id response.toReply) >>= _) _ = _ ∧ _
      rw [haccepted]
      exact ⟨_, rfl, by simp [hstatus]⟩
    · have hrefused : ∃ e, exchangeStatusError id response.toReply = .error e :=
        ⟨_, if_pos (not_lt.mp hstatus)⟩
      obtain ⟨e, hrefused⟩ := hrefused
      show ∃ r, Program.play setting.script
        (Program.ofExcept (exchangeStatusError id response.toReply) >>= _) _ = _ ∧ _
      rw [hrefused]
      exact ⟨_, rfl, by simp [hstatus]; rfl⟩

/-- What `get_token` does: it hands out the cached token, fails to ask for an exchange, or asks for
one, which fails, or brings a token that goes into the cache. -/
theorem getToken_cases (caches : ClientCaches) (appId : String) (id : ℤ) (setting : TokenSetting) :
    let call := caches.getToken appId id setting
    let fresh := freshToken (caches.tokens id) setting.now
    let exchange : Exchange := ⟨id, setting.exchanged⟩
    (∃ token, fresh = some token ∧ call = ⟨.ok token.token, [], caches⟩) ∨
    (fresh = none ∧ setting.signed.isOk = false ∧ ∃ e, call = ⟨.error e, [], caches⟩) ∨
    (fresh = none ∧ setting.signed.isOk = true ∧ exchange.issued = none ∧
      ∃ e, call = ⟨.error e, [exchange], caches⟩) ∨
    (fresh = none ∧ setting.signed.isOk = true ∧ ∃ token, exchange.issued = some token ∧
      call = ⟨.ok token.token, [exchange], (GitHubOp.storeToken id token).stored caches⟩) := by
  intro call fresh exchange
  have hplay : (ReviewAgent.getToken appId id).play setting.script ⟨caches, []⟩ =
      Program.play setting.script (fresh.elim (do
          let appJwt ← mintAppJwt appId setting.now
          let token ← exchangeJwtForInstallationToken appJwt id
          dep (D := GitHubSignature) (.storeToken id token)
          pure token.token) fun token => pure token.token) ⟨caches, []⟩ := by
    have hentry : (dep (D := GitHubSignature) (.cachedToken id) : Session _).play setting.script
        ⟨caches, []⟩ = (.ok (caches.tokens id, setting.now), ⟨caches, []⟩) := rfl
    rw [ReviewAgent.getToken, Program.play_bind_ok hentry]
    change Program.play _ _ _ = Program.play _ ((freshToken (caches.tokens id) setting.now).elim _ _) _
    cases freshToken (caches.tokens id) setting.now <;> rfl
  cases hfresh : fresh with
  | some token =>
    rw [hfresh] at hplay
    refine Or.inl ⟨token, rfl, ?_⟩
    show TokenCall.mk _ _ _ = _
    rw [hplay]
    rfl
  | none =>
    rw [hfresh, Option.elim_none] at hplay
    refine Or.inr ?_
    obtain ⟨minted, hmint, hsigned⟩ := play_mintAppJwt appId setting.now setting ⟨caches, []⟩
    cases minted with
    | error e =>
      refine Or.inl ⟨rfl, hsigned.symm, e, ?_⟩
      show TokenCall.mk _ _ _ = _
      rw [hplay, Program.play_bind_error hmint]
    | ok jwt =>
      refine Or.inr ?_
      rw [Program.play_bind_ok hmint] at hplay
      obtain ⟨exchanged, hexchange, hissued⟩ := play_exchange jwt id setting ⟨caches, []⟩
      cases exchanged with
      | error e =>
        refine Or.inl ⟨rfl, hsigned.symm, hissued.symm, e, ?_⟩
        show TokenCall.mk _ _ _ = _
        rw [hplay, Program.play_bind_error hexchange]
      | ok token =>
        refine Or.inr ⟨rfl, hsigned.symm, token, hissued.symm, ?_⟩
        show TokenCall.mk _ _ _ = _
        rw [hplay, Program.play_bind_ok hexchange]
        rfl

/-- The same token in the cache of the installation, and the same exchanges so far. -/
def SameToken (id : ℤ) (s t : CachesInUse) : Prop :=
  s.caches.tokens id = t.caches.tokens id ∧ s.exchanges = t.exchanges

theorem agrees_dep {op : GitHubOp} (hop : ∀ s t, SameToken id s t →
      (setting.script (.dep op) s).1 = (setting.script (.dep op) t).1 ∧
        SameToken id (setting.script (.dep op) s).2 (setting.script (.dep op) t).2) :
    (dep (D := GitHubSignature) op).Agrees setting.script setting.script (SameToken id) :=
  fun s t hst => ⟨congrArg Except.ok (hop s t hst).1, (hop s t hst).2⟩

theorem agrees_ofExcept {α : Type} (r : Except Exc α) :
    (Program.ofExcept r : Session α).Agrees setting.script setting.script (SameToken id) :=
  Program.agrees_done r

/-- What `get_token` does is decided by the token in the cache of its installation. -/
theorem agrees_getToken : (ReviewAgent.getToken appId id).Agrees setting.script setting.script
    (SameToken id) := by
  refine Program.Agrees.bind (agrees_dep fun s t hst => ⟨?_, hst⟩) fun entry => ?_
  · exact congrArg (·, setting.now) hst.1
  · split
    · exact Program.agrees_done _
    · refine Program.Agrees.bind ?_ fun appJwt => Program.Agrees.bind ?_ fun token =>
        Program.Agrees.bind (agrees_dep fun s t hst => ⟨rfl, ?_, hst.2⟩) fun _ =>
          Program.agrees_done _
      · refine Program.Agrees.bind (agrees_dep fun s t hst => ⟨rfl, hst⟩) fun encoded => ?_
        cases encoded with
        | ok jwt => exact Program.agrees_done _
        | error e =>
          dsimp only
          split
          · exact Program.agrees_done _
          · exact Program.agrees_done _
      · refine Program.Agrees.bind (Program.Agrees.bind (agrees_dep fun s t hst => ⟨rfl, hst.1, ?_⟩)
          fun _ => agrees_ofExcept _) fun response => Program.Agrees.bind (agrees_ofExcept _)
            fun _ => agrees_ofExcept _
        exact congrArg (_ :: ·) hst.2
      · show Function.update _ _ _ _ = Function.update _ _ _ _
        simp

theorem getToken_congr {caches' : ClientCaches} (h : caches.tokens id = caches'.tokens id) :
    (caches.getToken appId id setting).outcome = (caches'.getToken appId id setting).outcome ∧
    (caches.getToken appId id setting).exchanges = (caches'.getToken appId id setting).exchanges ∧
    (caches.getToken appId id setting).caches.tokens id =
      (caches'.getToken appId id setting).caches.tokens id := by
  obtain ⟨houtcome, htokens, hexchanges⟩ :=
    @agrees_getToken appId id setting ⟨caches, []⟩ ⟨caches', []⟩ ⟨h, rfl⟩
  exact ⟨houtcome, hexchanges, htokens⟩

/-- A call of `get_token` leaves the tokens of other installations. -/
theorem getToken_tokens_other {id' : ℤ} (hother : id' ≠ id) :
    (caches.getToken appId id setting).caches.tokens id' = caches.tokens id' := by
  rcases getToken_cases caches appId id setting with
    ⟨token, -, hcall⟩ | ⟨-, -, e, hcall⟩ | ⟨-, -, -, e, hcall⟩ | ⟨-, -, token, -, hcall⟩
  · rw [hcall]
  · rw [hcall]
  · rw [hcall]
  · rw [hcall]
    exact Function.update_of_ne hother _ _

/-- The cache holds what was last exchanged, and has counted what was. -/
theorem cachesAfter_agree (appId : String) (calls : List CacheCall) :
    (∀ id, (cachesAfter appId calls).tokens id = lastIssued id (cacheEvents appId calls)) ∧
      (cachesAfter appId calls).exchangeCount = exchangesIssued (cacheEvents appId calls) := by
  induction calls with
  | nil => exact ⟨fun id => rfl, rfl⟩
  | cons call earlier ih =>
    obtain ⟨htokens, hcount⟩ := ih
    cases call with
    | invalidate id =>
      refine ⟨fun id' => ?_, ?_⟩
      · simp only [cachesAfter, ClientCaches.invalidate, cacheEvents, lastIssued,
          Function.update_apply, htokens, eq_comm]
      · simpa [cachesAfter, ClientCaches.invalidate, cacheEvents, exchangesIssued] using hcount
    | getToken id setting =>
      simp only [cachesAfter, cacheEvents]
      rcases getToken_cases (cachesAfter appId earlier) appId id setting with
        ⟨token, -, hcall⟩ | ⟨-, -, e, hcall⟩ | ⟨-, -, hnone, e, hcall⟩ |
          ⟨-, -, token, hissued, hcall⟩
      · rw [hcall]
        exact ⟨htokens, hcount⟩
      · rw [hcall]
        exact ⟨htokens, hcount⟩
      · rw [hcall]
        refine ⟨fun id' => ?_, ?_⟩
        · simp [lastIssued, hnone, htokens]
        · simpa [exchangesIssued, hnone] using hcount
      · rw [hcall]
        refine ⟨fun id' => ?_, ?_⟩
        · by_cases hid : id = id'
          · subst hid
            simp [GitHubOp.stored, lastIssued, hissued]
          · simp [GitHubOp.stored, lastIssued, hid, htokens, Function.update_of_ne (Ne.symm hid)]
        · simpa [GitHubOp.stored, exchangesIssued, hissued] using hcount

/-- The token of an installation depends on the calls for it alone. -/
theorem tokens_filter (appId : String) (id : ℤ) (calls : List CacheCall) :
    (cachesAfter appId calls).tokens id =
      (cachesAfter appId (calls.filter fun call => call.installationId = id)).tokens id := by
  induction calls with
  | nil => rfl
  | cons call earlier ih =>
    by_cases hid : call.installationId = id
    · rw [List.filter_cons_of_pos (by simpa using hid)]
      cases call with
      | getToken id' setting =>
        cases hid
        exact (getToken_congr ih).2.2
      | invalidate id' =>
        cases hid
        simp [cachesAfter, ClientCaches.invalidate, CacheCall.installationId]
    · rw [List.filter_cons_of_neg (by simpa using hid), ← ih]
      cases call with
      | getToken id' setting => exact getToken_tokens_other (Ne.symm hid)
      | invalidate id' => exact Function.update_of_ne (Ne.symm hid) _ _

/-- A call of `get_token` hands out the token that it exchanges, or else the cached one that is not
due; it exchanges when there is none; and an exchange that brings nothing changes nothing. -/
theorem getToken_law (caches : ClientCaches) (appId : String) (id : ℤ) (setting : TokenSetting) :
    let call := caches.getToken appId id setting
    let fresh := freshToken (caches.tokens id) setting.now
    (∀ bearer, call.outcome = .ok bearer ↔ ∃ token, token.token = bearer ∧
      ((∃ exchange ∈ call.exchanges, exchange.issued = some token) ∨ fresh = some token)) ∧
    (call.exchanges =
      if fresh = none ∧ setting.signed.isOk then [⟨id, setting.exchanged⟩] else []) ∧
    (∀ exchange ∈ call.exchanges, exchange.issued = none →
      (∃ e, call.outcome = .error e) ∧ call.caches = caches) := by
  intro call fresh
  rcases getToken_cases caches appId id setting with
    ⟨token, hfresh, hcall⟩ | ⟨hfresh, hsigned, e, hcall⟩ | ⟨hfresh, hsigned, hnone, e, hcall⟩ |
      ⟨hfresh, hsigned, token, hissued, hcall⟩
  · simp [call, fresh, hcall, hfresh]
  · simp [call, fresh, hcall, hfresh, hsigned]
  · simp [call, fresh, hcall, hfresh, hsigned, hnone]
  · simp only [call, fresh, hcall, hfresh, hsigned]
    simp [hissued]

/-- A call of `get_token` after any calls. The token that counts is the one last exchanged for the
installation since its last invalidation, with more than 300 seconds left. -/
theorem token_cache_law (appId : String) (earlier : List CacheCall) (id : ℤ)
    (setting : TokenSetting) :
    let caches := cachesAfter appId earlier
    let call := caches.getToken appId id setting
    let last := (lastIssued id (cacheEvents appId earlier)).filter fun token =>
      300 < token.expiresAt - setting.now
    let alone := (cachesAfter appId (earlier.filter fun call => call.installationId = id)).getToken
      appId id setting
    (∀ bearer, call.outcome = .ok bearer ↔ ∃ token, token.token = bearer ∧
      ((∃ exchange ∈ call.exchanges, exchange.issued = some token) ∨ last = some token)) ∧
    (call.exchanges = if last = none ∧ setting.signed.isOk then [⟨id, setting.exchanged⟩] else []) ∧
    (∀ exchange ∈ call.exchanges, exchange.issued = none →
      (∃ e, call.outcome = .error e) ∧ call.caches = caches) ∧
    (call.outcome = alone.outcome ∧ call.exchanges = alone.exchanges) ∧
    caches.exchangeCount = exchangesIssued (cacheEvents appId earlier) := by
  intro caches call last alone
  obtain ⟨htokens, hcount⟩ := cachesAfter_agree appId earlier
  have hlast : freshToken (caches.tokens id) setting.now = last := by
    show Option.filter _ _ = Option.filter _ _
    rw [htokens]
    rw [(by decide +kernel : refreshMarginSeconds = 300)]
  obtain ⟨hreturns, hexchanges, hfails⟩ := getToken_law caches appId id setting
  rw [hlast] at hreturns hexchanges
  obtain ⟨houtcome, hasked, -⟩ := @getToken_congr appId _ id setting _ (tokens_filter appId id earlier)
  exact ⟨hreturns, hexchanges, hfails, ⟨houtcome, hasked⟩, hcount⟩

end

end ReviewAgent
