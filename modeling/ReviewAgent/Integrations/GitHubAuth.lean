import ReviewAgent.Integrations.GitHubApi
import ReviewAgent.Text

/-! Authentication: the app's JWT, the installation of a repository, and its access token. -/
namespace ReviewAgent

open Effects

def maxJwtTtlSeconds : ℚ := 9 * 60

def clockSkewToleranceSeconds : ℚ := 60

def refreshMarginSeconds : ℚ := 5 * 60

def gitHubAuthError (message : String) : Exc := .plain .gitHubAuthError message

/-- `RepositoryNotAuthorizedError`. -/
def repositoryNotAuthorized (owner repo : String) : Exc :=
  .plain .repositoryNotAuthorizedError
    (s!"GitHub App is not installed on {owner}/{repo} (or does not have " ++
      "access to it) -- refusing to act on this repository")

/-- `jwt.InvalidKeyError`. -/
def invalidKeyError : ExcClass := .other "InvalidKeyError" (.other "PyJWTError" .exception)

/-- One request; `httpx` may raise. -/
def http (request : GitHubRequest) (bearer : String) : Session (Response request.Content) := do
  let outcome ← dep (D := GitHubSignature) (.http request bearer)
  Program.ofExcept outcome

/-- `mint_app_jwt`. -/
def mintAppJwt (appId : String) (now : ℚ) : Session String := do
  let issuedAt := now - clockSkewToleranceSeconds
  let expiresAt := issuedAt + maxJwtTtlSeconds
  let encoded ← dep (D := GitHubSignature) (.sign ⟨issuedAt.floor, expiresAt.floor, appId⟩)
  match encoded with
  | .ok jwt => pure jwt
  | .error e =>
    if e.isInstanceOfAny [.valueError, invalidKeyError] then
      throw (gitHubAuthError s!"failed to sign App JWT: {e.message}")
    else throw e

/-- The rejection of a failed token exchange. -/
def exchangeStatusError (installationId : ℤ) (reply : Reply) : Except Exc Unit :=
  if 300 ≤ reply.statusCode then
    .error (gitHubAuthError
      (s!"installation token exchange failed for installation_id={installationId}: " ++
        s!"HTTP {reply.statusCode}"))
  else .ok ()

def exchangeJwtForInstallationToken (appJwt : String) (installationId : ℤ) :
    Session InstallationToken := do
  let response ← http (.accessToken installationId) appJwt
  Program.ofExcept (exchangeStatusError installationId response.toReply)
  Program.ofExcept response.json

/-- The rejection of a failed installation lookup. -/
def installationStatusError (owner repo : String) (reply : Reply) : Except Exc Unit :=
  if 300 ≤ reply.statusCode then
    .error (gitHubAuthError
      s!"could not resolve installation for {owner}/{repo}: HTTP {reply.statusCode}")
  else .ok ()

def discoverInstallationId (owner repo appJwt : String) : Session ℤ := do
  let response ← http (.installation owner repo) appJwt
  Program.ofExcept (installationStatusError owner repo response.toReply)
  Program.ofExcept response.json

/-- A cached token that is not due for a refresh. -/
def freshToken (cached : Option InstallationToken) (now : ℚ) : Option InstallationToken :=
  cached.filter fun token => refreshMarginSeconds < token.expiresAt - now

/-- `InstallationTokenCache.get_token`. -/
def getToken (appId : String) (installationId : ℤ) : Session String := do
  let entry ← dep (D := GitHubSignature) (.cachedToken installationId)
  match freshToken entry.1 entry.2 with
  | some token => pure token.token
  | none => do
    let appJwt ← mintAppJwt appId entry.2
    let token ← exchangeJwtForInstallationToken appJwt installationId
    dep (D := GitHubSignature) (.storeToken installationId token)
    pure token.token

/-- What `authorize` makes of a failed lookup. -/
def notFoundAsUnauthorized (owner repo : String) (e : Exc) : Exc :=
  if e.isInstance .gitHubAuthError && strIn "HTTP 404" e.message then
    repositoryNotAuthorized owner repo
  else e

/-- `RepositoryAuthorizer.authorize`. -/
def authorize (owner repo appJwt : String) : Session ℤ := do
  let cached ← dep (D := GitHubSignature) (.resolved owner repo)
  match cached with
  | some installationId => pure installationId
  | none => do
    let installationId ← tryCatch (discoverInstallationId owner repo appJwt) fun e =>
      throw (notFoundAsUnauthorized owner repo e)
    dep (D := GitHubSignature) (.storeResolved owner repo installationId)
    pure installationId

end ReviewAgent
