import Mathlib.Data.Rat.Init
import Mathlib.Data.List.Infix
import ReviewAgent.Effects.Histories
import ReviewAgent.Interpreter
import ReviewAgent.Redaction

/-! The guard against traces that never land: a probe run is written and read back. -/
namespace ReviewAgent

open Effects
open Json (points)

/-- The settings that the guard reads. -/
structure TracingSettings where
  langsmithTracing : Bool
  langsmithApiKey : Option String
  langsmithEndpoint : Option String
  langsmithWorkspaceId : Option String
  langsmithProject : String

/-- What the guard issues: the constructor and the methods of a `langsmith.Client`, a fresh id, and
its waits. -/
inductive LangSmithOp where
  | buildClient (apiUrl apiKey workspaceId : Option String)
  | uuid4
  | createRun (name runId projectName : String)
  | updateRun (runId : String)
  | flush
  | sleep (seconds : ℚ)
  | readRun (runId : String)
  | readProject (projectName : String)
  deriving DecidableEq

abbrev LangSmithSignature : Signature where
  Op := LangSmithOp
  Answer
    | .uuid4 => String
    | .sleep _ => Unit
    | .readProject _ => Except Exc (Option String)
    | _ => Except Exc Unit

/-- Programs that talk to LangSmith. -/
abbrev LangSmithed (α : Type) : Type := Program LangSmithSignature Exc α

def probeRunName : String := "pr-review-agent-tracing-startup-probe"

def probeReadbackAttempts : ℕ := 6

def probeReadbackDelaySeconds : ℚ := 3 / 2

/-! What a diagnosis says. -/

/-- `[A-Za-z0-9_]`. -/
def isKeyChar (c : Char) : Bool :=
  ('A' ≤ c && c ≤ 'Z') || ('a' ≤ c && c ≤ 'z') || ('0' ≤ c && c ≤ '9') || c == '_'

def keyMarks : List (List Char) := ["lsv2_sk_".toList, "lsv2_pt_".toList]

def redacted : List Char := "<redacted>".toList

theorem keyMarks_ne_nil : ∀ mark ∈ keyMarks, mark ≠ [] := by decide

theorem keyMarks_body : ∀ mark ∈ keyMarks, ∀ c ∈ mark, isKeyChar c = true := by
  have hall : (keyMarks.all fun mark => mark.all isKeyChar) = true := by decide
  intro mark hmark
  exact List.all_eq_true.mp (List.all_eq_true.mp hall mark hmark)

theorem redacted_opens : ∃ c ∈ redacted.head?, isKeyChar c = false := ⟨'<', rfl, rfl⟩

theorem redacted_apart : ∀ mark ∈ keyMarks, ∀ c ∈ mark.head?, c ∉ redacted := by
  have hall : (keyMarks.all fun mark => mark.head?.all fun c => !redacted.contains c) = true := by
    decide
  intro mark hmark c hc hmem
  have hhead := List.all_eq_true.mp hall mark hmark
  rw [Option.mem_def.mp hc] at hhead
  exact absurd (List.contains_iff_mem.mpr hmem) (by simpa using hhead)

/-- `_KEY_PATTERN`. -/
def keyPattern : Redaction.Tokens Char where
  marks := keyMarks
  body := isKeyChar
  placeholder := redacted
  mark_ne_nil := keyMarks_ne_nil
  mark_body := keyMarks_body
  placeholder_opens := redacted_opens
  placeholder_apart := redacted_apart

/-- `_redact`. -/
def redact (text : String) : String := String.ofList (keyPattern.redact text.toList)

/-- `word in text`. -/
def occursIn (word text : String) : Bool := decide (word.toList <:+: text.toList)

def forbiddenHint : String :=
  "a 403/Forbidden response on every call is this org's known " ++
    "signature for EITHER a missing/incorrect LANGSMITH_WORKSPACE_ID " ++
    "(this project's LangSmith account is on the AWS deployment, " ++
    "where a service-account key 403s on every endpoint without an " ++
    "explicit workspace id -- see .env.example) OR an invalid/" ++
    "revoked API key."

def endpointAdvice : String :=
  "-- if this org's LangSmith account lives on the AWS deployment, it " ++
    "must be https://aws.api.smith.langchain.com, not the SDK's " ++
    "default api.smith.langchain.com; using the wrong region 403s " ++
    "identically to a bad key."

def endpointHint (shown : String) : String :=
  "LANGSMITH_ENDPOINT is currently" ++ (" " ++ (shown ++ (" " ++ endpointAdvice)))

def workspaceHint : String :=
  "LANGSMITH_WORKSPACE_ID is unset. On this project's AWS-deployment " ++
    "LangSmith org, a service-account key 403s on every endpoint " ++
    "without it, even though the key itself is valid -- LangSmith's " ++
    "own quickstart snippet omits this variable."

def readbackHint : String :=
  "the probe run could not be read back by id after 6 attempts over 9.0s. " ++
    "LangSmith's ingestion swallows this class of failure by design " ++
    "(a failed POST /runs/multipart still lets client.flush() return " ++
    "cleanly), which is exactly why this check reads the run back " ++
    "instead of trusting flush()."

def unverified : String :=
  "LangSmith tracing is enabled (LANGSMITH_TRACING=true) but the " ++
    "startup probe run did not verifiably land in LangSmith."

section

variable (py : Interpreter) (settings : TracingSettings)

/-- The endpoint as the hint shows it, if it is set to another than the one of AWS. -/
def shownEndpoint : Option String :=
  match settings.langsmithEndpoint with
  | some endpoint =>
    if endpoint ≠ "" ∧ occursIn "aws.api.smith.langchain.com" endpoint = false then
      some (py.repr (.str (points endpoint)))
    else none
  | none => none

/-- The hints that an exception and the settings give. -/
def likelyCauses (exc : Option Exc) : List String :=
  (if exc.any fun e => occursIn "403" e.message || occursIn "Forbidden" e.message then
    [forbiddenHint] else []) ++
  ((shownEndpoint py settings).map endpointHint).toList ++
  (if settings.langsmithWorkspaceId.getD "" = "" then [workspaceHint] else [])

/-- `_diagnose`. -/
def diagnose (exc : Option Exc) (readbackFailed : Bool) : String :=
  let detail := (exc.map fun e => redact e.message).getD "no exception was raised"
  let causes := likelyCauses py settings exc
  let hints := if readbackFailed && causes.isEmpty then [readbackHint] else causes
  let hintText :=
    if hints.isEmpty then "no further diagnostic signal is available." else " ".intercalate hints
  unverified ++ (" " ++ (hintText ++ (" " ++ ("Underlying error:" ++ (" " ++ detail)))))

def tracingConfigurationErrorClass : ExcClass := .other "TracingConfigurationError" .runtimeError

def tracingConfigurationError (exc : Option Exc) (readbackFailed : Bool) : Exc :=
  .plain tracingConfigurationErrorClass (diagnose py settings exc readbackFailed)

/-! The probe. -/

/-- A call of the client that returns nothing of use. -/
def callClient (op : LangSmithOp) (read : LangSmithSignature.Answer op → Except Exc Unit) :
    LangSmithed Unit := do
  let answer ← Program.perform (S := LangSmithSignature) op
  Program.ofExcept (read answer)

/-- `_build_client`. -/
def buildClient : LangSmithed Unit :=
  callClient (.buildClient settings.langsmithEndpoint settings.langsmithApiKey
    settings.langsmithWorkspaceId) fun answer => answer

/-- The probe run, written and flushed. -/
def writeProbe (runId : String) : LangSmithed Unit := do
  callClient (.createRun probeRunName runId settings.langsmithProject) fun answer => answer
  callClient (.updateRun runId) fun answer => answer
  callClient .flush fun answer => answer

/-- The attempts that are left to read the probe run back, and what the last one raised. -/
def readBackProbe (runId : String) : ℕ → Option Exc → LangSmithed Unit
  | 0, lastExc => throw (tracingConfigurationError py settings lastExc true)
  | attempts + 1, _ => do
    let _ ← Program.perform (S := LangSmithSignature) (.sleep probeReadbackDelaySeconds)
    let answer ← Program.perform (S := LangSmithSignature) (.readRun runId)
    match answer with
    | .ok () => pure ()
    | .error e => if e.isInstance .exception then readBackProbe runId attempts (some e) else throw e

/-- `assert_tracing_healthy`. -/
def assertTracingHealthy : LangSmithed Unit :=
  if settings.langsmithTracing then do
    buildClient settings
    let runId ← Program.perform (S := LangSmithSignature) .uuid4
    tryCatch (writeProbe settings runId) fun e =>
      throw (if e.isInstance .exception then tracingConfigurationError py settings (some e) false
        else e)
    readBackProbe py settings runId probeReadbackAttempts none
  else pure ()

/-- `resolve_project_url`. -/
def resolveProjectUrl : LangSmithed (Option String) := do
  buildClient settings
  let answer ← Program.perform (S := LangSmithSignature) (.readProject settings.langsmithProject)
  match answer with
  | .ok url => pure url
  | .error e => if e.isInstance .exception then pure none else throw e

end

end ReviewAgent
