import ReviewAgent.Observability.TracingGuard

/-! What the guard's end says of the probe run, and what its diagnosis shows. -/
namespace ReviewAgent

open Effects

/-- A key is written out in the text. -/
def HoldsKey (text : String) : Prop := keyPattern.Holds text.toList

section

variable {py : Interpreter} {settings : TracingSettings} {exc : Option Exc} {readbackFailed : Bool}
  {left right text : String}

theorem not_holdsKey_redact (text : String) : ¬ HoldsKey (redact text) := by
  rw [HoldsKey, redact, String.toList_ofList]
  exact Redaction.Tokens.not_holds_redact text.toList

theorem holdsKey_append_space :
    HoldsKey (left ++ (" " ++ right)) ↔ HoldsKey left ∨ HoldsKey right := by
  rw [HoldsKey, String.toList_append, String.toList_append]
  exact Redaction.Tokens.holds_append_cons rfl

/-- Every key has a two in it. -/
theorem not_holdsKey_of_not_mem (h : '2' ∉ text.toList) : ¬ HoldsKey text := by
  have htwo : ∀ mark ∈ keyMarks, '2' ∈ mark := by decide
  rintro ⟨mark, hmark, c, -, hfound⟩
  exact h (hfound.subset (List.mem_append_left _ (htwo mark hmark)))

theorem not_mem_ofList {chars : List Char} (h : '2' ∉ chars) :
    '2' ∉ (String.ofList chars).toList := by
  rwa [String.toList_ofList]

theorem not_mem_append (hleft : '2' ∉ left.toList) (hright : '2' ∉ right.toList) :
    '2' ∉ (left ++ right).toList := by
  rw [String.toList_append, List.mem_append, not_or]
  exact ⟨hleft, hright⟩

/-! None of the fixed parts has a two in it: they are taken apart at their joints. -/

theorem not_holdsKey_forbiddenHint : ¬ HoldsKey forbiddenHint := by
  apply not_holdsKey_of_not_mem
  unfold forbiddenHint
  iterate 5 refine not_mem_append ?_ (not_mem_ofList (by decide))
  exact not_mem_ofList (by decide)

theorem not_holdsKey_endpointAdvice : ¬ HoldsKey endpointAdvice := by
  apply not_holdsKey_of_not_mem
  unfold endpointAdvice
  iterate 3 refine not_mem_append ?_ (not_mem_ofList (by decide))
  exact not_mem_ofList (by decide)

theorem not_holdsKey_workspaceHint : ¬ HoldsKey workspaceHint := by
  apply not_holdsKey_of_not_mem
  unfold workspaceHint
  iterate 3 refine not_mem_append ?_ (not_mem_ofList (by decide))
  exact not_mem_ofList (by decide)

theorem not_holdsKey_readbackHint : ¬ HoldsKey readbackHint := by
  apply not_holdsKey_of_not_mem
  unfold readbackHint
  iterate 4 refine not_mem_append ?_ (not_mem_ofList (by decide))
  exact not_mem_ofList (by decide)

theorem not_holdsKey_unverified : ¬ HoldsKey unverified := by
  apply not_holdsKey_of_not_mem
  unfold unverified
  iterate 1 refine not_mem_append ?_ (not_mem_ofList (by decide))
  exact not_mem_ofList (by decide)

theorem holdsKey_intercalate {hints : List String} (hne : hints ≠ []) :
    HoldsKey (" ".intercalate hints) ↔ ∃ hint ∈ hints, HoldsKey hint := by
  induction hints with
  | nil => exact absurd rfl hne
  | cons hint hints ih =>
    cases hints with
    | nil =>
      rw [String.intercalate_singleton]
      simp
    | cons next hints =>
      rw [String.intercalate_cons_cons, String.append_assoc, holdsKey_append_space,
        ih (List.cons_ne_nil _ _)]
      simp

theorem holdsKey_endpointHint (shown : String) : HoldsKey (endpointHint shown) ↔ HoldsKey shown := by
  have hbefore : ¬ HoldsKey "LANGSMITH_ENDPOINT is currently" :=
    not_holdsKey_of_not_mem (not_mem_ofList (by decide))
  calc HoldsKey (endpointHint shown)
      ↔ HoldsKey "LANGSMITH_ENDPOINT is currently" ∨ HoldsKey (shown ++ (" " ++ endpointAdvice)) :=
        holdsKey_append_space
    _ ↔ HoldsKey (shown ++ (" " ++ endpointAdvice)) := or_iff_right hbefore
    _ ↔ HoldsKey shown ∨ HoldsKey endpointAdvice := holdsKey_append_space
    _ ↔ HoldsKey shown := or_iff_left not_holdsKey_endpointAdvice

/-- The hints show no key, unless the endpoint does. -/
theorem holdsKey_likelyCauses : (∃ hint ∈ likelyCauses py settings exc, HoldsKey hint) ↔
    ∃ shown, shownEndpoint py settings = some shown ∧ HoldsKey shown := by
  have hendpoint : ∀ hint, hint ∈ ((shownEndpoint py settings).map endpointHint).toList ↔
      ∃ shown, shownEndpoint py settings = some shown ∧ endpointHint shown = hint := by
    intro hint
    rw [Option.mem_toList, Option.map_eq_some_iff]
  constructor
  · rintro ⟨hint, hmem, hkey⟩
    rw [likelyCauses, List.mem_append, List.mem_append] at hmem
    rcases hmem with (hmem | hmem) | hmem
    · split at hmem
      · obtain rfl := List.mem_singleton.mp hmem
        exact absurd hkey not_holdsKey_forbiddenHint
      · cases hmem
    · obtain ⟨shown, hshown, rfl⟩ := (hendpoint hint).mp hmem
      exact ⟨shown, hshown, (holdsKey_endpointHint shown).mp hkey⟩
    · split at hmem
      · obtain rfl := List.mem_singleton.mp hmem
        exact absurd hkey not_holdsKey_workspaceHint
      · cases hmem
  · rintro ⟨shown, hshown, hkey⟩
    refine ⟨endpointHint shown, ?_, (holdsKey_endpointHint shown).mpr hkey⟩
    exact List.mem_append_left _ (List.mem_append_right _ ((hendpoint _).mpr ⟨shown, hshown, rfl⟩))

theorem holdsKey_report {hintText detail : String} (hdetail : ¬ HoldsKey detail) :
    HoldsKey (unverified ++ (" " ++ (hintText ++ (" " ++ ("Underlying error:" ++ (" " ++ detail)))))) ↔
      HoldsKey hintText := by
  have hlabel : ¬ HoldsKey "Underlying error:" := not_holdsKey_of_not_mem (not_mem_ofList (by decide))
  have hend : ¬ HoldsKey ("Underlying error:" ++ (" " ++ detail)) := fun h =>
    (holdsKey_append_space.mp h).elim hlabel hdetail
  exact holdsKey_append_space.trans ((or_iff_right not_holdsKey_unverified).trans
    (holdsKey_append_space.trans (or_iff_left hend)))

/-- A diagnosis shows a key exactly if the endpoint that it shows has one. -/
theorem holdsKey_diagnose : HoldsKey (diagnose py settings exc readbackFailed) ↔
    ∃ shown, shownEndpoint py settings = some shown ∧ HoldsKey shown := by
  have hdetail : ¬ HoldsKey ((exc.map fun e => redact e.message).getD "no exception was raised") := by
    cases exc with
    | none => exact not_holdsKey_of_not_mem (not_mem_ofList (by decide))
    | some e => exact not_holdsKey_redact e.message
  rw [diagnose, holdsKey_report hdetail, ← @holdsKey_likelyCauses py settings exc]
  cases hcauses : likelyCauses py settings exc with
  | nil =>
    have hnothing : ¬ HoldsKey "no further diagnostic signal is available." :=
      not_holdsKey_of_not_mem (not_mem_ofList (by decide))
    refine iff_of_false ?_ (by simp)
    cases readbackFailed with
    | true =>
      show ¬ HoldsKey (" ".intercalate [readbackHint])
      rw [holdsKey_intercalate (List.cons_ne_nil _ _)]
      simpa using not_holdsKey_readbackHint
    | false => exact hnothing
  | cons hint hints =>
    rw [← holdsKey_intercalate (List.cons_ne_nil _ _)]
    simp

end

/-! The probe run. -/

/-- What has been issued and answered, newest first. -/
abbrev ProbeHistory : Type := List (Occurrence LangSmithSignature)

/-- The probe run with this id was created, updated and flushed. -/
structure ProbeWritten (settings : TracingSettings) (runId : String) (h : ProbeHistory) : Prop where
  created : ⟨.createRun probeRunName runId settings.langsmithProject, Except.ok ()⟩ ∈ h
  updated : ⟨.updateRun runId, Except.ok ()⟩ ∈ h
  flushed : ⟨.flush, Except.ok ()⟩ ∈ h

/-- The run with this id was just read back. -/
def JustRead (runId : String) (h : ProbeHistory) : Prop :=
  h.head? = some ⟨.readRun runId, Except.ok ()⟩

/-- A probe run was written, and then read back by its own id. -/
def ProbeLanded (settings : TracingSettings) (h : ProbeHistory) : Prop :=
  ∃ runId, ProbeWritten settings runId h ∧ JustRead runId h

/-- An attempt to read a run. -/
def isRead : Occurrence LangSmithSignature → Bool
  | ⟨.readRun _, _⟩ => true
  | _ => false

/-- What the guard may issue: only reads of what it has written, six at the most. -/
def MayProbe (settings : TracingSettings) (h : ProbeHistory) : LangSmithOp → Prop
  | .readRun runId => ProbeWritten settings runId h ∧ h.countP isRead < probeReadbackAttempts
  | .readProject _ => False
  | _ => settings.langsmithTracing = true

/-- What the guard's end says: a return, that the probe run landed or that tracing is off; an
error, that it did not land, with what is raised for it. -/
def GuardEnds (py : Interpreter) (settings : TracingSettings) :
    Except Exc Unit → ProbeHistory → Prop
  | .ok (), h => settings.langsmithTracing = false ∧ h = [] ∨ ProbeLanded settings h
  | .error e, h => ¬ ProbeLanded settings h ∧
      (e.cls = tracingConfigurationErrorClass ∧ (HoldsKey e.message ↔
          ∃ shown, shownEndpoint py settings = some shown ∧ HoldsKey shown) ∨
        e.isInstance .exception = false ∨
        h = [⟨.buildClient settings.langsmithEndpoint settings.langsmithApiKey
          settings.langsmithWorkspaceId, Except.error e⟩])

variable {py : Interpreter} {settings : TracingSettings} {runId : String} {h : ProbeHistory}
  {C : ProbeHistory → LangSmithOp → Prop}

theorem callClient_follows {op : LangSmithOp} {read : LangSmithSignature.Answer op → Except Exc Unit}
    (hC : C h op) : (callClient op read).Follows C
      (fun r h' => ∃ answer, r = read answer ∧ h' = ⟨op, answer⟩ :: h) h :=
  ⟨hC, fun answer => ⟨answer, rfl, rfl⟩⟩

theorem not_probeLanded (hread : ∀ runId, ¬ JustRead runId h) : ¬ ProbeLanded settings h :=
  fun ⟨runId, _, hlast⟩ => hread runId hlast

theorem configurationError_ends {exc : Option Exc} {readbackFailed : Bool}
    (hread : ∀ runId, ¬ JustRead runId h) :
    GuardEnds py settings (.error (tracingConfigurationError py settings exc readbackFailed)) h :=
  ⟨not_probeLanded hread, .inl ⟨rfl, holdsKey_diagnose⟩⟩

theorem not_justRead_of_countP (hcount : h.countP isRead = 0) : ∀ runId, ¬ JustRead runId h := by
  intro runId hlast
  obtain ⟨rest, rfl⟩ := List.head?_eq_some_iff.mp hlast
  simp [isRead] at hcount

/-- The probe is written, before anything is read. -/
theorem writeProbe_follows (htracing : settings.langsmithTracing = true)
    (hcount : h.countP isRead = 0) :
    (writeProbe settings runId).Follows (MayProbe settings)
      (fun r h' => h'.countP isRead = 0 ∧ (r = .ok () → ProbeWritten settings runId h')) h := by
  have hfailed : ∀ (e : Exc) h', h'.countP isRead = 0 →
      h'.countP isRead = 0 ∧ ((.error e : Except Exc Unit) = .ok () → ProbeWritten settings runId h') :=
    fun e h' hcount' => ⟨hcount', fun hok => by cases hok⟩
  unfold writeProbe
  refine (callClient_follows (by exact htracing)).bind (fun _ h₁ hcreate => ?_) fun e h₁ hcreate => ?_
  · obtain ⟨created, hok, rfl⟩ := hcreate
    refine (callClient_follows (by exact htracing)).bind (fun _ h₂ hupdate => ?_)
      fun e h₂ hupdate => ?_
    · obtain ⟨updated, hok', rfl⟩ := hupdate
      refine (callClient_follows (by exact htracing)).mono fun r h₃ hflush => ?_
      obtain ⟨flushed, rfl, rfl⟩ := hflush
      refine ⟨hcount, fun hok'' => ⟨?_, ?_, ?_⟩⟩
      · rw [hok]
        simp
      · rw [hok']
        simp
      · rw [← hok'']
        simp
    · obtain ⟨updated, -, rfl⟩ := hupdate
      exact hfailed e _ hcount
  · obtain ⟨created, -, rfl⟩ := hcreate
    exact hfailed e _ hcount

theorem ProbeWritten.cons (hwritten : ProbeWritten settings runId h)
    (o : Occurrence LangSmithSignature) : ProbeWritten settings runId (o :: h) :=
  ⟨List.mem_cons_of_mem _ hwritten.created, List.mem_cons_of_mem _ hwritten.updated,
    List.mem_cons_of_mem _ hwritten.flushed⟩

/-- The attempts that are left: one of them reads the run back, or none does. -/
theorem readBackProbe_follows (htracing : settings.langsmithTracing = true) {attempts : ℕ}
    {lastExc : Option Exc} (hwritten : ProbeWritten settings runId h)
    (hcount : h.countP isRead + attempts = probeReadbackAttempts)
    (hread : ∀ runId, ¬ JustRead runId h) :
    (readBackProbe py settings runId attempts lastExc).Follows (MayProbe settings)
      (GuardEnds py settings) h := by
  induction attempts generalizing h lastExc with
  | zero => exact configurationError_ends hread
  | succ attempts ih =>
    rw [readBackProbe]
    refine ⟨htracing, fun slept => ⟨⟨hwritten.cons _, ?_⟩, fun answer => ?_⟩⟩
    · show h.countP isRead < probeReadbackAttempts
      omega
    · cases answer with
      | ok u => exact .inr ⟨runId, (hwritten.cons _).cons _, rfl⟩
      | error e =>
        have hfailed : ∀ runId', ¬ JustRead runId'
            (⟨.readRun runId, Except.error e⟩ :: ⟨.sleep probeReadbackDelaySeconds, slept⟩ :: h) := by
          intro runId' hlast
          simp [JustRead] at hlast
        show Program.Follows _ _ _ (if e.isInstance .exception then _ else _)
        split
        · refine ih ((hwritten.cons _).cons _) ?_ hfailed
          rw [List.countP_cons_of_pos rfl, List.countP_cons_of_neg (by simp [isRead])]
          omega
        · rename_i hother
          exact ⟨not_probeLanded hfailed, .inr (.inl (Bool.not_eq_true _ ▸ hother))⟩

/-- A written probe, nothing of which is read yet, or an end of the guard. -/
def ProbeStands (py : Interpreter) (settings : TracingSettings) (runId : String) :
    Except Exc Unit → ProbeHistory → Prop
  | .ok (), h => h.countP isRead = 0 ∧ ProbeWritten settings runId h
  | .error e, h => GuardEnds py settings (.error e) h

theorem guardedProbe_follows (htracing : settings.langsmithTracing = true)
    (hcount : h.countP isRead = 0) :
    (tryCatch (writeProbe settings runId) fun e =>
        throw (if e.isInstance .exception then tracingConfigurationError py settings (some e) false
          else e) : LangSmithed Unit).Follows (MayProbe settings)
      (ProbeStands py settings runId) h := by
  refine (writeProbe_follows htracing hcount).tryCatch (fun u h' hdone => ⟨hdone.1, hdone.2 rfl⟩)
    fun e h' hfailed => ?_
  have hread := not_justRead_of_countP hfailed.1
  show GuardEnds py settings (.error (if e.isInstance .exception then _ else e)) h'
  split
  · exact configurationError_ends hread
  · rename_i hother
    exact ⟨not_probeLanded hread, .inr (.inl (Bool.not_eq_true _ ▸ hother))⟩

theorem enabledGuard_follows (py : Interpreter) (htracing : settings.langsmithTracing = true) :
    (assertTracingHealthy py settings).Follows (MayProbe settings) (GuardEnds py settings) [] := by
  rw [assertTracingHealthy, if_pos htracing]
  refine (callClient_follows (by exact htracing)).bind (fun _ h₁ hbuilt => ?_) fun e h₁ hbuilt => ?_
  · obtain ⟨built, hok, rfl⟩ := hbuilt
    refine ⟨htracing, fun runId => ?_⟩
    refine (guardedProbe_follows htracing rfl).bind (fun _ h₂ hstands => ?_) fun e h₂ hends => hends
    exact readBackProbe_follows htracing hstands.2 (by rw [hstands.1, Nat.zero_add])
      (not_justRead_of_countP hstands.1)
  · obtain ⟨built, hanswer, rfl⟩ := hbuilt
    have hread : ∀ runId, ¬ JustRead runId [⟨.buildClient settings.langsmithEndpoint
        settings.langsmithApiKey settings.langsmithWorkspaceId, built⟩] := by
      intro runId hlast
      simp [JustRead] at hlast
    rw [show built = Except.error e from hanswer.symm] at hread ⊢
    exact ⟨not_probeLanded hread, .inr (.inr rfl)⟩

end ReviewAgent
