import ReviewAgent.Scripts.SeedMain

/-! Runs of the seeding, each cut short anywhere: what the table holds, and what a search then finds. -/
namespace ReviewAgent

open Effects

/-- The table holds the first `n` chunks of the repository and nothing else: each with what the
embedder answered for its text, and under an id that was not given before. -/
structure Filled (files : RepoFiles) (args : SeedArgs) (before : SeedWorld) (n : ℕ)
    (w : SeedWorld) : Prop where
  chunks : w.table.rows.map StoredChunk.chunk = (files.chunks args).take n
  embedded : ∀ row ∈ w.table.rows, row.embedding.length = args.dimension ∧
    (row.content, row.embedding) ∈ w.answered
  fresh : ∀ row ∈ w.table.rows, before.table.nextId ≤ row.id
  later : before.table.nextId ≤ w.table.nextId

/-- The table is as it was, or holds the first of the repository's chunks. -/
def Stands (files : RepoFiles) (args : SeedArgs) (before w : SeedWorld) : Prop :=
  w.table = before.table ∨ ∃ n, Filled files args before n w

/-- Nobody interferes, and every step leaves a table that stands. -/
def seedContract (files : RepoFiles) (args : SeedArgs) (before : SeedWorld) : Contract SeedWorld where
  rely _ _ := False
  guarantee _ w' := Stands files args before w'

variable {files : RepoFiles} {args : SeedArgs} {before w w' : SeedWorld} {c : SeedChoice}
  {path content : String} {embedding : List ℚ} {n : ℕ}

/-! What each operation can do. -/

theorem perform_readText {parts : PathParts} {answer : Except Exc String}
    (h : seedPerform files w (.readText parts) c = some (w', answer)) :
    w' = w ∧ answer = files.text parts := by
  cases c <;> simp_all [seedPerform]

theorem perform_pythonFiles {answer : List PathParts}
    (h : seedPerform files w .pythonFiles c = some (w', answer)) : w' = w ∧ answer = files.paths := by
  cases c <;> simp_all [seedPerform]

theorem perform_applyMigrations {answer : Except Exc Unit}
    (h : seedPerform files w .applyMigrations c = some (w', answer)) : w' = w := by
  cases c <;> simp_all [seedPerform]

theorem perform_print {line : String} {answer : Unit}
    (h : seedPerform files w (.print line) c = some (w', answer)) : w' = w := by
  cases c <;> simp_all [seedPerform]

theorem perform_printError {line : String} {answer : Unit}
    (h : seedPerform files w (.printError line) c = some (w', answer)) : w' = w := by
  cases c <;> simp_all [seedPerform]

theorem perform_truncate {answer : Except Exc Unit}
    (h : seedPerform files w .truncate c = some (w', answer)) :
    w' = w.truncate ∨ w' = w ∧ ∃ e, answer = .error e := by
  cases c with
  | done => exact .inl (Prod.mk.inj (Option.some.inj h)).1.symm
  | lost e id => exact .inl (Prod.mk.inj (Option.some.inj h)).1.symm
  | failed e =>
    obtain ⟨rfl, rfl⟩ := Prod.mk.inj (Option.some.inj h)
    exact .inr ⟨rfl, e, rfl⟩
  | inserted id => cases h
  | vectors embeddings => cases h

theorem perform_embed {texts : List String} {answer : Except Exc (List (List ℚ))}
    (h : seedPerform files w (.embed texts) c = some (w', answer)) :
    w'.table = w.table ∧ (∀ pair ∈ w.answered, pair ∈ w'.answered) ∧
      ∀ embeddings, answer = .ok embeddings → ∀ pair ∈ texts.zip embeddings, pair ∈ w'.answered := by
  cases c with
  | vectors embeddings =>
    obtain ⟨rfl, rfl⟩ := Prod.mk.inj (Option.some.inj h)
    refine ⟨rfl, fun pair hpair => List.mem_append_left _ hpair, fun embeddings' hok pair hpair => ?_⟩
    obtain rfl := Except.ok.inj hok
    exact List.mem_append_right _ hpair
  | failed e =>
    obtain ⟨rfl, rfl⟩ := Prod.mk.inj (Option.some.inj h)
    exact ⟨rfl, fun pair hpair => hpair, fun embeddings hok => by cases hok⟩
  | done => cases h
  | inserted id => cases h
  | lost e id => cases h

theorem insert_eq_some {row : StoredChunk} (h : w.insert row = some w') :
    ∃ hid, w' = { w with table := w.table.insert row hid } := by
  unfold SeedWorld.insert at h
  split at h
  · rename_i hid
    exact ⟨hid, (Option.some.inj h).symm⟩
  · cases h

theorem perform_insert {answer : Except Exc ℤ}
    (h : seedPerform files w (.insert path content embedding) c = some (w', answer)) :
    (∃ id hid, w' = { w with table := w.table.insert ⟨id, path, content, embedding⟩ hid }) ∨
      w' = w ∧ ∃ e, answer = .error e := by
  cases c with
  | inserted id =>
    obtain ⟨v, hv, heq⟩ := Option.map_eq_some_iff.mp h
    obtain ⟨hid, rfl⟩ := insert_eq_some hv
    exact .inl ⟨id, hid, (Prod.mk.inj heq).1.symm⟩
  | lost e id =>
    obtain ⟨v, hv, heq⟩ := Option.map_eq_some_iff.mp h
    obtain ⟨hid, rfl⟩ := insert_eq_some hv
    exact .inl ⟨id, hid, (Prod.mk.inj heq).1.symm⟩
  | failed e =>
    obtain ⟨rfl, rfl⟩ := Prod.mk.inj (Option.some.inj h)
    exact .inr ⟨rfl, e, rfl⟩
  | done => cases h
  | vectors embeddings => cases h

/-! What each part keeps. -/

theorem stable_alone {P : SeedWorld → Prop} : Stable (seedContract files args before).rely P :=
  fun _ _ hnobody => hnobody.elim

theorem nobody_moves (v : SeedWorld) (m : Empty) (v' : SeedWorld)
    (_ : (seedMachine files).move v m = some v') : (seedContract files args before).rely v v' :=
  m.elim

/-- The table is the same, and the embedder has answered no less. -/
def Extends (w w' : SeedWorld) : Prop :=
  w'.table = w.table ∧ ∀ pair ∈ w.answered, pair ∈ w'.answered

theorem Filled.extends (hfilled : Filled files args before n w) (h : Extends w w') :
    Filled files args before n w' where
  chunks := h.1 ▸ hfilled.chunks
  embedded row hrow :=
    have hold := hfilled.embedded row (h.1 ▸ hrow)
    ⟨hold.1, h.2 _ hold.2⟩
  fresh row hrow := hfilled.fresh row (h.1 ▸ hrow)
  later := h.1 ▸ hfilled.later

theorem Stands.extends (hstands : Stands files args before w) (h : Extends w w') :
    Stands files args before w' := by
  rcases hstands with htable | ⟨n, hfilled⟩
  · exact .inl (h.1.trans htable)
  · exact .inr ⟨n, hfilled.extends h⟩

/-- An operation that leaves the table as it is. -/
theorem triple_perform (op : SeedOp) {P : SeedWorld → Prop}
    {A : SeedSignature.Answer op → SeedWorld → Prop} (hstands : ∀ w, P w → Stands files args before w)
    (hstep : ∀ w c w' answer, P w → seedPerform files w op c = some (w', answer) →
      Extends w w' ∧ A answer w') :
    Triple (seedMachine files) 0 (seedContract files args before) P (SeedArgs.issueSeed op)
      (ByResult A fun _ _ => False) := by
  refine Triple.perform stable_alone (fun w c w' answer hw hperform => ?_) fun _ => stable_alone
  obtain ⟨hextends, hanswer⟩ := hstep w c w' answer hw hperform
  exact ⟨(hstands w hw).extends hextends, hanswer⟩

theorem extends_refl : Extends w w := ⟨rfl, fun _ hpair => hpair⟩

theorem triple_printError {P : SeedWorld → Prop} (hstands : ∀ w, P w → Stands files args before w)
    {line : String} : Triple (seedMachine files) 0 (seedContract files args before) P
      (SeedArgs.issueSeed (.printError line)) (ByResult (fun _ => P) fun _ _ => False) := by
  refine triple_perform _ hstands fun w c w' answer hw hperform => ?_
  obtain rfl := perform_printError hperform
  exact ⟨extends_refl, hw⟩

/-- Reading the files gives the chunks that they have. -/
theorem gather_chunks (paths : List PathParts) :
    Triple (seedMachine files) 0 (seedContract files args before) (fun w => w.table = before.table)
      (args.gather paths) (ByResult (fun chunks w => w.table = before.table ∧
        chunks = paths.flatMap (files.fileChunks args)) fun _ w => w.table = before.table) := by
  have huntouched : ∀ w, w.table = before.table → Stands files args before w := fun _ => .inl
  induction paths with
  | nil => exact Triple.pure stable_alone fun w hw => ⟨hw, rfl⟩
  | cons path paths ih =>
    rw [SeedArgs.gather]
    refine Triple.bind (R := ByResult (fun text w => w.table = before.table ∧
      text = files.text path) fun _ _ => False) (triple_perform _ huntouched
        fun w c w' answer hw hperform => ?_) (fun text => ?_) fun e w hfalse => hfalse.elim
    · obtain ⟨rfl, hanswer⟩ := perform_readText hperform
      exact ⟨extends_refl, hw, hanswer⟩
    · cases text with
      | error e =>
        show Triple _ _ _ _ (if SeedArgs.skips e then _ else _) _
        split
        · refine Triple.bind (triple_printError fun w hw => huntouched w hw.1) (fun _ => ?_)
            fun e w hfalse => hfalse.elim
          intro w hw
          refine (ih w hw.1).mono fun r w hr => ?_
          cases r with
          | error e' => exact hr
          | ok chunks =>
            refine ⟨hr.1, ?_⟩
            rw [hr.2, List.flatMap_cons, RepoFiles.fileChunks, ← hw.2]
            rfl
        · exact Triple.throw stable_alone fun w hw => hw.1
      | ok source =>
        cases hchunks : args.chunksOf path source with
        | error e =>
          show Triple _ _ _ _ (Program.ofExcept (args.chunksOf path source) >>= _) _
          rw [hchunks]
          exact Triple.throw stable_alone fun w hw => hw.1
        | ok chunks =>
          show Triple _ _ _ _ (Program.ofExcept (args.chunksOf path source) >>= _) _
          rw [hchunks]
          intro w hw
          have hfile : files.fileChunks args path = chunks := by
            rw [RepoFiles.fileChunks, ← hw.2]
            show ((args.chunksOf path source).toOption).getD [] = chunks
            rw [hchunks]
            rfl
          have hrest : Triple (seedMachine files) 0 (seedContract files args before)
              (fun w => w.table = before.table)
              (args.gather paths >>= fun others => pure (chunks ++ others))
              (ByResult (fun gathered w => w.table = before.table ∧
                gathered = (path :: paths).flatMap (files.fileChunks args))
                  fun _ w => w.table = before.table) :=
            Triple.bind ih (fun others => Triple.pure stable_alone fun w hw =>
              ⟨hw.1, by rw [List.flatMap_cons, hfile, hw.2]⟩) fun e w hw => hw
          exact hrest w hw.1

/-- The next chunk, inserted with what the embedder answered for it. -/
theorem Filled.insert (hfilled : Filled files args before n w)
    (hnext : (files.chunks args)[n]? = some (path, content))
    (hlength : embedding.length = args.dimension) (hanswered : (content, embedding) ∈ w.answered)
    {id : ℤ} (hid : w.table.nextId ≤ id) :
    Filled files args before (n + 1)
      { w with table := w.table.insert ⟨id, path, content, embedding⟩ hid } where
  chunks := by
    show (w.table.rows ++ [_]).map StoredChunk.chunk = _
    rw [List.map_append, hfilled.chunks, List.take_add_one, hnext]
    rfl
  embedded := by
    intro row hrow
    rcases List.mem_append.mp hrow with hrow | hrow
    · exact hfilled.embedded row hrow
    · rw [List.mem_singleton.mp hrow]
      exact ⟨hlength, hanswered⟩
  fresh := by
    intro row hrow
    rcases List.mem_append.mp hrow with hrow | hrow
    · exact hfilled.fresh row hrow
    · rw [List.mem_singleton.mp hrow]
      exact hfilled.later.trans hid
  later := (hfilled.later.trans hid).trans (Int.le_add_one le_rfl)

theorem filled_truncate (htable : w.table = before.table) :
    Filled files args before 0 w.truncate where
  chunks := rfl
  embedded := fun _ hrow => absurd hrow List.not_mem_nil
  fresh := fun _ hrow => absurd hrow List.not_mem_nil
  later := by
    rw [← htable]
    exact le_rfl

/-- The first `n` chunks are stored, and the embedder has answered these texts with these vectors. -/
def FilledKnowing (files : RepoFiles) (args : SeedArgs) (before : SeedWorld) (n : ℕ)
    (known : List (String × List ℚ)) (w : SeedWorld) : Prop :=
  Filled files args before n w ∧ ∀ pair ∈ known, pair ∈ w.answered

theorem insertEmbeddedChunk_fills {known : List (String × List ℚ)}
    (hnext : (files.chunks args)[n]? = some (path, content)) (hknown : (content, embedding) ∈ known) :
    Triple (seedMachine files) 0 (seedContract files args before)
      (FilledKnowing files args before n known) (args.insertEmbeddedChunk path content embedding)
      (ByResult (fun _ => FilledKnowing files args before (n + 1) known)
        fun _ w => ∃ m, Filled files args before m w) := by
  unfold SeedArgs.insertEmbeddedChunk
  split
  · exact Triple.throw stable_alone fun w hw => ⟨n, hw.1⟩
  · rename_i hlength
    have hlength : embedding.length = args.dimension := not_not.mp hlength
    refine Triple.step (A := ByResult (fun _ => FilledKnowing files args before (n + 1) known)
      fun _ w => ∃ m, Filled files args before m w) stable_alone
        (fun w c w' answer hw hperform => ?_) fun answer => ?_
    · rcases perform_insert hperform with ⟨id, hid, rfl⟩ | ⟨rfl, e, rfl⟩
      · have hfilled := hw.1.insert hnext hlength (hw.2 _ hknown) hid
        refine ⟨.inr ⟨n + 1, hfilled⟩, ?_⟩
        cases answer with
        | ok id' => exact ⟨hfilled, hw.2⟩
        | error e => exact ⟨n + 1, hfilled⟩
      · exact ⟨.inr ⟨n, hw.1⟩, n, hw.1⟩
    · cases answer with
      | ok id => exact Triple.done stable_alone fun w hw => hw
      | error e => exact Triple.done stable_alone fun w hw => hw

/-- The rest of a batch, inserted with its vectors. -/
theorem insertBatch_fills (before : SeedWorld) {batch later : List (String × String)}
    (embeddings : List (List ℚ)) (hnext : (files.chunks args).drop n = batch ++ later) :
    Triple (seedMachine files) 0 (seedContract files args before)
      (FilledKnowing files args before n ((batch.map Prod.snd).zip embeddings))
      (args.insertBatch batch embeddings)
      (ByResult (fun _ w => Filled files args before (n + batch.length) w)
        fun _ w => ∃ m, Filled files args before m w) := by
  induction batch generalizing n embeddings with
  | nil =>
    cases embeddings with
    | nil => exact Triple.pure stable_alone fun w hw => hw.1
    | cons embedding embeddings => exact Triple.throw stable_alone fun w hw => ⟨n, hw.1⟩
  | cons chunk batch ih =>
    obtain ⟨path, content⟩ := chunk
    cases embeddings with
    | nil => exact Triple.throw stable_alone fun w hw => ⟨n, hw.1⟩
    | cons embedding embeddings =>
      have hchunk : (files.chunks args)[n]? = some (path, content) := by
        rw [← List.head?_drop, hnext]
        rfl
      have hrest : (files.chunks args).drop (n + 1) = batch ++ later := by
        rw [← List.drop_drop, hnext]
        rfl
      have hlength : n + 1 + batch.length = n + ((path, content) :: batch).length := by
        rw [List.length_cons]
        omega
      refine Triple.bind (insertEmbeddedChunk_fills hchunk List.mem_cons_self) (fun id => ?_)
        fun e w hw => hw
      rw [← hlength]
      exact (ih embeddings hrest).pre fun w hw =>
        ⟨hw.1, fun pair hpair => hw.2 _ (List.mem_cons_of_mem _ hpair)⟩

/-- The rest of the batches. -/
theorem insertBatches_fills (before : SeedWorld) {batches : List (List (String × String))}
    {inserted : ℕ} (hn : n ≤ (files.chunks args).length)
    (hnext : (files.chunks args).drop n = batches.flatten) :
    Triple (seedMachine files) 0 (seedContract files args before) (Filled files args before n)
      (args.insertBatches inserted batches)
      (ByResult (fun _ w => Filled files args before (files.chunks args).length w)
        fun _ w => ∃ m, Filled files args before m w) := by
  induction batches generalizing n inserted with
  | nil =>
    have hall : n = (files.chunks args).length :=
      le_antisymm hn (List.drop_eq_nil_iff.mp (hnext.trans List.flatten_nil))
    exact Triple.pure stable_alone fun w hw => hall ▸ hw
  | cons batch batches ih =>
    have hrest : (files.chunks args).drop (n + batch.length) = batches.flatten := by
      rw [← List.drop_drop, hnext, List.flatten_cons, List.drop_left]
    have hlength : n + batch.length ≤ (files.chunks args).length := by
      have hsum := congrArg List.length hnext
      rw [List.length_drop, List.flatten_cons, List.length_append] at hsum
      omega
    refine Triple.bind (triple_perform (.embed (batch.map Prod.snd))
      (A := fun (answer : Except Exc (List (List ℚ))) w => Filled files args before n w ∧
        ∀ embeddings, answer = .ok embeddings →
          ∀ pair ∈ (batch.map Prod.snd).zip embeddings, pair ∈ w.answered)
      (fun w hw => .inr ⟨n, hw⟩) fun w c w' answer hw hperform => ?_) (fun answer => ?_)
        fun e w hfalse => hfalse.elim
    · obtain ⟨htable, hkept, hanswered⟩ := perform_embed hperform
      exact ⟨⟨htable, hkept⟩, hw.extends ⟨htable, hkept⟩, hanswered⟩
    · cases answer with
      | error e => exact Triple.throw stable_alone fun w hw => ⟨n, hw.1⟩
      | ok embeddings =>
        have hbatch := insertBatch_fills before embeddings (hnext.trans List.flatten_cons)
        exact (Triple.bind hbatch (fun _ => ih hlength hrest) fun e w hw => hw).pre
          fun w hw => ⟨hw.1, hw.2 embeddings rfl⟩

/-- How the seeding ends: with nothing to store, where it has not touched the table; with all the
chunks stored; or with an exception. -/
def SeedEnds (files : RepoFiles) (args : SeedArgs) (before : SeedWorld) :
    Except Exc ℕ → SeedWorld → Prop
  | .ok code, w =>
    (code = 1 ∧ files.chunks args = [] ∧ w.table = before.table) ∨
      (code = 0 ∧ files.chunks args ≠ [] ∧
        Filled files args before (files.chunks args).length w)
  | .error _, w => Stands files args before w

/-- Once there is something to store, the table is emptied and filled. -/
theorem refill_ends (hsome : files.chunks args ≠ []) :
    Triple (seedMachine files) 0 (seedContract files args before) (fun w => w.table = before.table)
      (do
        let truncated ← SeedArgs.issueSeed .truncate
        Program.ofExcept truncated
        let inserted ← args.insertBatches 0
          (batchesOf embedBatchSize (files.chunks args).length (files.chunks args))
        let _ ← SeedArgs.issueSeed (.print
          (s!"Seeded {inserted} code chunks from {absoluteText args.repoRoot} into code_chunks " ++
            s!"(embedder_backend={args.embedderBackend})."))
        pure 0)
      (SeedEnds files args before) := by
  refine Triple.bind (R := ByResult (fun (answer : Except Exc Unit) w =>
    Stands files args before w ∧ (answer = .ok () → Filled files args before 0 w)) fun _ _ => False)
      (Triple.perform stable_alone (fun w c w' answer hw hperform => ?_) fun _ => stable_alone)
        (fun truncated => ?_) fun e w hfalse => hfalse.elim
  · rcases perform_truncate hperform with rfl | ⟨rfl, e, rfl⟩
    · have hfilled : Filled files args before 0 w.truncate := filled_truncate hw
      exact ⟨.inr ⟨0, hfilled⟩, .inr ⟨0, hfilled⟩, fun _ => hfilled⟩
    · exact ⟨.inl hw, .inl hw, fun hok => by cases hok⟩
  cases truncated with
  | error e => exact Triple.throw stable_alone fun w hw => hw.1
  | ok u =>
    have hall : (files.chunks args).drop 0 =
        (batchesOf embedBatchSize (files.chunks args).length (files.chunks args)).flatten :=
      (flatten_batchesOf embedBatchSize_pos le_rfl).symm
    refine (Triple.bind (insertBatches_fills before (Nat.zero_le _) hall)
      (fun inserted => ?_) fun e w hw => .inr hw).pre fun w hw => hw.2 rfl
    refine Triple.bind (triple_perform _ (A := fun _ w =>
      Filled files args before (files.chunks args).length w) (fun w hw => .inr ⟨_, hw⟩)
        fun w c w' answer hw hperform => ?_) (fun _ => Triple.pure stable_alone fun w hw =>
          .inr ⟨rfl, hsome, hw⟩) fun e w hfalse => hfalse.elim
    obtain rfl := perform_print hperform
    exact ⟨extends_refl, hw⟩

theorem seedCodeChunks_ends (files : RepoFiles) (args : SeedArgs) (before : SeedWorld) :
    Triple (seedMachine files) 0 (seedContract files args before) (fun w => w.table = before.table)
      args.seedCodeChunks (SeedEnds files args before) := by
  have huntouched : ∀ w, w.table = before.table → Stands files args before w := fun _ => .inl
  unfold SeedArgs.seedCodeChunks
  refine Triple.bind (triple_perform .applyMigrations (A := fun _ w => w.table = before.table)
    huntouched fun w c w' answer hw hperform => ?_) (fun migrated => ?_) fun e w hfalse => hfalse.elim
  · obtain rfl := perform_applyMigrations hperform
    exact ⟨extends_refl, hw⟩
  cases migrated with
  | error e => exact Triple.throw stable_alone huntouched
  | ok u =>
    show Triple _ _ _ _ (SeedArgs.issueSeed .pythonFiles >>= _) _
    refine Triple.bind (triple_perform .pythonFiles
      (A := fun (found : List PathParts) w => w.table = before.table ∧ found = files.paths)
      huntouched fun w c w' answer hw hperform => ?_) (fun found => ?_) fun e w hfalse => hfalse.elim
    · obtain ⟨rfl, hfound⟩ := perform_pythonFiles hperform
      exact ⟨extends_refl, hw, hfound⟩
    rintro w ⟨hw, rfl⟩
    refine Triple.bind (gather_chunks _) (fun gathered => ?_) (fun e w hw => huntouched w hw) w hw
    rintro w ⟨hw, rfl⟩
    show Safe _ _ _ _ (if files.chunks args = [] then _ else _) w
    by_cases hnone : files.chunks args = []
    · rw [if_pos hnone]
      exact Triple.bind (triple_printError huntouched) (fun _ => Triple.pure stable_alone
        fun w hw => .inl ⟨rfl, hnone, hw⟩) (fun e w hfalse => hfalse.elim) w hw
    · rw [if_neg hnone]
      exact refill_ends hnone w hw

/-- A repository with one file, seeded over an older table. -/
def SeedArgs.sample : SeedArgs := ⟨["srv", "repo"], none, 1, "fixture", fun _ => .ok (some [])⟩

def RepoFiles.sample : RepoFiles := ⟨[["venv", "b.py"], ["a.py"]], fun _ => .ok "x = 1\n"⟩

theorem given_older : ∀ row ∈ [(⟨1, "old.py", "old", [0]⟩ : StoredChunk)], row.id < 2 := by simp

def CodeChunks.older : CodeChunks where
  rows := [⟨1, "old.py", "old", [0]⟩]
  nextId := 2
  increasing := List.pairwise_singleton _ _
  given := given_older

def SeedWorld.sample : SeedWorld := ⟨.older, []⟩

def sampleSeeding : List (Machine.Event SeedChoice Empty) :=
  [.act .done, .act .done, .act .done, .act .done, .act (.vectors [[1]]), .act (.inserted 2),
    .act .done]

theorem sample_seeds : (seedMachine .sample).returns 0 .sample SeedArgs.sample.seedCodeChunks
    sampleSeeding (fun code w => code == 0 && w.table.rows == [⟨2, "a.py", "x = 1", [1]⟩]) = true := by
  decide +kernel

end ReviewAgent
