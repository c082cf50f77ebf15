import Mathlib.Data.List.Lex
import Mathlib.Data.List.Sort
import Mathlib.Data.String.Basic
import ReviewAgent.Effects.Restarts
import ReviewAgent.Memory.CodeChunks
import ReviewAgent.Scripts.SeedCodeChunks

/-! Seeding: the table of code chunks, emptied and filled with the chunks of a repository. -/
namespace ReviewAgent

open Effects

/-- A path, by its parts below the root of the file system or below the repository. -/
abbrev PathParts : Type := List String

/-- The arguments and settings of the script, and what `ast.parse` makes of a source: its nodes, or
`none` for a syntax error. -/
structure SeedArgs where
  repoRoot : PathParts
  limit : Option ℤ
  dimension : ℕ
  embedderBackend : String
  parse : String → Except Exc (Option (List TopNode))

/-- What the script issues. -/
inductive SeedOp where
  | applyMigrations
  | pythonFiles
  | readText (path : PathParts)
  | truncate
  | embed (texts : List String)
  | insert (path content : String) (embedding : List ℚ)
  | print (line : String)
  | printError (line : String)

abbrev SeedSignature : Signature where
  Op := SeedOp
  Answer
    | .pythonFiles => List PathParts
    | .readText _ => Except Exc String
    | .embed _ => Except Exc (List (List ℚ))
    | .insert .. => Except Exc ℤ
    | .applyMigrations | .truncate => Except Exc Unit
    | .print _ | .printError _ => Unit

abbrev Seeding (α : Type) : Type := Program SeedSignature Exc α

def excludedDirNames : List String :=
  [".git", ".venv", "venv", "__pycache__", ".mypy_cache", ".pytest_cache", ".ruff_cache",
    ".import_linter_cache", "node_modules", ".genesis"]

def embedBatchSize : ℕ := 64

theorem embedBatchSize_pos : 0 < embedBatchSize := by decide

/-- `str` of a path below the repository. -/
def relativeText (path : PathParts) : String := "/".intercalate path

/-- `str` of a path from the root of the file system. -/
def absoluteText (path : PathParts) : String := s!"/{relativeText path}"

/-- `chunks[start : start + size]` for every start: the batches that are embedded at once. -/
def batchesOf {α : Type} (size : ℕ) : ℕ → List α → List (List α)
  | 0, _ => []
  | _ + 1, [] => []
  | fuel + 1, item :: items =>
    (item :: items).take size :: batchesOf size fuel ((item :: items).drop size)

theorem flatten_batchesOf {α : Type} {size fuel : ℕ} {items : List α} (hsize : 0 < size)
    (hfuel : items.length ≤ fuel) : (batchesOf size fuel items).flatten = items := by
  induction fuel generalizing items with
  | zero =>
    obtain rfl := List.length_eq_zero_iff.mp (Nat.le_zero.mp hfuel)
    rfl
  | succ fuel ih =>
    cases items with
    | nil => rfl
    | cons item items =>
      have hrest : ((item :: items).drop size).length ≤ fuel := by
        rw [List.length_drop]
        omega
      rw [batchesOf, List.flatten_cons, ih hrest, List.take_append_drop]

namespace SeedArgs

variable (args : SeedArgs)

/-- A part of the whole path, the repository's own included, is an excluded name. -/
def excluded (path : PathParts) : Bool :=
  (args.repoRoot ++ path).any fun part => excludedDirNames.contains part

/-- `_iter_python_files`, of the paths that `rglob` finds below the repository. -/
def iterPythonFiles (found : List PathParts) : List PathParts :=
  (found.filter fun path => !args.excluded path).insertionSort (· ≤ ·)

/-- The chunks of one source, each with the path of its file. -/
def chunksOf (path : PathParts) (source : String) : Except Exc (List (String × String)) := do
  let tree ← args.parse source
  let chunks ← chunkPythonFile id tree source.toList
  pure (chunks.map fun chunk => (relativeText path, String.ofList chunk))

/-- `chunks[:limit]`, if there is a limit. -/
def limited (chunks : List (String × String)) : List (String × String) :=
  match args.limit with
  | none => chunks
  | some limit => sliceTo chunks limit

/-- A file that cannot be read is skipped. -/
def skips (e : Exc) : Bool := e.isInstanceOfAny [unicodeDecodeError, .osError]

def issueSeed (op : SeedOp) : Seeding (SeedSignature.Answer op) :=
  Program.perform (S := SeedSignature) op

/-- The loop over the files. -/
def gather : List PathParts → Seeding (List (String × String))
  | [] => pure []
  | path :: paths => do
    let text ← issueSeed (.readText path)
    match text with
    | .error e =>
      if skips e then do
        let _ ← issueSeed
          (.printError s!"skipping {absoluteText (args.repoRoot ++ path)}: {e.message}")
        gather paths
      else throw e
    | .ok source => do
      let chunks ← Program.ofExcept (args.chunksOf path source)
      let others ← gather paths
      pure (chunks ++ others)

def embeddingDimensionError (length : ℕ) : Exc :=
  .plain (.other "EmbeddingDimensionError" .exception)
    (s!"embedding has {length} dimension(s), expected " ++
      s!"{args.dimension} (the configured embedder's " ++
      "dimension) -- code_chunks.embedding cannot store a vector of the wrong length.")

/-- `insert_embedded_chunk`. -/
def insertEmbeddedChunk (path content : String) (embedding : List ℚ) : Seeding ℤ :=
  if embedding.length ≠ args.dimension then throw (args.embeddingDimensionError embedding.length)
  else do
    let answer ← issueSeed (.insert path content embedding)
    Program.ofExcept answer

/-- The loop over a batch and its vectors: `zip(strict=True)` complains where the shorter ends. -/
def insertBatch : List (String × String) → List (List ℚ) → Seeding Unit
  | [], [] => pure ()
  | [], _ :: _ => throw (.plain .valueError "zip() argument 2 is longer than argument 1")
  | _ :: _, [] => throw (.plain .valueError "zip() argument 2 is shorter than argument 1")
  | (path, content) :: batch, embedding :: embeddings => do
    let _ ← args.insertEmbeddedChunk path content embedding
    insertBatch batch embeddings

/-- The loop over the batches, with the rows it has inserted. -/
def insertBatches : ℕ → List (List (String × String)) → Seeding ℕ
  | inserted, [] => pure inserted
  | inserted, batch :: batches => do
    let answer ← issueSeed (.embed (batch.map Prod.snd))
    let embeddings ← Program.ofExcept answer
    args.insertBatch batch embeddings
    insertBatches (inserted + batch.length) batches

/-- `main`, which returns the exit code. -/
def seedCodeChunks : Seeding ℕ := do
  let migrated ← issueSeed .applyMigrations
  Program.ofExcept migrated
  let found ← issueSeed .pythonFiles
  let gathered ← args.gather (args.iterPythonFiles found)
  let chunks := args.limited gathered
  if chunks = [] then do
    let _ ← issueSeed
      (.printError s!"No Python source chunks found under {absoluteText args.repoRoot}")
    pure 1
  else do
    let truncated ← issueSeed .truncate
    Program.ofExcept truncated
    let inserted ← args.insertBatches 0 (batchesOf embedBatchSize chunks.length chunks)
    let _ ← issueSeed (.print
      (s!"Seeded {inserted} code chunks from {absoluteText args.repoRoot} into code_chunks " ++
        s!"(embedder_backend={args.embedderBackend})."))
    pure 0

end SeedArgs

/-! The files and the database. -/

/-- The files below the repository, and what reading each of them gives. -/
structure RepoFiles where
  paths : List PathParts
  text : PathParts → Except Exc String

/-- The table, and what the embedder has answered for which texts. -/
structure SeedWorld where
  table : CodeChunks
  answered : List (String × List ℚ)

/-- What becomes of an operation. `lost` is a statement that took effect and was reported as an
error; an inserted row has the id that the sequence gave it. -/
inductive SeedChoice where
  | done
  | vectors (embeddings : List (List ℚ))
  | inserted (id : ℤ)
  | failed (e : Exc)
  | lost (e : Exc) (id : ℤ)

/-- The row, inserted under an id that the sequence may give. -/
def SeedWorld.insert (w : SeedWorld) (row : StoredChunk) : Option SeedWorld :=
  if h : w.table.nextId ≤ row.id then some { w with table := w.table.insert row h } else none

def SeedWorld.truncate (w : SeedWorld) : SeedWorld := { w with table := w.table.truncate }

/-- How an operation ends in a world of these files. Nobody else changes files or table. -/
def seedPerform (files : RepoFiles) (w : SeedWorld) :
    (op : SeedOp) → SeedChoice → Option (SeedWorld × SeedSignature.Answer op)
  | .applyMigrations, .done => some (w, .ok ())
  | .applyMigrations, .failed e => some (w, .error e)
  | .pythonFiles, .done => some (w, files.paths)
  | .readText path, .done => some (w, files.text path)
  | .truncate, .done => some (w.truncate, .ok ())
  | .truncate, .failed e => some (w, .error e)
  | .truncate, .lost e _ => some (w.truncate, .error e)
  | .embed texts, .vectors embeddings =>
    some ({ w with answered := w.answered ++ texts.zip embeddings }, .ok embeddings)
  | .embed _, .failed e => some (w, .error e)
  | .insert path content embedding, .inserted id =>
    (w.insert ⟨id, path, content, embedding⟩).map fun w' => (w', .ok id)
  | .insert .., .failed e => some (w, .error e)
  | .insert path content embedding, .lost e id =>
    (w.insert ⟨id, path, content, embedding⟩).map fun w' => (w', .error e)
  | .print _, .done | .printError _, .done => some (w, ())
  | _, _ => none

def seedMachine (files : RepoFiles) : Machine SeedSignature SeedWorld SeedChoice Empty where
  perform _ w op choice := seedPerform files w op choice
  move _ m := m.elim

/-- The chunks of a file as it stands, if it can be read and taken apart. -/
def RepoFiles.fileChunks (files : RepoFiles) (args : SeedArgs) (path : PathParts) :
    List (String × String) :=
  ((files.text path >>= args.chunksOf path).toOption).getD []

/-- The chunks that the repository has, in the order of its files. -/
def RepoFiles.chunks (files : RepoFiles) (args : SeedArgs) : List (String × String) :=
  args.limited ((args.iterPythonFiles files.paths).flatMap (files.fileChunks args))

end ReviewAgent
