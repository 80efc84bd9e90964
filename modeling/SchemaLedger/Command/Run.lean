import SchemaLedger.Command.Basic
import SchemaLedger.Session.Migration

set_option autoImplicit false

/-!
# Running commands

What a command does to files and to a database, and what it answers. Files are texts by their paths.
A command that needs a database opens one for itself and closes it at the end.
-/
namespace SchemaLedger

/-- Texts by their paths. -/
abbrev Files := List (String × String)

inductive Answer where
  | version
  | success (message : String) (details : Entries)
  | written (batch : Batch) (path : String)
  | history (records : List Applied)
  | statements (list : List String)
  | failure (error : Error)

def Answer.isFailure : Answer → Bool
  | .failure _ => true
  | _ => false

/-- What a command leaves behind. -/
structure Run (σ : Type) where
  answer : Answer
  files : Files
  server : σ
  log : List Event := []
  /-- The dialect of the database that the log is about. -/
  dialect : Dialect := .sqlite

namespace Command

variable {σ : Type}

/-! ## Files -/

def load (files : Files) (path : String) : Result (List Batch) :=
  File.batches path (Entries.get? path files)

def loadSchema (files : Files) (path : String) : Result Schema :=
  File.schema path (Entries.get? path files)

/-- Appends the migration to a model to a file of migrations, unless there is nothing to migrate. -/
def makeMigrationFile (now : Timestamp) (files : Files) (model migrations label : String) :
    Result (Answer × Files) := do
  let desired ← loadSchema files model
  let batches ← load files migrations
  let current ← liftSchema (Batch.schemaAt batches)
  match ← Batch.between now current desired label none with
  | none => .ok (.success "No changes detected" [("migrations", .text migrations)], files)
  | some batch =>
    .ok (.written batch migrations,
      Entries.put migrations (File.ofBatches (batches ++ [batch])) files)

/-- What brings a database up to date: the way to a model, or else the batches of a file. -/
def migratorOf (files : Files) (migrations : String) (model : Option String) : Result Migrator :=
  match model with
  | some model => do
    let desired ← loadSchema files model
    .ok ⟨.desired desired, "auto"⟩
  | none =>
    if (Entries.get? migrations files).isNone then .error (.migration (.noFile migrations))
    else do
      let batches ← load files migrations
      (Migrator.make none (some batches) "auto").mapError .migration

/-! ## Statements -/

/-- The statements of the chosen batches, each on the schema before it, or of their inverses on the
schema after them. -/
def renderBatches (d : Dialect) (version : Option Int) (down : Bool) :
    Schema → List Batch → Result (List (List String))
  | _, [] => .ok []
  | before, b :: rest => do
    let after ← liftSchema ((Step.applyAll before b.steps).map (·.withVersion b.version))
    let chosen := version = none ∨ version = some b.version
    let first ←
      if ¬ chosen then Except.ok []
      else if down then (b.invert.render d after).map ([·])
      else (b.render d before).map ([·])
    let others ← renderBatches d version down after rest
    .ok (first ++ others)

/-- The statements of a file of migrations; downwards the last batch comes first. -/
def statements (d : Dialect) (path : String) (version : Option Int) (down : Bool)
    (batches : List Batch) : Result (List String) := do
  let rendered ← renderBatches d version down .empty batches
  match version, rendered with
  | some v, [] => .error (.migration (.noVersion v path))
  | _, _ => .ok (if down then rendered.reverse.flatten else rendered.flatten)

/-! ## Databases -/

def configOf (p : Preferences) : Result Config :=
  let url := match p.url with
    | some url => if url = "" then defaultUrl else url
    | none => defaultUrl
  Config.ofUrl url [("echo", .bool p.echo)]

def dialectOf (p : Preferences) (chosen : Option Dialect) : Result Dialect :=
  match chosen with
  | some d => .ok d
  | none => (configOf p).map (·.dialect)

/-- How many migrations one command applies at most. -/
def migrationLimit : Nat := 10000

/-- What applied migrations are called in an answer. -/
def appliedAnswer (records : List Applied) : Answer :=
  if records.isEmpty then .success "Database is up to date" []
  else .success s!"Applied {records.length} migration(s)"
    [("applied", .list (records.map fun r => .text s!"{r.version} {r.name}"))]

def statusAnswer (s : MigrationStatus) : Answer :=
  .success s!"Database is {s.state.name}"
    [("state", .text s.state.name), ("pending", .int s.pending), ("current_version", .int s.version)]

def migrateSession (m : Migrator) : Session σ Answer := do
  return appliedAnswer (← Session.applyPending m migrationLimit).records

def statusSession (m : Migrator) : Session σ Answer := do
  return statusAnswer (← Session.status m)

def historySession : Session σ Answer := do
  return .history (← Session.history)

/-! ## Running -/

def answerOf : Result Answer → Answer
  | .ok a => a
  | .error e => .failure e

/-- Runs a session on a database of its own. -/
def inSession (server : Server σ) (p : Preferences) (now : Timestamp) (files : Files)
    (prepared : Result (Session σ Answer)) (s : σ) : Run σ :=
  match (do let x ← prepared; let config ← configOf p; Except.ok (x, config) :
      Result (Session σ Answer × Config)) with
  | .error e => { answer := .failure e, files, server := s }
  | .ok (x, config) =>
    let setting : Setting σ := { server, config, now }
    let (outcome, w) := Session.run (Session.ensuring Session.close x) setting { server := s }
    { answer := answerOf outcome, files, server := w.server, log := w.log, dialect := config.dialect }

def run (server : Server σ) (p : Preferences) (now : Timestamp) (files : Files) (c : Command)
    (s : σ) : Run σ :=
  match c with
  | .version => { answer := .version, files, server := s }
  | .makeMigration model migrations label =>
    match makeMigrationFile now files model migrations label with
    | .ok (answer, files) => { answer, files, server := s }
    | .error e => { answer := .failure e, files, server := s }
  | .sql migrations dialect number down =>
    let answer := answerOf do
      let batches ← load files migrations
      let d ← dialectOf p dialect
      (statements d migrations number down batches).map .statements
    { answer, files, server := s }
  | .migrate migrations model =>
    inSession server p now files ((migratorOf files migrations model).map migrateSession) s
  | .status migrations model =>
    inSession server p now files ((migratorOf files migrations model).map statusSession) s
  | .history => inSession server p now files (.ok historySession) s

end Command

end SchemaLedger
