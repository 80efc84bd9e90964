import SchemaLedger.Session.Transaction

set_option autoImplicit false

/-!
# Migrations of a database

Where a database stands, and what brings it up to date. Every pending batch is applied in a locked
transaction of its own, with a fresh look at the history; the history gets its row last, so that a
batch and its record are kept or undone together.
-/
namespace SchemaLedger

inductive MigrationState where
  | uninitialized
  | behind
  | upToDate
  deriving DecidableEq

def MigrationState.name : MigrationState → String
  | .uninitialized => "uninitialized"
  | .behind => "behind"
  | .upToDate => "up_to_date"

structure MigrationStatus where
  state : MigrationState
  pending : Nat
  version : Int

namespace MigrationStatus

/-- The status of a database by its history. -/
def of (initialized : Bool) (records : List Applied) (pending : List Batch) : MigrationStatus :=
  let state :=
    if !initialized then .uninitialized else if pending.isEmpty then .upToDate else .behind
  ⟨state, pending.length, (records.getLast?.map (·.version)).getD 0⟩

def toValue (s : MigrationStatus) : Value :=
  .object [("state", .text s.state.name), ("pending", .int s.pending),
    ("current_version", .int s.version)]

end MigrationStatus

namespace Session

variable {σ α : Type}

/-! ## History -/

/-- Whether the database has a history table. SQLite is asked for a temporary one, too. -/
def hasHistory (c : Nat) : Session σ Bool := do
  match ← dialect with
  | .sqlite => do
    let main ← execute c (.historyColumns "main")
    if main.rows.isEmpty then
      let temp ← execute c (.historyColumns "temp")
      pure !temp.rows.isEmpty
    else pure true
  | .postgresql => do
    let found ← execute c .historyTable
    pure !found.rows.isEmpty

/-- The recorded batches; none if there is no table. -/
def readHistory (c : Nat) : Session σ (List Applied) := do
  if ← hasHistory c then
    let d ← dialect
    let reply ← execute c (.select HistoryTable.select)
    ofResult (reply.rows.mapM (HistoryTable.decode d))
  else pure []

def createHistory (c : Nat) : Session σ Unit := do
  if !(← hasHistory c) then discard (execute c .createHistory)

def pending (m : Migrator) (records : List Applied) : Session σ (List Batch) := do
  ofResult (m.pending (← read).now records)

def history : Session σ (List Applied) := reading readHistory

/-- The schema that the database is in. -/
def currentSchema : Session σ Schema := do
  ofResult (liftSchema (Applied.schemaAt (← history)))

def statusOn (m : Migrator) (c : Nat) : Session σ MigrationStatus := do
  let initialized ← hasHistory c
  let records ← readHistory c
  return .of initialized records (← pending m records)

def status (m : Migrator) : Session σ MigrationStatus := reading (statusOn m)

/-! ## Application -/

/-- The failure of one step of a batch as the failure of the batch. -/
def failing (version : Int) (step : Nat) (x : Session σ α) : Session σ α :=
  tryCatch x fun e => throw (if e.failsStep then .apply version step e else e)

/-- Runs the steps of a batch in order, the first of them with number `n`. -/
def runSteps (c : Nat) (version : Int) : Nat → Schema → List Step → Session σ Unit
  | _, _, [] => pure ()
  | n, s, step :: rest => do
    let after ← failing version n do
      let _ ← runStep c s step
      ofResult (liftSchema (step.apply s))
    runSteps c version (n + 1) after rest

/-- SQLite is asked for the references that the batch leaves dangling. -/
def checkIntegrity (c : Nat) : Session σ Unit := do
  match ← dialect with
  | .sqlite => do
    let reply ← execute c .integrity
    if !reply.rows.isEmpty then throw (.backend (.dangling .sqlite reply.rows))
  | .postgresql => pure ()

/-- Runs a batch on a database with schema `s`, and records it. -/
def applyBatch (c : Nat) (s : Schema) (b : Batch) : Session σ Applied := do
  runSteps c b.version 0 s b.steps
  failing b.version b.steps.length (checkIntegrity c)
  let record : Applied := ⟨b.version, b.name, b.steps, (← read).now⟩
  let _ ← execute c (.insert (HistoryTable.insert record))
  pure record

/-- Applies the first pending batch, if there is one. -/
def applyNext (m : Migrator) (c : Nat) : Session σ (Option Applied) := do
  createHistory c
  let records ← readHistory c
  match ← pending m records with
  | [] => pure none
  | b :: _ => do
    let s ← ofResult (liftSchema (Applied.schemaAt records))
    return some (← applyBatch c s b)

/-- The batches that a run applied, and whether it ended because none was pending. -/
structure Applications where
  records : List Applied
  complete : Bool

/-- Applies batches until none is pending, in `limit` transactions at most. -/
def applyRounds (m : Migrator) : Nat → Session σ Applications
  | 0 => pure ⟨[], false⟩
  | limit + 1 => do
    match ← migrating (applyNext m) with
    | none => pure ⟨[], true⟩
    | some record => do
      let rest ← applyRounds m limit
      pure { rest with records := record :: rest.records }

/-- Brings the database up to date. -/
def applyPending (m : Migrator) (limit : Nat) : Session σ Applications := do
  let status ← status m
  if status.state = .upToDate then pure ⟨[], true⟩ else applyRounds m limit

end Session

end SchemaLedger
