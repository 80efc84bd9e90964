import SchemaLedger.Session.Pool

set_option autoImplicit false

/-!
# Transactions

What is done in a transaction is kept if it succeeds, and undone if it fails.
-/
namespace SchemaLedger.Session

variable {σ α : Type}

/-- Begins a transaction. PostgreSQL does so by itself at the first statement. -/
def begin (c : Nat) (immediate : Bool := false) : Session σ Unit := do
  match ← dialect with
  | .sqlite => discard (send c (.begin immediate))
  | .postgresql => pure ()

def beginText (immediate : Bool) : String := (Request.prepare .sqlite (.begin immediate)).text

/-- Keeps the changes of the open transaction. If the database refuses, the transaction stays open
and ends when the connection is returned. -/
def commit (c : Nat) : Session σ Unit := do
  if ← isBusy c then
    let server := (← read).server
    record .commit
    let outcome ← ask server.commit
    if outcome.toBool then setBusy c false
    orDriver outcome

/-- Runs `body` between the beginning and the end of a transaction. -/
def inside (c : Nat) (immediate : Bool) (body : Session σ α) : Session σ α := do
  classifying (some (beginText immediate)) (begin c immediate)
  match ← attempt body with
  | .ok a => do
    classifying none (commit c)
    pure a
  | .error e => do
    rollback c
    throw e

/-- A transaction of its own. -/
def transaction (body : Nat → Session σ α) : Session σ α :=
  withConnection fun c => inside c false (body c)

/-- Joins an open transaction, or runs in one of its own. -/
def within (joined : Option Nat) (body : Nat → Session σ α) : Session σ α :=
  match joined with
  | some c => body c
  | none => transaction body

/-- Reads without keeping anything. -/
def reading (body : Nat → Session σ α) : Session σ α :=
  withConnection fun c => do
    classifying (some (beginText false)) (begin c)
    body c

/-- A transaction of a migration. SQLite cannot rebuild a table while it enforces foreign keys, and
the switch works outside transactions only; PostgreSQL takes a lock. -/
def migrating (body : Nat → Session σ α) : Session σ α :=
  withConnection fun c => do
    match ← dialect with
    | .sqlite => do
      let _ ← send c (.foreignKeys false)
      ensuring (discard (send c (.foreignKeys true))) (inside c true (body c))
    | .postgresql =>
      inside c false do
        Dialect.postgresql.lockStatements.forM fun sql => discard (execute c (.lock sql))
        body c

/-! ## Open transactions -/

/-- Opens a transaction that later operations can join. -/
def openTransaction : Session σ Nat := do
  let c ← checkout
  match ← attempt (classifying (some (beginText false)) (begin c)) with
  | .ok () => pure c
  | .error e => do
    checkin c
    throw e

def commitTransaction (c : Nat) : Session σ Unit :=
  ensuring (checkin c) (classifying none (commit c))

def abortTransaction (c : Nat) : Session σ Unit := checkin c

/-! ## Statements -/

/-- Whether the database answers. A caller that waits begins no transaction to keep. -/
def probe : Session σ Bool := do
  match (← read).calling with
  | .blocking => reading fun c => discard (execute c .probe)
  | .suspending =>
    withConnection fun c => do
      begin c
      match ← attempt (execute c .probe) with
      | .ok _ => commit c
      | .error e => do
        rollback c
        throw e
  pure true

/-- Runs the statements of a step on a database with schema `s`. -/
def runStep (c : Nat) (s : Schema) (step : Step) : Session σ (List String) := do
  let statements ← ofResult (Sql.Ddl.render (← dialect) s step)
  statements.forM fun sql => discard (execute c (.ddl sql))
  pure statements

def runText (c : Nat) (sql : String) : Session σ Unit := discard (execute c (.text sql))

end SchemaLedger.Session
