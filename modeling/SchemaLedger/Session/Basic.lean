import SchemaLedger.Connection.Config
import SchemaLedger.Record.Handle
import SchemaLedger.Session.Request

set_option autoImplicit false

/-!
# Sessions

A run of operations on one database. The database itself is any machine that takes requests and
replies to them; a session keeps its connections, the record handles that were given out, and a log
of all that happened on the connections. A failing operation keeps what was done before it failed.
-/
namespace SchemaLedger

/-- A database seen from outside, with states in `σ`. -/
structure Server (σ : Type) where
  connect : σ → Except DriverError Unit × σ
  answer : Request → List (String × Sql.Bound) → σ → Except DriverError Reply × σ
  commit : σ → Except DriverError Unit × σ
  rollback : σ → σ

structure Connection where
  /-- The pool that it was made for, counted from the first. -/
  pool : Nat
  /-- Whether a transaction is open on it. -/
  busy : Bool := false
  deriving DecidableEq

/-- The state of a session. Connections, records and pools are known by numbers. -/
structure World (σ : Type) where
  server : σ
  log : List Event := []
  connections : List Connection := []
  pool : Nat := 0
  /-- Connections that wait in the pool, last returned first. -/
  idle : List Nat := []
  /-- How many connections of the pool are out. -/
  out : Nat := 0
  records : List Handle := []
  /-- The identifiers for the next records. -/
  identifiers : List Uuid := []

/-- What does not change in a session. -/
structure Setting (σ : Type) where
  server : Server σ
  config : Config
  calling : Calling := .blocking
  now : Timestamp

abbrev Session (σ : Type) := ReaderT (Setting σ) (ExceptT Error (StateM (World σ)))

namespace Session

variable {σ α : Type}

def run (x : Session σ α) (s : Setting σ) (w : World σ) : Except Error α × World σ :=
  (ReaderT.run x s).run w

def ofResult : Result α → Session σ α
  | .ok a => pure a
  | .error e => throw e

def dialect : Session σ Dialect := do return (← read).config.dialect

/-- The outcome of an operation, whichever it is. -/
def attempt (x : Session σ α) : Session σ (Except Error α) :=
  tryCatch (Except.ok <$> x) (pure ∘ Except.error)

/-- Runs `last` after `x`, whether or not `x` fails. If `last` fails, its error is the outcome. -/
def ensuring (last : Session σ Unit) (x : Session σ α) : Session σ α := do
  let outcome ← attempt x
  last
  ofResult outcome

/-! ## Connections -/

def record (e : Event) : Session σ Unit := modify fun w => { w with log := w.log ++ [e] }

def isBusy (c : Nat) : Session σ Bool := do
  return ((← get).connections[c]?.map (·.busy)).getD false

def setBusy (c : Nat) (busy : Bool) : Session σ Unit :=
  modify fun w => { w with connections := w.connections.modify c fun x => { x with busy } }

/-- Whether a request opens a transaction: SQLite has to be asked and to accept, PostgreSQL opens one
for whatever it is sent. -/
def opens (d : Dialect) (r : Request) (accepted : Bool) : Bool :=
  match d with
  | .sqlite => r.isBegin && accepted
  | .postgresql => true

/-- Asks the database for something, changing its state. -/
def ask {β : Type} (f : σ → Except DriverError β × σ) : Session σ (Except DriverError β) :=
  modifyGet fun w =>
    let (outcome, server) := f w.server
    (outcome, { w with server })

def orDriver {β : Type} : Except DriverError β → Session σ β
  | .ok b => pure b
  | .error e => throw (.driver e)

/-- Sends a request. Values that cannot be parameters are refused before anything is sent. -/
def send (c : Nat) (r : Request) : Session σ Reply := do
  let setting ← read
  let prepared := r.prepare setting.config.dialect
  let parameters ← ofResult (prepared.bind setting.config.dialect)
  record (.sent r prepared.text parameters)
  let outcome ← ask (setting.server.answer r parameters)
  if opens setting.config.dialect r outcome.toBool then setBusy c true
  orDriver outcome

/-- An error of the driver as an error of the library. -/
def classifying (statement : Option String) (x : Session σ α) : Session σ α := do
  let d ← dialect
  tryCatch x fun
    | .driver e => throw (.backend (.ofDriver d e statement))
    | e => throw e

def execute (c : Nat) (r : Request) : Session σ Reply := do
  classifying (some (r.prepare (← dialect)).text) (send c r)

/-! ## Records -/

/-- Gives out a handle. -/
def register (h : Handle) : Session σ Nat :=
  modifyGet fun w => (w.records.length, { w with records := w.records ++ [h] })

def handle (n : Nat) : Session σ Handle := do
  match (← get).records[n]? with
  | some h => pure h
  | none => throw (.defect .key "")

def update (n : Nat) (f : Handle → Handle) : Session σ Unit :=
  modify fun w => { w with records := w.records.modify n f }

/-- An identifier for a new record. -/
def identifier : Session σ Uuid :=
  modifyGet fun w => (w.identifiers.head?.getD .zero, { w with identifiers := w.identifiers.tail })

end Session

end SchemaLedger
