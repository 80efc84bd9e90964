import SchemaLedger.Migration.History
import SchemaLedger.Sql.Binding
import SchemaLedger.Sql.Select
import SchemaLedger.Sql.Write

set_option autoImplicit false

/-!
# The history table

Every database keeps the batches that were applied to it in a table of its own, in the order of their
versions. The steps of a batch stand there as a document.
-/
namespace SchemaLedger.HistoryTable

open Sql (ColumnRef)

def name : String := "schemawright_migrations"

def definition (d : Dialect) : String :=
  s!"\nCREATE TABLE {name} (\n\tversion INTEGER NOT NULL, \n\tname VARCHAR(255) NOT NULL, " ++
    s!"\n\tsteps TEXT NOT NULL, \n\tapplied_at {Sql.typeName d .timestamp} NOT NULL, " ++
    "\n\tPRIMARY KEY (version)\n)\n\n"

def version : ColumnRef := ⟨.table name, "version", .int⟩

def columns : List ColumnRef :=
  [version, ⟨.table name, "name", .text⟩, ⟨.table name, "steps", .text⟩,
    ⟨.table name, "applied_at", .timestamp⟩]

def types : List LogicalType := columns.map (·.type)

/-- The query for the whole history. -/
def select : Sql.Select :=
  { outputs := columns.map (⟨·, none⟩), source := { table := name }, ordering := [⟨version, none⟩] }

/-! ## Rows -/

def stepsText (steps : List Step) : String :=
  Json.render .compact (.list (steps.map fun s => Json.toDocument s.toValue))

def refused {α : Type} (problem : Problem) : Result α := .error (.description [⟨[], problem⟩])

def stepsOfDocument (document : Value) : Result (List Step) :=
  match Reading.list Step.read document with
  | .valid steps => .ok steps
  | .invalid issues => .error (.description issues)
  | .refused fault => .error (.schema fault)

def readSteps : Value → Result (List Step)
  | .text s =>
    match Json.read s with
    | .ok document => stepsOfDocument document
    | .error e => refused (.malformed s!"expected value at line {e.line} column {e.column}")
  | _ => refused .notDocument

/-- The row that records a batch. -/
def row (r : Applied) : List Value :=
  [.int r.version, .text r.name, .text (stepsText r.steps), .timestamp r.appliedAt]

def insert (r : Applied) : Sql.Insert :=
  { table := name, assignments := (columns.zip (row r)).map fun c => ⟨c.1.column, c.1.type, c.2⟩ }

def readRow : List Value → Result Applied
  | [.int version, .text name, steps, .timestamp appliedAt] => do
    let steps ← readSteps steps
    .ok ⟨version, name, steps, appliedAt⟩
  | _ => .error (.defect .type "")

/-- The recorded batch in a row as the database gives it. -/
def decode (d : Dialect) (cells : List Value) : Result Applied := do
  let values ← Sql.Binding.readRow d types cells
  readRow values

end SchemaLedger.HistoryTable
