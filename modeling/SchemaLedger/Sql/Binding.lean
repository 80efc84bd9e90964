import SchemaLedger.Error
import SchemaLedger.Json.Printer
import SchemaLedger.Json.Reader
import SchemaLedger.Schema.Checked
import SchemaLedger.Sql.Fragment

set_option autoImplicit false

/-!
# Bindings

How a value of a logical type is given to a database, and how a cell of such a column is read.
SQLite keeps truth values as numbers, and dates, identifiers and documents as text; PostgreSQL has
types for all of them.
-/
namespace SchemaLedger.Sql

/-- What a driver is given for a parameter. -/
inductive Bound where
  | plain (v : Value)
  /-- A document of PostgreSQL: its null is not the null of SQL. -/
  | document (v : Value)

namespace Binding

/-- Truth values, and the numbers that are equal to them. -/
def truth? (v : Value) : Option Bool :=
  if v.same (.bool true) then some true
  else if v.same (.bool false) then some false
  else none

def double? (v : Value) : Option Double :=
  match v with
  | .int n => Double.ofInt? n
  | v =>
    match Reading.number v with
    | .valid x => some x
    | _ => none

/-- The cell of SQLite that holds a value; none if the column cannot hold it. -/
def cell? : LogicalType → Value → Option Value
  | .json, v => if Json.isDocument v then some (.text (Json.render .spaced v)) else none
  | _, .null => some .null
  | .bool, v => (truth? v).map fun b => .int (if b then 1 else 0)
  | .real, v => (double? v).map .float
  | .uuid, .uuid u => some (.text u.compact)
  | .date, .date d => some (.text d.iso)
  | .date, .timestamp t => some (.text t.date.iso)
  | .timestamp, .timestamp t => some (.text t.stored)
  | .timestamp, .date d => some (.text (Timestamp.stored ⟨d, .midnight⟩))
  | .blob, .bytes b => some (.bytes b)
  | .int, v => some v
  | .bigint, v => some v
  | .text, v => some v
  | _, _ => none

/-- The parameter of PostgreSQL for a value. -/
def parameter? : LogicalType → Value → Option Bound
  | .json, v => some (.document v)
  | .bool, .null => some (.plain .null)
  | .bool, v => (truth? v).map fun b => .plain (.bool b)
  | _, v => some (.plain v)

def bind? (d : Dialect) (type : LogicalType) (v : Value) : Option Bound :=
  match d with
  | .sqlite => (cell? type v).map .plain
  | .postgresql => parameter? type v

def bind (d : Dialect) (type : LogicalType) (v : Value) : Result Bound :=
  match bind? d type v with
  | some b => .ok b
  | none => .error (.defect .parameter "")

/-! ## Reading -/

/-- What a text denotes, if it denotes anything. -/
def denoted {α : Type} (s : String) : Option α → Result α
  | some a => .ok a
  | none => .error (.defect .value s!"Invalid isoformat string: {Text.quoted s}")

/-- A document in a cell; a number stands for itself. -/
def readDocument : Value → Result Value
  | .text s => (Json.read s).mapError fun _ => .defect .documentSyntax ""
  | .int n => .ok (.int n)
  | .float x => .ok (.float x)
  | .bool b => .ok (.bool b)
  | _ => .error (.defect .type "")

/-- The value that a cell of SQLite holds. -/
def readCell : LogicalType → Value → Result Value
  | _, .null => .ok .null
  | .bool, v => .ok (.bool v.holds)
  | .date, .text s => (denoted s (Date.ofIso? s)).map .date
  | .date, _ => .error (.defect .type "")
  | .timestamp, .text s => (denoted s (Timestamp.ofIso? s)).map .timestamp
  | .timestamp, _ => .error (.defect .type "")
  | .uuid, .text s =>
    match Uuid.ofText? s with
    | some u => .ok (.uuid u)
    | none => .error (.defect .value "badly formed hexadecimal UUID string")
  | .uuid, _ => .error (.defect .attribute "")
  | .json, v => readDocument v
  | _, v => .ok v

def read (d : Dialect) (type : LogicalType) (v : Value) : Result Value :=
  match d with
  | .sqlite => readCell type v
  | .postgresql => .ok v

/-- The cells of a row by the types of its columns; cells beyond them stay as they are. -/
def readRow (d : Dialect) : List LogicalType → List Value → Result (List Value)
  | type :: types, v :: row => do
    let v ← read d type v
    let row ← readRow d types row
    .ok (v :: row)
  | _, row => .ok row

end Binding

/-- The parameters of a statement as the driver is given them. -/
def Prepared.bind (d : Dialect) (p : Prepared) : Result (List (String × Bound)) :=
  p.parameters.mapM fun (name, q) => do
    let b ← Binding.bind d q.type q.value
    .ok (name, b)

end SchemaLedger.Sql
