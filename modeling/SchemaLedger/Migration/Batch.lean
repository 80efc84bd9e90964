import SchemaLedger.Calendar
import SchemaLedger.Json.Printer
import SchemaLedger.Json.Reader
import SchemaLedger.Migration.Diff
import SchemaLedger.Sql.Ddl
import SchemaLedger.Text.Parts

set_option autoImplicit false

/-!
# Batches

A batch is a numbered and named list of steps that are applied together. Batches are kept in a file,
and their steps in the history of a database; both are documents that are read back as they were
written.
-/
namespace SchemaLedger

structure Batch where
  version : Int
  name : String
  steps : List Step := []

namespace Batch

/-- The batch that undoes this one. -/
def invert (b : Batch) : Batch := ⟨b.version, b.name ++ "_down", Step.invertAll b.steps⟩

def describe (b : Batch) : List String := b.steps.map (·.describe)

/-- The time to the millisecond, and a label. -/
def nameAt (now : Timestamp) (label : String) : String := s!"{now.compact}_{label}"

/-- A batch under a version, which counts from one. -/
def make (version : Int) (name : String) (steps : List Step) : Result Batch :=
  if version < 1 then .error (.description [⟨[.name "version"], .belowLeast 1⟩])
  else .ok ⟨version, name, steps⟩

/-- The batch from one schema to another; none if they do not differ. -/
def between (now : Timestamp) (current desired : Schema) (label : String) (version : Option Int) :
    Result (Option Batch) := do
  let steps ← liftDiff (diff current desired)
  if steps.isEmpty then .ok none
  else (make (version.getD (current.version + 1)) (nameAt now label) steps).map some

/-- The statements of each step, and the schema after it. -/
def renderStep (d : Dialect) (state : Schema × List String) (step : Step) :
    Result (Schema × List String) := do
  let statements ← Sql.Ddl.render d state.1 step
  let after ← liftSchema (step.apply state.1)
  .ok (after, state.2 ++ statements)

/-- All statements of a batch on a database with schema `s`. -/
def render (d : Dialect) (s : Schema) (b : Batch) : Result (List String) :=
  (b.steps.foldlM (renderStep d) (s, [])).map (·.2)

def read : Value → Checked Batch :=
  Reading.shaped .batch fun es =>
    Batch.mk <$> Reading.required es "version" (Reading.integerFrom 1)
      <*> Reading.required es "name" Reading.text
      <*> Reading.part es "steps" [] (Reading.tuple Step.read)

def toValue (b : Batch) : Value :=
  .object [("version", .int b.version), ("name", .text b.name),
    ("steps", .list (b.steps.map (·.toValue)))]

def readAll : Value → Checked (List Batch) := Reading.list read

end Batch

/-- The schema that steps lead to from the empty one, with the version of the last entry. -/
def schemaOf (steps : List Step) (version : Int) : Except SchemaFault Schema :=
  (Step.applyAll .empty steps).map (·.withVersion version)

def Batch.schemaAt (batches : List Batch) : Except SchemaFault Schema :=
  schemaOf (batches.flatMap (·.steps)) ((batches.getLast?.map (·.version)).getD 0)

/-! ## Files -/

namespace File

/-- The text of a migrations file. -/
def ofBatches (batches : List Batch) : String :=
  let content := Value.object [("migrations", .list (batches.map fun b => Json.toDocument b.toValue))]
  Json.render .indented content ++ "\n"

/-- What a document of the wrong kind is called. -/
def kindName : Value → String
  | .null => "NoneType"
  | .bool _ => "bool"
  | .int _ => "int"
  | .float _ => "float"
  | .text _ => "str"
  | .list _ => "list"
  | _ => "dict"

def readText (text : String) : Except Json.SyntaxError Value :=
  Json.read (String.ofList (Text.unixLines text.toList))

/-- The batches of a migrations file; a missing file holds none. -/
def batches (path : String) : Option String → Result (List Batch)
  | none => .ok []
  | some text =>
    match readText text with
    | .error e => .error (.migration (.unreadable path e.message))
    | .ok (.object entries) =>
      match Batch.readAll ((Entries.get? "migrations" entries).getD (.list [])) with
      | .valid batches => .ok batches
      | .invalid issues => .error (.migration (.malformed path issues))
      | .refused fault => .error (.schema fault)
    | .ok other =>
      .error (.migration (.unreadable path
        s!"'{kindName other}' object has no attribute 'get'"))

/-- The schema of a model file: a list of entities, alone or under that name. -/
def schema (path : String) : Option String → Result Schema
  | none =>
    .error (.schema (.unreadable path s!"[Errno 2] No such file or directory: '{path}'"))
  | some text =>
    match readText text with
    | .error e => .error (.schema (.unreadable path e.message))
    | .ok document =>
      let entities := match document with
        | .object entries => (Entries.get? "entities" entries).getD .null
        | other => other
      match entities with
      | .list raw => liftSchema (Schema.build raw (.int 0))
      | _ => .error (.schema (.noEntities path))

end File

end SchemaLedger
