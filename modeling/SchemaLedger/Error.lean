import SchemaLedger.Connection.Fault
import SchemaLedger.Migration.Fault
import SchemaLedger.Query.Fault
import SchemaLedger.Record.Fault
import SchemaLedger.Schema.Fault

set_option autoImplicit false

/-!
# Errors

All that can go wrong. Faults have a report that a caller can inspect; a defect is a value that has
no place where it stands, and only its name counts.
-/
namespace SchemaLedger

inductive Defect where
  | value
  | documentSyntax
  | type
  | key
  | attribute
  | overflow
  | parameter
  | identifier
  | duplicateTable
  | argument
  | statement
  | noTable
  | noColumn
  deriving DecidableEq

namespace Defect

def name : Defect → String
  | .value => "ValueError"
  | .documentSyntax => "JSONDecodeError"
  | .type => "TypeError"
  | .key => "KeyError"
  | .attribute => "AttributeError"
  | .overflow => "OverflowError"
  | .parameter => "StatementError"
  | .identifier => "IdentifierError"
  | .duplicateTable => "InvalidRequestError"
  | .argument => "ArgumentError"
  | .statement => "CompileError"
  | .noTable => "NoReferencedTableError"
  | .noColumn => "NoReferencedColumnError"

/-- Defects found while a statement is put together. -/
def ofStatement : Defect → Bool
  | .parameter => true
  | .identifier => true
  | .duplicateTable => true
  | .argument => true
  | .statement => true
  | .noTable => true
  | .noColumn => true
  | _ => false

end Defect

inductive Error where
  | config (fault : ConfigFault)
  | schema (fault : SchemaFault)
  | diff (fault : DiffFault)
  | migration (fault : MigrationFault)
  | apply (version : Int) (step : Nat) (cause : Error)
  | compile (fault : CompileFault)
  | backend (fault : BackendFault)
  | timeout (seconds : Double)
  | record (fault : RecordFault)
  | stated (report : Report)
  | description (issues : List Issue)
  | noAttribute (message : String)
  | driver (error : DriverError)
  | defect (defect : Defect) (text : String)

namespace Error

def applyReport (version : Int) (step : Nat) (cause : String) : Report :=
  ⟨.migrationApply,
    s!"Migration {version} failed at step {step}: {cause}. " ++
      "The batch was rolled back and remaining migrations were not applied.",
    [("version", .int version), ("step_index", .int step), ("cause", .text cause)]⟩

/-- The kind, sentence and facts of an error of the library; none for defects. -/
def report? : Error → Option Report
  | .config fault => some fault.report
  | .schema fault => some fault.report
  | .diff fault => some fault.report
  | .migration fault => some fault.report
  | .apply version step cause =>
    some (applyReport version step (match cause.report? with
      | some r => r.message
      | none => ""))
  | .compile fault => some fault.report
  | .backend fault => some fault.report
  | .timeout seconds => some (timeoutReport seconds)
  | .record fault => some fault.report
  | .stated report => some report
  | .description _ => none
  | .noAttribute _ => none
  | .driver _ => none
  | .defect .. => none

def name : Error → String
  | .config _ => ErrorKind.config.name
  | .schema fault => fault.kind.name
  | .diff fault => fault.kind.name
  | .migration fault => fault.kind.name
  | .apply .. => ErrorKind.migrationApply.name
  | .compile fault => fault.kind.name
  | .backend fault => fault.kind.name
  | .timeout _ => ErrorKind.acquireTimeout.name
  | .record fault => fault.kind.name
  | .stated report => report.kind.name
  | .description _ => "ValidationError"
  | .noAttribute _ => "AttributeError"
  | .driver e => e.name
  | .defect d _ => d.name

/-- The issues of a description behind an error. -/
def issues? : Error → Option (List Issue)
  | .schema (.malformed issues) => some issues
  | .migration (.malformed _ issues) => some issues
  | .description issues => some issues
  | _ => none

def text (e : Error) : String :=
  match e.report? with
  | some r => r.message
  | none =>
    match e with
    | .noAttribute message => message
    | .driver d => d.message
    | .defect _ text => text
    | _ => ""

/-- Whether a failing step of a migration is reported as such. Other errors pass through. -/
def failsStep : Error → Bool
  | .description _ => false
  | .noAttribute _ => false
  | .driver _ => true
  | .defect d _ => d.ofStatement
  | _ => true

end Error

abbrev Result (α : Type) := Except Error α

/-- The same outcome with the fault as an error of the library. -/
def liftSchema {α : Type} (x : Except SchemaFault α) : Result α := x.mapError .schema

def liftDiff {α : Type} (x : Except DiffFault α) : Result α := x.mapError .diff

end SchemaLedger
