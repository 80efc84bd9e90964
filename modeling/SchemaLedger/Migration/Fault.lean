import SchemaLedger.Error.Report
import SchemaLedger.Schema.Issue

set_option autoImplicit false

/-!
# Faults of migrations

Why two schemas have no migration between them, and why batches and recorded history are refused.
-/
namespace SchemaLedger

inductive DiffFault where
  | cyclic (path : List String)
  | unsupported (entity field old new : String)
  deriving DecidableEq

namespace DiffFault

def kind : DiffFault → ErrorKind
  | .cyclic _ => .cyclicDependency
  | .unsupported .. => .typeChangeUnsupported

def message : DiffFault → String
  | .cyclic path =>
    "Cyclic foreign-key dependency: " ++ " -> ".intercalate path ++
      ". Make one of the references nullable and add it in a later migration."
  | .unsupported entity field old new =>
    s!"Cannot migrate '{entity}.{field}' from {old} to {new}. " ++
      "Add a new field instead and copy the data."

def context : DiffFault → Entries
  | .cyclic path => [("entity_path", textList path)]
  | .unsupported entity field old new =>
    [("entity_name", .text entity), ("field_name", .text field), ("old", .text old),
      ("new", .text new)]

def report (f : DiffFault) : Report := ⟨f.kind, f.message, f.context⟩

end DiffFault

inductive MigrationFault where
  | oneSource
  | versionOrder (versions : List Int)
  | unreadable (path reason : String)
  | malformed (path : String) (issues : List Issue)
  | noFile (path : String)
  | noVersion (version : Int) (path : String)
  | surplus (recorded supplied : Nat) (names : List String)
  | divergent (version : Int) (name : String) (suppliedVersion : Int) (suppliedName : String)

namespace MigrationFault

def kind : MigrationFault → ErrorKind
  | .surplus .. => .migrationHistory
  | .divergent .. => .migrationHistory
  | _ => .migration

def message : MigrationFault → String
  | .oneSource => "Pass exactly one of 'desired' or 'batches'."
  | .versionOrder _ => "Migration batch versions must increase."
  | .unreadable path reason => s!"Invalid migrations file {path}: {reason}"
  | .malformed path _ => s!"Invalid migrations file {path}"
  | .noFile path =>
    s!"Migrations file {path} not found. " ++
      "Run 'schemawright makemigration' first or pass --model."
  | .noVersion version path => s!"Migration {version} not found in {path}."
  | .surplus recorded supplied _ =>
    s!"Database has {recorded} recorded migrations but only {supplied} were supplied."
  | .divergent version name suppliedVersion suppliedName =>
    s!"Recorded migration {version} ({name}) does not match " ++
      s!"supplied migration {suppliedVersion} ({suppliedName})."

def context : MigrationFault → Entries
  | .oneSource => []
  | .versionOrder versions => [("versions", .list (versions.map .int))]
  | .unreadable path _ => [("path", .text path)]
  | .malformed path _ => [("path", .text path)]
  | .noFile path => [("path", .text path)]
  | .noVersion version path => [("version", .int version), ("path", .text path)]
  | .surplus _ _ names => [("recorded", textList names)]
  | .divergent version name _ suppliedName =>
    [("recorded", .text name), ("supplied", .text suppliedName), ("version", .int version)]

def report (f : MigrationFault) : Report := ⟨f.kind, f.message, f.context⟩

end MigrationFault

end SchemaLedger
