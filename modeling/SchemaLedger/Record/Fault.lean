import SchemaLedger.Error.Report

set_option autoImplicit false

/-!
# Faults of records

Why an operation is refused in the present state of a record handle.
-/
namespace SchemaLedger

/-- A handle begins new, is persisted by its first save, and ends deleted. -/
inductive RecordState where
  | new
  | persisted
  | deleted
  deriving DecidableEq

def RecordState.name : RecordState → String
  | .new => "new"
  | .persisted => "persisted"
  | .deleted => "deleted"

inductive RecordFault where
  | deleted (entity : String) (key : Value)
  | keyFixed (entity field : String)
  | noKey (entity field : String)
  | notSaved (entity : String) (state : RecordState)
  | notMany (entity relationship : String)
  | otherTarget (entity relationship target got : String)
  | unsaved (entity : String) (state : RecordState)
  | notFound (key : Value) (entity : String)

namespace RecordFault

def kind : RecordFault → ErrorKind
  | .notFound .. => .recordNotFound
  | _ => .objectState

def message : RecordFault → String
  | .deleted entity key => s!"{entity} record {key.display} was deleted and cannot be written."
  | .keyFixed entity _ => s!"Cannot change the primary key of a saved {entity} record."
  | .noKey entity field => s!"Cannot insert {entity} without a value for primary key '{field}'."
  | .notSaved entity state =>
    s!"Only saved records can be deleted; this {entity} handle is {state.name}."
  | .notMany entity relationship => s!"'{entity}.{relationship}' is not a many-to-many relationship."
  | .otherTarget entity relationship target got =>
    s!"'{entity}.{relationship}' links to {target}, not {got}."
  | .unsaved entity _ => s!"Save the {entity} record before linking it."
  | .notFound key entity => s!"Record '{key.plain}' not found in '{entity}'."

def context : RecordFault → Entries
  | .deleted entity key => [("entity_name", .text entity), ("record_id", .text key.plain)]
  | .keyFixed entity field => [("entity_name", .text entity), ("field_name", .text field)]
  | .noKey entity field => [("entity_name", .text entity), ("field_name", .text field)]
  | .notSaved entity state => [("entity_name", .text entity), ("state", .text state.name)]
  | .notMany entity relationship =>
    [("entity_name", .text entity), ("relationship_name", .text relationship)]
  | .otherTarget _ relationship target got =>
    [("relationship_name", .text relationship), ("target", .text target), ("got", .text got)]
  | .unsaved entity state => [("entity_name", .text entity), ("state", .text state.name)]
  | .notFound key entity => [("record_id", .text key.plain), ("entity_name", .text entity)]

def report (f : RecordFault) : Report := ⟨f.kind, f.message, f.context⟩

end RecordFault

end SchemaLedger
