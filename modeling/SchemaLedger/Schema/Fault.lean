import SchemaLedger.Error.Report
import SchemaLedger.Schema.Issue

set_option autoImplicit false

/-!
# Faults of a schema

Why a description is no schema, or why a change does not fit one.
-/
namespace SchemaLedger

/-- Where a name may stand only once. -/
inductive Scope where
  | entity (name : String)
  | entities
  | joinEntities
  deriving DecidableEq

def Scope.text : Scope → String
  | .entity name => s!"entity '{name}'"
  | .entities => "the schema"
  | .joinEntities => "the schema (join entity)"

inductive KeyFault where
  | count (found : Nat)
  | nullable (field : String)
  | keyless (field : String) (type : LogicalType)
  deriving DecidableEq

def KeyFault.text : KeyFault → String
  | .count found => s!"expected exactly one primary key field, found {found}"
  | .nullable field => s!"primary key '{field}' cannot be nullable"
  | .keyless field type => s!"primary key '{field}' cannot be of type " ++ type.name

inductive SchemaFault where
  | entityNotFound (name : String) (available : List String)
  | fieldNotFound (name entity : String) (available : List String)
  | duplicate (name : String) (scope : Scope)
  | badKey (entity : String) (fault : KeyFault)
  | unresolved (entity relationship target : String)
  | undefaultable (field : String) (type : LogicalType)
  | mismatchedDefault (field : String) (type : LogicalType) (default : Value)
  | reservedColumn (entity field : String)
  | strayAuto (entity field : String)
  | ungenerated (entity field : String) (type : LogicalType)
  | incomparable (entity field : String) (type : LogicalType)
  | misnamed (key entity : String)
  | malformed (issues : List Issue)
  | alreadyExists (entity : String)
  | noRelationship (entity relationship : String)
  | otherRelationship (entity relationship : String)
  | unreadable (path reason : String)
  | noEntities (path : String)

namespace SchemaFault

/-- Column names that a record handle uses itself. -/
def reservedNames : List String :=
  ["dirty", "ensure_writable", "entity", "entity_name", "pk", "pk_pending", "state", "values"]

/-- The names of the types that can have a default, in order. -/
def defaultableNames : List String :=
  (LogicalType.all.filter (·.canDefault)).map (·.name) |>.mergeSort (fun a b => decide (a ≤ b))

def kind : SchemaFault → ErrorKind
  | .entityNotFound .. => .entityNotFound
  | .fieldNotFound .. => .fieldNotFound
  | .duplicate .. => .duplicateName
  | .badKey .. => .invalidPrimaryKey
  | .unresolved .. => .unresolvedReference
  | _ => .schema

def message : SchemaFault → String
  | .entityNotFound name available =>
    if available.isEmpty then s!"Entity '{name}' not found. The schema has no entities."
    else s!"Entity '{name}' not found. Available entities: " ++ commaList available
  | .fieldNotFound name entity available =>
    if available.isEmpty then s!"Field '{name}' not found on '{entity}'. No fields defined."
    else s!"Field '{name}' not found on '{entity}'. Available fields: " ++ commaList available
  | .duplicate name scope => s!"Name '{name}' is declared more than once in {scope.text}."
  | .badKey entity fault => s!"Invalid primary key on '{entity}': {fault.text}"
  | .unresolved entity relationship target =>
    s!"Relationship '{entity}.{relationship}' targets unknown entity '{target}'. " ++
      "Declare the target entity in the same schema."
  | .undefaultable field type =>
    s!"Field '{field}' of type {type.name} cannot declare a default. " ++
      "Defaults are supported for: " ++ commaList defaultableNames
  | .mismatchedDefault field type default =>
    s!"Default {default.display} does not match type {type.name} of field '{field}'."
  | .reservedColumn entity field => s!"Column name '{entity}.{field}' is reserved for record handles."
  | .strayAuto entity field => s!"Field '{entity}.{field}' is autogenerated but not the primary key."
  | .ungenerated entity field type =>
    s!"Autogenerated field '{entity}.{field}' must be int, bigint or uuid, not {type.name}."
  | .incomparable entity field type =>
    s!"Field '{entity}.{field}' of type {type.name} cannot be unique."
  | .misnamed key entity => s!"Entity registered as '{key}' is named '{entity}'."
  | .malformed _ => "Invalid model description"
  | .alreadyExists entity => s!"Entity '{entity}' already exists."
  | .noRelationship entity relationship => s!"Relationship '{entity}.{relationship}' does not exist."
  | .otherRelationship entity relationship =>
    s!"Relationship '{entity}.{relationship}' does not match the step."
  | .unreadable path reason => s!"Cannot read model description {path}: {reason}"
  | .noEntities path => s!"Model description {path} must contain an 'entities' list."

def context : SchemaFault → Entries
  | .entityNotFound name available =>
    [("entity_name", .text name), ("available_entities", textList available)]
  | .fieldNotFound name entity available =>
    [("field_name", .text name), ("entity_name", .text entity),
      ("available_fields", textList available)]
  | .duplicate name scope => [("name", .text name), ("scope", .text scope.text)]
  | .badKey entity fault => [("entity_name", .text entity), ("reason", .text fault.text)]
  | .unresolved entity relationship target =>
    [("entity_name", .text entity), ("relationship_name", .text relationship),
      ("target", .text target)]
  | .undefaultable field type => [("field_name", .text field), ("type", .text type.name)]
  | .mismatchedDefault field type default =>
    [("field_name", .text field), ("type", .text type.name), ("default", .text default.display)]
  | .reservedColumn entity field =>
    [("entity_name", .text entity), ("field_name", .text field), ("reserved", textList reservedNames)]
  | .strayAuto entity field => [("entity_name", .text entity), ("field_name", .text field)]
  | .ungenerated entity field type =>
    [("entity_name", .text entity), ("field_name", .text field), ("type", .text type.name)]
  | .incomparable entity field type =>
    [("entity_name", .text entity), ("field_name", .text field), ("type", .text type.name)]
  | .misnamed key entity => [("key", .text key), ("entity_name", .text entity)]
  | .malformed _ => []
  | .alreadyExists _ => []
  | .noRelationship .. => []
  | .otherRelationship .. => []
  | .unreadable path _ => [("path", .text path)]
  | .noEntities path => [("path", .text path)]

def report (f : SchemaFault) : Report := ⟨f.kind, f.message, f.context⟩

end SchemaFault

end SchemaLedger
