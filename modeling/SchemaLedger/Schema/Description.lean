import SchemaLedger.Schema.Basic
import SchemaLedger.Schema.Checked

set_option autoImplicit false

/-!
# Raw descriptions of schemas

Readers of the raw objects that describe fields, entities and schemas, and the raw objects that a
description is written back to.
-/
namespace SchemaLedger

def LogicalType.read : Value → Checked LogicalType
  | .text s =>
    match LogicalType.ofName? s with
    | some t => .valid t
    | none => .issue (.notChoice (LogicalType.all.map (·.name)))
  | _ => .issue (.notChoice (LogicalType.all.map (·.name)))

def Field.read : Value → Checked Field :=
  Reading.shaped .field fun es =>
    (Field.mk <$> Reading.required es "name" Reading.text
      <*> Reading.part es "type" .text LogicalType.read
      <*> Reading.part es "nullable" false Reading.bool
      <*> Reading.part es "default" .null .valid
      <*> Reading.part es "primary_key" false Reading.bool
      <*> Reading.part es "auto" false Reading.bool
      <*> Reading.part es "unique" false Reading.bool).andThen fun f => do
        f.check
        .ok f

def Reference.readEntries (es : Entries) : Checked Reference :=
  Reference.mk <$> Reading.required es "name" Reading.text
    <*> Reading.required es "target" Reading.text
    <*> Reading.part es "nullable" false Reading.bool

def ManyLink.readEntries (es : Entries) : Checked ManyLink :=
  ManyLink.mk <$> Reading.required es "name" Reading.text
    <*> Reading.required es "target" Reading.text

/-- Reads a single reference that stands alone; its kind may be left out. -/
def Reference.read : Value → Checked Reference :=
  Reading.shaped .reference fun es =>
    (Prod.mk <$> Reading.part es "kind" () (Reading.literal "single_reference")
      <*> Reference.readEntries es).map (·.2)

def Relationship.read : Value → Checked Relationship :=
  Reading.tagged Relationship.kinds fun kind es =>
    if kind = "single_reference" then .single <$> Reference.readEntries es
    else .many <$> ManyLink.readEntries es

def Entity.read : Value → Checked Entity :=
  Reading.shaped .entity fun es =>
    (Entity.mk <$> Reading.required es "name" Reading.text
      <*> Reading.part es "fields" [] (Reading.tuple Field.read)
      <*> Reading.part es "relationships" [] (Reading.tuple Relationship.read)).andThen fun e => do
        e.check
        .ok e

namespace Schema

def ofRegistered (version : Int) (entries : List (String × Entity)) : Except SchemaFault Schema :=
  match entries.find? fun (key, e) => key ≠ e.name with
  | some (key, e) => .error (.misnamed key e.name)
  | none => checked ⟨version, entries.map (·.2)⟩

/-- Reads a schema whose entities are registered under their names. -/
def read : Value → Checked Schema :=
  Reading.shaped .schema fun es =>
    (Prod.mk <$> Reading.part es "version" 0 (Reading.integerFrom 0)
      <*> Reading.part es "entities" [] (Reading.dictionary Entity.read)).andThen fun (version, xs) =>
        ofRegistered version xs

/-- Adds an entity that has passed its own checks to those before it. -/
def register (seen : List Entity) (e : Entity) : Except SchemaFault (List Entity) :=
  if seen.any (·.name = e.name) then .error (.duplicate e.name .entities) else .ok (seen ++ [e])

def registerRaw (seen : List Entity) (raw : Value) : Except SchemaFault (List Entity) := do
  let e ← (Entity.read raw).toExcept
  register seen e

/-- The schema of entities described in any order. -/
def build (raw : List Value) (version : Value) : Except SchemaFault Schema := do
  let entities ← raw.foldlM registerRaw []
  let version ← ((Reading.integerFrom 0 version).under (.name "version")).toExcept
  checked ⟨version, entities⟩

/-- The schema of entities that are valid on their own. -/
def ofEntities (entities : List Entity) (version : Int) : Except SchemaFault Schema := do
  let entities ← entities.foldlM (fun seen e => do e.check; register seen e) []
  checked ⟨version, entities⟩

end Schema

/-! ## Writing -/

def Field.toValue (f : Field) : Value :=
  .object [("name", .text f.name), ("type", .text f.type.name), ("nullable", .bool f.nullable),
    ("default", f.default), ("primary_key", .bool f.primaryKey), ("auto", .bool f.auto),
    ("unique", .bool f.unique)]

def Reference.toValue (r : Reference) : Value :=
  .object [("kind", .text "single_reference"), ("name", .text r.name), ("target", .text r.target),
    ("nullable", .bool r.nullable)]

def ManyLink.toValue (l : ManyLink) : Value :=
  .object [("kind", .text "many_to_many"), ("name", .text l.name), ("target", .text l.target)]

def Relationship.toValue : Relationship → Value
  | .single r => r.toValue
  | .many l => l.toValue

def Entity.toValue (e : Entity) : Value :=
  .object [("name", .text e.name), ("fields", .list (e.fields.map (·.toValue))),
    ("relationships", .list (e.relationships.map (·.toValue)))]

def Schema.toValue (s : Schema) : Value :=
  .object [("version", .int s.version), ("entities", .list (s.entities.map (·.toValue)))]

end SchemaLedger
