import SchemaLedger.Schema.Description

set_option autoImplicit false

/-!
# Migration steps

One schema change. A step carries all it touches, so that it can be applied to a schema on its own
and turned around: `invert` exchanges adding and removing, and the old and the new side of a change.
-/
namespace SchemaLedger

inductive Step where
  | createEntity (entity : Entity)
  | dropEntity (entity : Entity)
  | addField (entity : String) (field : Field)
  | removeField (entity : String) (field : Field)
  | alterField (entity : String) (old new : Field)
  | addRelationship (entity : String) (relationship : Relationship)
  | removeRelationship (entity : String) (relationship : Relationship)
  | alterReference (entity : String) (old new : Reference)

namespace Step

def invert : Step → Step
  | .createEntity e => .dropEntity e
  | .dropEntity e => .createEntity e
  | .addField e f => .removeField e f
  | .removeField e f => .addField e f
  | .alterField e old new => .alterField e new old
  | .addRelationship e r => .removeRelationship e r
  | .removeRelationship e r => .addRelationship e r
  | .alterReference e old new => .alterReference e new old

/-- The steps that undo a list of steps. -/
def invertAll (steps : List Step) : List Step := steps.reverse.map invert

def entityName : Step → String
  | .createEntity e => e.name
  | .dropEntity e => e.name
  | .addField e _ => e
  | .removeField e _ => e
  | .alterField e _ _ => e
  | .addRelationship e _ => e
  | .removeRelationship e _ => e
  | .alterReference e _ _ => e

def kind : Step → String
  | .createEntity _ => "create_entity"
  | .dropEntity _ => "drop_entity"
  | .addField .. => "add_field"
  | .removeField .. => "remove_field"
  | .alterField .. => "alter_field"
  | .addRelationship .. => "add_relationship"
  | .removeRelationship .. => "remove_relationship"
  | .alterReference .. => "alter_relationship"

def kinds : List String :=
  ["create_entity", "drop_entity", "add_field", "remove_field", "alter_field", "add_relationship",
    "remove_relationship", "alter_relationship"]

/-- Whether the step adds or removes a join entity. -/
def isLink : Step → Bool
  | .addRelationship _ (.many _) => true
  | .removeRelationship _ (.many _) => true
  | _ => false

def describe : Step → String
  | .createEntity e => s!"create entity {e.name}"
  | .dropEntity e => s!"drop entity {e.name}"
  | .addField e f => s!"add field {e}.{f.name} ({f.type.name})"
  | .removeField e f => s!"remove field {e}.{f.name}"
  | .alterField e old new =>
    if old.type = new.type then s!"alter field {e}.{new.name}"
    else s!"alter field {e}.{new.name} ({old.type.name} -> {new.type.name})"
  | .addRelationship e r => s!"add {r.kind} {e}.{r.name} -> {r.target}"
  | .removeRelationship e r => s!"remove {r.kind} {e}.{r.name} -> {r.target}"
  | .alterReference e _ new =>
    let state := if new.nullable then "nullable" else "required"
    s!"alter single_reference {e}.{new.name} -> {new.target} ({state})"

/-- The field's own rule, and then the rules of the entity that holds it. -/
def revalidate (e : Entity) : Except SchemaFault Entity := do
  e.fields.forM Field.check
  e.check
  .ok e

def addTo (e : Entity) (f : Field) : Entity := { e with fields := e.fields ++ [f] }

def removeFrom (e : Entity) (name : String) : Entity :=
  { e with fields := e.fields.filter (·.name ≠ name) }

def replaceIn (e : Entity) (name : String) (f : Field) : Entity :=
  { e with fields := e.fields.map fun x => if x.name = name then f else x }

def relate (e : Entity) (r : Relationship) : Entity :=
  { e with relationships := e.relationships ++ [r] }

def unrelate (e : Entity) (name : String) : Entity :=
  { e with relationships := e.relationships.filter (·.name ≠ name) }

def replaceRelationship (e : Entity) (name : String) (r : Relationship) : Entity :=
  { e with relationships := e.relationships.map fun x => if x.name = name then r else x }

/-- The changed entity of a step on an existing one. -/
def change (e : Entity) : Step → Except SchemaFault Entity
  | .addField _ f => .ok (addTo e f)
  | .removeField _ f => do
    let _ ← e.getField f.name
    .ok (removeFrom e f.name)
  | .alterField _ old new => do
    let _ ← e.getField old.name
    .ok (replaceIn e old.name new)
  | .addRelationship _ r => .ok (relate e r)
  | .removeRelationship name r =>
    if (e.relationship? r.name).isNone then .error (.noRelationship name r.name)
    else .ok (unrelate e r.name)
  | .alterReference name old new =>
    if e.relationship? old.name = some (.single old) then
      .ok (replaceRelationship e old.name (.single new))
    else .error (.otherRelationship name old.name)
  | .createEntity _ => .ok e
  | .dropEntity _ => .ok e

/-- The schema after a step. -/
def apply (s : Schema) : Step → Except SchemaFault Schema
  | .createEntity e =>
    if s.contains e.name then .error (.alreadyExists e.name) else (s.put e).checked
  | .dropEntity e => do
    let _ ← s.entity e.name
    (s.erase e.name).checked
  | step => do
    let e ← s.entity step.entityName
    let changed ← step.change e
    let valid ← revalidate changed
    (s.put valid).checked

def applyAll (s : Schema) (steps : List Step) : Except SchemaFault Schema := steps.foldlM apply s

/-! ## Descriptions -/

def readTagged (kind : String) (es : Entries) : Checked Step :=
  let entity := Reading.required es "entity" Reading.text
  let relationship := Reading.required es "relationship" Relationship.read
  if kind = "create_entity" then .createEntity <$> Reading.required es "entity" Entity.read
  else if kind = "drop_entity" then .dropEntity <$> Reading.required es "entity" Entity.read
  else if kind = "add_field" then .addField <$> entity <*> Reading.required es "field" Field.read
  else if kind = "remove_field" then
    .removeField <$> entity <*> Reading.required es "field" Field.read
  else if kind = "alter_field" then
    .alterField <$> entity <*> Reading.required es "old" Field.read
      <*> Reading.required es "new" Field.read
  else if kind = "add_relationship" then .addRelationship <$> entity <*> relationship
  else if kind = "remove_relationship" then .removeRelationship <$> entity <*> relationship
  else
    .alterReference <$> entity <*> Reading.required es "old" Reference.read
      <*> Reading.required es "new" Reference.read

def read : Value → Checked Step := Reading.tagged kinds readTagged

def toValue : Step → Value
  | .createEntity e => .object [("kind", .text "create_entity"), ("entity", e.toValue)]
  | .dropEntity e => .object [("kind", .text "drop_entity"), ("entity", e.toValue)]
  | .addField e f =>
    .object [("kind", .text "add_field"), ("entity", .text e), ("field", f.toValue)]
  | .removeField e f =>
    .object [("kind", .text "remove_field"), ("entity", .text e), ("field", f.toValue)]
  | .alterField e old new =>
    .object [("kind", .text "alter_field"), ("entity", .text e), ("old", old.toValue),
      ("new", new.toValue)]
  | .addRelationship e r =>
    .object [("kind", .text "add_relationship"), ("entity", .text e), ("relationship", r.toValue)]
  | .removeRelationship e r =>
    .object [("kind", .text "remove_relationship"), ("entity", .text e),
      ("relationship", r.toValue)]
  | .alterReference e old new =>
    .object [("kind", .text "alter_relationship"), ("entity", .text e), ("old", old.toValue),
      ("new", new.toValue)]

end Step

end SchemaLedger
