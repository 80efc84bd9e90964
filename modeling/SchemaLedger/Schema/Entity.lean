import SchemaLedger.Schema.Field

set_option autoImplicit false

/-!
# Entities

An entity is a table: its fields, its single references, each stored as a column of that name, and
its many-to-many relationships, each stored in a join entity of its own.
-/
namespace SchemaLedger

/-- A foreign key to the target's primary key. -/
structure Reference where
  name : String
  target : String
  nullable : Bool := false
  deriving DecidableEq

/-- A many-to-many relationship. -/
structure ManyLink where
  name : String
  target : String
  deriving DecidableEq

inductive Relationship where
  | single (reference : Reference)
  | many (link : ManyLink)
  deriving DecidableEq

namespace Relationship

def name : Relationship → String
  | .single r => r.name
  | .many l => l.name

def target : Relationship → String
  | .single r => r.target
  | .many l => l.target

def kind : Relationship → String
  | .single _ => "single_reference"
  | .many _ => "many_to_many"

def kinds : List String := ["single_reference", "many_to_many"]

def reference? : Relationship → Option Reference
  | .single r => some r
  | .many _ => none

def link? : Relationship → Option ManyLink
  | .single _ => none
  | .many l => some l

end Relationship

/-- The name of the join entity that stores a many-to-many relationship. -/
def joinEntityName (entity relationship : String) : String := s!"{entity}_{relationship}_Many"

structure Entity where
  name : String
  fields : List Field := []
  relationships : List Relationship := []

namespace Entity

def references (e : Entity) : List Reference := e.relationships.filterMap (·.reference?)

def links (e : Entity) : List ManyLink := e.relationships.filterMap (·.link?)

def fieldNames (e : Entity) : List String := e.fields.map (·.name)

/-- Column order: the fields, then the single references. -/
def columnNames (e : Entity) : List String := e.fieldNames ++ e.references.map (·.name)

def memberNames (e : Entity) : List String := e.fieldNames ++ e.relationships.map (·.name)

def keys (e : Entity) : List Field := e.fields.filter (·.primaryKey)

def key? (e : Entity) : Option Field := e.keys.head?

def field? (e : Entity) (name : String) : Option Field := e.fields.find? (·.name = name)

def relationship? (e : Entity) (name : String) : Option Relationship :=
  e.relationships.find? (·.name = name)

def getField (e : Entity) (name : String) : Except SchemaFault Field :=
  match e.field? name with
  | some f => .ok f
  | none => .error (.fieldNotFound name e.name e.fieldNames)

/-- The entity without its many-to-many relationships. -/
def withoutLinks (e : Entity) : Entity :=
  { e with relationships := e.references.map .single }

/-- Equality of name, fields and relationships, in order. -/
def same (a b : Entity) : Bool :=
  a.name = b.name && sameFields a.fields b.fields && a.relationships = b.relationships
where
  sameFields : List Field → List Field → Bool
    | [], [] => true
    | x :: xs, y :: ys => x.same y && sameFields xs ys
    | _, _ => false

/-- The first name that stands twice. -/
def firstRepeated : List String → List String → Option String
  | _, [] => none
  | seen, name :: rest => if name ∈ seen then some name else firstRepeated (name :: seen) rest

def isReserved (name : String) : Bool :=
  name ∈ SchemaFault.reservedNames || name.startsWith "_"

def checkNames (e : Entity) : Except SchemaFault Unit :=
  match firstRepeated [] e.memberNames with
  | some name => .error (.duplicate name (.entity e.name))
  | none =>
    match e.columnNames.find? isReserved with
    | some name => .error (.reservedColumn e.name name)
    | none => .ok ()

def checkKey (e : Entity) : Except SchemaFault Unit :=
  match e.keys with
  | [key] =>
    if key.nullable then .error (.badKey e.name (.nullable key.name))
    else if key.type.isKeyless then .error (.badKey e.name (.keyless key.name key.type))
    else .ok ()
  | keys => .error (.badKey e.name (.count keys.length))

def checkField (e : Entity) (f : Field) : Except SchemaFault Unit :=
  if f.auto && !f.primaryKey then .error (.strayAuto e.name f.name)
  else if f.auto && !f.type.canGenerate then .error (.ungenerated e.name f.name f.type)
  else if f.unique && f.type.isKeyless then .error (.incomparable e.name f.name f.type)
  else .ok ()

/-- Names, then the key, then each field. -/
def check (e : Entity) : Except SchemaFault Unit := do
  e.checkNames
  e.checkKey
  e.fields.forM e.checkField

end Entity

end SchemaLedger
