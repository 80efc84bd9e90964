import SchemaLedger.Schema.Entity

set_option autoImplicit false

/-!
# Schemas

A version and the entities in declared order. `Schema.equivalent` is equality of shape: the version
and the order of declarations do not count.
-/
namespace SchemaLedger

structure Schema where
  version : Int := 0
  entities : List Entity := []

namespace Schema

/-- The schema of a database without managed entities. -/
def empty : Schema := {}

def names (s : Schema) : List String := s.entities.map (·.name)

def entity? (s : Schema) (name : String) : Option Entity := s.entities.find? (·.name = name)

def contains (s : Schema) (name : String) : Bool := s.entities.any (·.name = name)

def entity (s : Schema) (name : String) : Except SchemaFault Entity :=
  match s.entity? name with
  | some e => .ok e
  | none => .error (.entityNotFound name s.names)

def withVersion (s : Schema) (version : Int) : Schema := { s with version }

/-- An entity of the same name keeps its place; a new one goes to the end. -/
def put (s : Schema) (e : Entity) : Schema := { s with entities := go s.entities }
where
  go : List Entity → List Entity
    | [] => [e]
    | x :: rest => if x.name = e.name then e :: rest else x :: go rest

def erase (s : Schema) (name : String) : Schema :=
  { s with entities := s.entities.filter (·.name ≠ name) }

/-- Checks one relationship against the entities, given the join entities before it. -/
def checkRelationship (s : Schema) (e : Entity) (joins : List String) (r : Relationship) :
    Except SchemaFault (List String) :=
  if !s.contains r.target then .error (.unresolved e.name r.name r.target)
  else
    match r with
    | .single _ => .ok joins
    | .many l =>
      let join := joinEntityName e.name l.name
      if s.contains join || join ∈ joins then .error (.duplicate join .joinEntities)
      else .ok (join :: joins)

/-- Targets are declared, and no two tables have one name. -/
def check (s : Schema) : Except SchemaFault Unit := do
  let _ ← s.entities.foldlM (fun joins e => e.relationships.foldlM (s.checkRelationship e) joins) []
  .ok ()

def checked (s : Schema) : Except SchemaFault Schema := do
  s.check
  .ok s

/-- What a valid schema satisfies: every check passes and no two entities share a name. -/
structure Valid (s : Schema) : Prop where
  distinct : s.names.Nodup
  fields : ∀ e ∈ s.entities, ∀ f ∈ e.fields, f.check = .ok ()
  entities : ∀ e ∈ s.entities, e.check = .ok ()
  relationships : s.check = .ok ()

/-- Whether two lists hold equal fields under equal names, in any order. -/
def sameFields (xs ys : List Field) : Bool :=
  xs.length = ys.length &&
    xs.all fun x => match ys.find? (·.name = x.name) with
      | some y => x.same y
      | none => false

def sameRelationships (xs ys : List Relationship) : Bool :=
  xs.length = ys.length && xs.all fun x => ys.find? (·.name = x.name) = some x

def sameShape (a b : Entity) : Bool :=
  sameFields a.fields b.fields && sameRelationships a.relationships b.relationships

def equivalent (a b : Schema) : Bool :=
  a.entities.length = b.entities.length &&
    a.entities.all fun x => match b.entity? x.name with
      | some y => sameShape x y
      | none => false

/-- Equality of version and entities; the order of the entities does not count. -/
def same (a b : Schema) : Bool :=
  a.version = b.version && a.entities.length = b.entities.length &&
    a.entities.all fun x => match b.entity? x.name with
      | some y => x.same y
      | none => false

end Schema

end SchemaLedger
