import SchemaLedger.Migration.Fault
import SchemaLedger.Migration.Sorter
import SchemaLedger.Migration.Step

set_option autoImplicit false

/-!
# Differences of schemas

The steps from one schema to another. Relationships are removed first and added last, so that no step
meets a reference whose target is missing. A renamed member counts as one removed and one added; a
single reference that keeps its name and target is altered in place.
-/
namespace SchemaLedger

/-! ## Dependency order

Entities in an order in which every reference target stands before the entities that refer to it.
Only references among the given entities count, and an entity's references to itself do not. Among
entities that become ready together the declared position decides. -/

namespace Dependency

/-- Position in the declared order; names that are not declared come last. -/
def rank (declared : List String) (name : String) : Nat :=
  let positions := Entries.ofPairs declared.zipIdx
  (Entries.get? name positions).getD positions.length

def sortByRank (declared : List String) (names : List String) : List String :=
  names.mergeSort fun a b => decide (rank declared a ≤ rank declared b)

/-- The other entities of the list that an entity refers to, each once. -/
def targets (entities : List Entity) (e : Entity) : List String :=
  ((e.references.map (·.target)).filter fun t =>
    t ≠ e.name && entities.any (·.name = t)).eraseDups

/-- The sorter of the entities, each waiting for the names that `listing` lists for it. -/
def sorter (listing : Entity → List String) (declared : List String) (entities : List Entity) :
    Sorter :=
  .ofPredecessors (entities.map fun e => (e.name, sortByRank declared (listing e)))

/-- The entities of the given names; the last one counts where a name is repeated. -/
def byName? (entities : List Entity) (names : List String) : Option (List Entity) :=
  let entries := Entries.ofPairs (entities.map fun e => (e.name, e))
  names.mapM fun n => Entries.get? n entries

/-- The entities with targets first, or a cycle of references. `listing` lists the targets of an
entity in any order. A sorter that is used in the wrong way would leave no cycle to show. -/
def orderFrom (listing : Entity → List String) (entities : List Entity) (declared : List String) :
    Except (List String) (List Entity) := do
  let prepared ← (sorter listing declared entities).prepare
  let ordered := do
    let names ← prepared.drain? (sortByRank declared) prepared.nodes.length
    byName? entities names
  match ordered with
  | some ordered => .ok ordered
  | none => .error []

/-- The entities with targets first, or a cycle of references. -/
def order (entities : List Entity) (declared : List String) : Except (List String) (List Entity) :=
  orderFrom (targets entities) entities declared

end Dependency

/-! ## Steps -/

/-- The types a column can change to with its data kept. -/
def LogicalType.conversions : LogicalType → List LogicalType
  | .bool => [.int, .bigint, .text]
  | .int => [.bigint, .real, .text, .bool]
  | .bigint => [.int, .real, .text]
  | .real => [.int, .bigint, .text]
  | .text => [.int, .bigint, .real, .json]
  | .date => [.timestamp, .text]
  | .timestamp => [.date, .text]
  | .uuid => [.text]
  | .json => [.text]
  | .blob => []

def LogicalType.canConvert (old new : LogicalType) : Bool := old = new || new ∈ old.conversions

namespace Diff

def flag (b : Bool) : String := if b then "True" else "False"

/-- What is fixed about a field once its table exists. -/
def identityText (f : Field) : String :=
  s!"primary_key={flag f.primaryKey}, auto={flag f.auto}"

def keepsIdentity (old new : Field) : Bool :=
  old.primaryKey = new.primaryKey && old.auto = new.auto &&
    !(new.primaryKey && old.type ≠ new.type)

/-- The change of a field present on both sides, if there is one. -/
def alteration (entity : String) (old new : Field) : Except DiffFault (Option Step) :=
  if old.same new then .ok none
  else if !keepsIdentity old new then
    .error (.unsupported entity new.name (identityText old) (identityText new))
  else if !old.type.canConvert new.type then
    .error (.unsupported entity new.name old.type.name new.type.name)
  else .ok (some (.alterField entity old new))

/-- The steps of a difference by the phase they belong to. -/
structure Phases where
  removeLinks : List Step := []
  removeReferences : List Step := []
  removeFields : List Step := []
  addFields : List Step := []
  alterFields : List Step := []
  alterReferences : List Step := []
  addReferences : List Step := []
  addLinks : List Step := []

def Phases.append (a b : Phases) : Phases where
  removeLinks := a.removeLinks ++ b.removeLinks
  removeReferences := a.removeReferences ++ b.removeReferences
  removeFields := a.removeFields ++ b.removeFields
  addFields := a.addFields ++ b.addFields
  alterFields := a.alterFields ++ b.alterFields
  alterReferences := a.alterReferences ++ b.alterReferences
  addReferences := a.addReferences ++ b.addReferences
  addLinks := a.addLinks ++ b.addLinks

def removedFields (old new : Entity) : List Step :=
  (old.fields.filter fun f => (new.field? f.name).isNone).map (.removeField old.name)

def addedFields (old new : Entity) : List Step :=
  (new.fields.filter fun f => (old.field? f.name).isNone).map (.addField old.name)

def alteredFields (old new : Entity) : Except DiffFault (List Step) := do
  let steps ← new.fields.mapM fun f =>
    match old.field? f.name with
    | none => .ok none
    | some before => alteration old.name before f
  .ok (steps.filterMap id)

/-- Whether two relationships are single references to one target. -/
def altersInPlace : Relationship → Relationship → Bool
  | .single a, .single b => a.target = b.target
  | _, _ => false

/-- Whether `r` has to go or to come, its counterpart being `other`. -/
def isReplaced (r : Relationship) : Option Relationship → Bool
  | none => true
  | some other => other ≠ r && !altersInPlace other r

def replaced (these others : Entity) : List Relationship :=
  these.relationships.filter fun r => isReplaced r (others.relationship? r.name)

def alteredReference (name : String) (new : Entity) (r : Relationship) : Option Step :=
  match r, new.relationship? r.name with
  | .single old, some (.single now) =>
    if old ≠ now ∧ old.target = now.target then some (.alterReference name old now) else none
  | _, _ => none

def isMany : Relationship → Bool
  | .many _ => true
  | .single _ => false

/-- The phases of an entity present on both sides. -/
def ofEntity (old new : Entity) : Except DiffFault Phases := do
  let altered ← alteredFields old new
  let gone := replaced old new
  let come := replaced new old
  .ok {
    removeLinks := (gone.filter isMany).map (.removeRelationship old.name)
    removeReferences := (gone.filter (!isMany ·)).map (.removeRelationship old.name)
    removeFields := removedFields old new
    addFields := addedFields old new
    alterFields := altered
    alterReferences := old.relationships.filterMap (alteredReference old.name new)
    addReferences := (come.filter (!isMany ·)).map (.addRelationship old.name)
    addLinks := (come.filter isMany).map (.addRelationship old.name) }

def linkSteps (make : String → Relationship → Step) (e : Entity) : List Step :=
  e.links.map fun l => make e.name (.many l)

def created (current desired : Schema) : List Entity :=
  desired.entities.filter fun e => !current.contains e.name

/-- The pairs of entities present on both sides, in the desired order. -/
def kept (current desired : Schema) : List (Entity × Entity) :=
  desired.entities.filterMap fun e => (current.entity? e.name).map (·, e)

def orderOf (entities : List Entity) (declared : Schema) : Except DiffFault (List Entity) :=
  (Dependency.order entities declared.names).mapError .cyclic

end Diff

open Diff in
/-- The steps that turn `current` into `desired`. -/
def diff (current desired : Schema) : Except DiffFault (List Step) := do
  let dropped := created desired current
  let fresh := created current desired
  let phases ← (kept current desired).mapM fun (old, new) => ofEntity old new
  let all := phases.foldl Phases.append {}
  let dropOrder ← orderOf dropped current
  let createOrder ← orderOf fresh desired
  .ok (dropped.flatMap (linkSteps .removeRelationship) ++ all.removeLinks ++ all.removeReferences ++
    all.removeFields ++ dropOrder.reverse.map (fun e => .dropEntity e.withoutLinks) ++
    createOrder.map (fun e => .createEntity e.withoutLinks) ++ all.addFields ++ all.alterFields ++
    all.alterReferences ++ all.addReferences ++ all.addLinks ++
    fresh.flatMap (linkSteps .addRelationship))

end SchemaLedger
