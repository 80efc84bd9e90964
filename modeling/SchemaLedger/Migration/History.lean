import SchemaLedger.Migration.Batch

set_option autoImplicit false

/-!
# History

What has been applied to a database, and what is to come. The recorded steps are the source of truth:
replayed from the empty schema they give the schema of the database. Batches come either from the
difference to a desired schema or from a fixed list, of which the recorded ones must be the first.
-/
namespace SchemaLedger

/-- An applied batch, as the history table records it. -/
structure Applied where
  version : Int
  name : String
  steps : List Step
  appliedAt : Timestamp

namespace Applied

def schemaAt (records : List Applied) : Except SchemaFault Schema :=
  schemaOf (records.flatMap (·.steps)) ((records.getLast?.map (·.version)).getD 0)

def describe (r : Applied) : List String := r.steps.map (·.describe)

def toValue (r : Applied) : Value :=
  .object [("version", .int r.version), ("name", .text r.name), ("steps", textList r.describe),
    ("applied_at", .text (r.appliedAt.iso "T"))]

end Applied

/-- Where the batches of a migrator come from. -/
inductive Source where
  | desired (schema : Schema)
  | batches (list : List Batch)

structure Migrator where
  source : Source
  label : String := "auto"

namespace Migrator

def increasing : List Int → Bool
  | a :: b :: rest => a < b && increasing (b :: rest)
  | _ => true

/-- Exactly one source must be given, and the versions of a list must increase. -/
def make (desired : Option Schema) (batches : Option (List Batch)) (label : String) :
    Except MigrationFault Migrator :=
  match desired, batches with
  | some schema, none => .ok ⟨.desired schema, label⟩
  | none, some list =>
    if increasing (list.map (·.version)) then .ok ⟨.batches list, label⟩
    else .error (.versionOrder (list.map (·.version)))
  | _, _ => .error .oneSource

/-- The first record that differs in version or name from the batch at its place. -/
def divergence : List Applied → List Batch → Option MigrationFault
  | r :: rs, b :: bs =>
    if r.version = b.version ∧ r.name = b.name then divergence rs bs
    else some (.divergent r.version r.name b.version b.name)
  | _, _ => none

/-- The batches still to be applied after the recorded ones. -/
def pending (m : Migrator) (now : Timestamp) (records : List Applied) : Result (List Batch) :=
  match m.source with
  | .desired schema => do
    let current ← liftSchema (Applied.schemaAt records)
    let batch ← Batch.between now current schema m.label (some (current.version + 1))
    .ok batch.toList
  | .batches list =>
    if list.length < records.length then
      .error (.migration (.surplus records.length list.length (records.map (·.name))))
    else
      match divergence records list with
      | some fault => .error (.migration fault)
      | none => .ok (list.drop records.length)

end Migrator

end SchemaLedger
