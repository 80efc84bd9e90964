import SchemaLedger.Error
import SchemaLedger.Schema.Description

set_option autoImplicit false

/-!
# Record handles

One record of an entity in memory: a value for each column, the columns assigned since the last save
or load, and what has been looked up along its relationships. A handle begins new, is persisted by
its first save and ends deleted; the key of a persisted record is fixed.
-/
namespace SchemaLedger

/-- What a relationship led to when it was last followed: other handles by number. -/
inductive Related where
  | nothing
  | one (handle : Nat)
  | many (handles : List Nat)
  deriving DecidableEq

structure Handle where
  entity : Entity
  values : Entries
  dirty : List String := []
  state : RecordState := .new
  related : List (String × Related) := []

namespace Handle

def keyName (h : Handle) : String :=
  match h.entity.key? with
  | some key => key.name
  | none => ""

def value? (h : Handle) (column : String) : Option Value := Entries.get? column h.values

/-- The primary key, null while the database has not chosen it. -/
def key (h : Handle) : Value := (h.value? h.keyName).getD .null

def keyPending (h : Handle) : Bool := h.key.isNull && h.entity.key?.any (·.auto)

/-- A column that is assigned twice counts once. -/
def markDirty (column : String) (dirty : List String) : List String :=
  if column ∈ dirty then dirty else dirty ++ [column]

def unknown {α : Type} (h : Handle) (column : String) : Result α :=
  .error (.schema (.fieldNotFound column h.entity.name h.entity.columnNames))

/-- Every column with null. -/
def blank (e : Entity) (state : RecordState) : Handle :=
  { entity := e, values := e.columnNames.map fun c => (c, .null), state }

/-- A value given at the start; only a new record has it still to save. -/
def give (h : Handle) (column : String) (v : Value) : Result Handle :=
  if (h.value? column).isSome then
    .ok { h with
      values := Entries.put column v h.values
      dirty := if h.state = .new then markDirty column h.dirty else h.dirty }
  else h.unknown column

def make (e : Entity) (values : Entries) (state : RecordState := .new) : Result Handle :=
  values.foldlM (fun h (column, v) => h.give column v) (blank e state)

def ensureWritable (h : Handle) : Result Unit :=
  if h.state = .deleted then .error (.record (.deleted h.entity.name h.key)) else .ok ()

def get (h : Handle) (column : String) : Result Value :=
  match h.value? column with
  | some v => .ok v
  | none => h.unknown column

/-- Assigns a column. What its reference led to is forgotten. -/
def set (h : Handle) (column : String) (v : Value) : Result Handle := do
  h.ensureWritable
  let _ ← h.get column
  if column = h.keyName ∧ h.state = .persisted then
    .error (.record (.keyFixed h.entity.name column))
  else
    .ok { h with
      values := Entries.put column v h.values
      dirty := markDirty column h.dirty
      related := Entries.erase column h.related }

/-! ## Transitions -/

/-- The record is in the database, with these values where the database chose them. -/
def persisted (h : Handle) (values : Entries := []) : Handle :=
  { h with
    values := values.foldl (fun es (column, v) => Entries.put column v es) h.values
    dirty := []
    state := .persisted }

def deleted (h : Handle) : Handle := { h with dirty := [], state := .deleted, related := [] }

def cached? (h : Handle) (relationship : String) : Option Related :=
  Entries.get? relationship h.related

def cache (h : Handle) (relationship : String) (r : Related) : Handle :=
  { h with related := Entries.put relationship r h.related }

def forget (h : Handle) (relationship : String) : Handle :=
  { h with related := Entries.erase relationship h.related }

/-! ## Members -/

def display (h : Handle) : String := s!"<{h.entity.name} {h.state.name} pk={h.key.display}>"

def sortedDirty (h : Handle) : List String := h.dirty.mergeSort fun a b => decide (a ≤ b)

/-- What a handle has besides its columns. -/
def ownMember? (h : Handle) (name : String) : Option Value :=
  match name with
  | "entity" => some h.entity.toValue
  | "entity_name" => some (.text h.entity.name)
  | "state" => some (.text h.state.name)
  | "pk" => some h.key
  | "pk_pending" => some (.bool h.keyPending)
  | "dirty" => some (textList h.sortedDirty)
  | "values" => some (.object h.values)
  | "ensure_writable" => some (.bool (h.state ≠ .deleted))
  | "_entity" => some h.entity.toValue
  | "_values" => some (.object h.values)
  | "_dirty" => some (textList h.sortedDirty)
  | "_state" => some (.text h.state.name)
  | _ => none

def member (h : Handle) (name : String) : Result Value :=
  match h.ownMember? name with
  | some v => .ok v
  | none =>
    if name.startsWith "_" then .error (.defect .attribute name)
    else
      match h.value? name with
      | some v => .ok v
      | none =>
        .error (.noAttribute (s!"'{h.entity.name}' has no field '{name}'. Available fields: " ++
          commaList (h.values.map (·.1))))

end Handle

/-! ## Insertions

What a new record is inserted with. A key that the program makes up is an identifier; one that the
database counts is left out, and so is every column with a default that was never assigned. -/

structure Insertion where
  values : Entries
  /-- Columns that are left to their defaults. -/
  defaulted : List String

namespace Handle

/-- Whether the program makes up the key. -/
def needsIdentifier (h : Handle) : Bool :=
  h.key.isNull && h.entity.key?.any fun key => key.auto && key.type = .uuid

/-- The values of a new record with its key settled; `fresh` is the identifier if one is needed. -/
def keyed (h : Handle) (fresh : Uuid) : Result Entries :=
  if !h.key.isNull then .ok h.values
  else if h.needsIdentifier then .ok (Entries.put h.keyName (.uuid fresh) h.values)
  else if h.entity.key?.any (·.auto) then .ok (Entries.erase h.keyName h.values)
  else .error (.record (.noKey h.entity.name h.keyName))

/-- Whether a field is left to its default. -/
def leavesDefault (h : Handle) (values : Entries) (f : Field) : Bool :=
  !f.default.isNull && !h.dirty.contains f.name &&
    ((Entries.get? f.name values).getD .null).isNull

/-- Leaves a column out of the values, in which it has to be. -/
def leaveOut (values : Entries) (column : String) : Result Entries :=
  if (Entries.get? column values).isSome then .ok (Entries.erase column values)
  else .error (.defect .key column)

def insertion (h : Handle) (fresh : Uuid) : Result Insertion := do
  let values ← h.keyed fresh
  let defaulted := (h.entity.fields.filter (h.leavesDefault values)).map (·.name)
  let values ← defaulted.foldlM leaveOut values
  .ok ⟨values, defaulted⟩

end Handle

end SchemaLedger
