import SchemaLedger.Query.Compile
import SchemaLedger.Record.Handle
import SchemaLedger.Session.Transaction

set_option autoImplicit false

/-!
# Records in a database

Loading, saving and deleting single records, and following their relationships. Every operation runs
on a connection with an open transaction. What a lookup finds is a handle of its own, never one that
was given out before; only what a relationship led to is remembered, by the handle it starts from.
-/
namespace SchemaLedger

/-! ## Rows -/

/-- A row of the database as the values of the selected columns. -/
def Query.Compiled.read (d : Dialect) (q : Query.Compiled) (cells : List Value) : Result Entries := do
  let values ← Sql.Binding.readRow d (q.select.outputs.map (·.column.type)) cells
  q.decode values

namespace Session

variable {σ : Type}

/-- All rows of a compiled query. -/
def rows (c : Nat) (q : Query.Compiled) : Session σ (List Entries) := do
  let d ← dialect
  let reply ← execute c (.select q.select)
  ofResult (reply.rows.mapM (q.read d))

/-- The first row of a compiled query; the others are not looked at. -/
def firstRow (c : Nat) (q : Query.Compiled) : Session σ (Option Entries) := do
  let d ← dialect
  let reply ← execute c (.select q.select)
  ofResult (reply.rows.head?.mapM (q.read d))

def compile (s : Schema) (p : Query.Plan) : Session σ Query.Compiled := do
  ofResult (p.compile (← dialect) s)

def query (s : Schema) (p : Query.Plan) (c : Nat) : Session σ (List Entries) := do
  rows c (← compile s p)

def queryFirst (s : Schema) (p : Query.Plan) (c : Nat) : Session σ (Option Entries) := do
  firstRow c (← compile s p)

end Session

open Sql (Table Tables Condition ColumnRef)

namespace Sql

/-- A column of a table that has to have it. -/
def Table.columnOf (t : Table) (name : String) : Result ColumnRef :=
  match t.column? name with
  | some c => .ok c
  | none => .error (.defect .key name)

/-- The assignments for a table, which has to have all the columns. -/
def Table.assign (t : Table) (values : Entries) : Result (List Assignment) :=
  if values.all fun e => e.1 ∈ t.columnNames then .ok (Assignment.ofTable t values)
  else .error (.defect .statement "")

/-- The table of an entity of the schema. -/
def Tables.ofEntity (ts : Tables) (s : Schema) (entity : String) : Result Table := do
  let _ ← liftSchema (s.entity entity)
  match ts.find? entity with
  | some t => .ok t
  | none => .error (.defect .key entity)

end Sql

namespace Session

variable {σ : Type}

/-- A schema with its tables in the dialect of the session. -/
structure Store where
  schema : Schema
  tables : Tables

def store (s : Schema) : Session σ Store := do
  let tables ← ofResult (Tables.ofSchema (← dialect) s)
  pure ⟨s, tables⟩

/-! ## Lookups -/

/-- The record of a key, if there is one. -/
def load (s : Schema) (entity : String) (key : Value) (c : Nat) : Session σ (Option Handle) := do
  let e ← ofResult (liftSchema (s.entity entity))
  let predicate := Query.Expr.comparing (Query.keyName e) .eq (.bare key)
  let row ← queryFirst s { entity, predicate := some predicate } c
  ofResult (row.mapM fun values => Handle.make e values .persisted)

/-- The records that a plan selects, each with all its columns. -/
def find (s : Schema) (p : Query.Plan) (c : Nat) : Session σ (List Handle) := do
  let e ← ofResult (liftSchema (s.entity p.entity))
  let rows ← query s (p.select []) c
  ofResult (rows.mapM fun values => Handle.make e values .persisted)

/-! ## Saving -/

/-- The condition that a table's row has the key of a record. -/
def keyCondition (t : Table) (h : Handle) : Result (ColumnRef × Condition) := do
  let key ← t.columnOf h.keyName
  .ok (key, .test (Sql.holding key h.key))

/-- The key that the database counted for the last insertion. -/
def countedKey (d : Dialect) (reply : Reply) : Value :=
  match d with
  | .sqlite => reply.counted
  | .postgresql => ((reply.rows.head?.bind (·.head?)).getD .null)

/-- The stored values of a record, which has to be there. -/
def reload (s : Schema) (entity : String) (key : Value) (c : Nat) : Session σ Entries := do
  match ← load s entity key c with
  | some h => pure h.values
  | none => throw (.record (.notFound key entity))

def insert (st : Store) (n : Nat) (c : Nat) : Session σ Unit := do
  let d ← dialect
  let h ← handle n
  let fresh ← if h.needsIdentifier then identifier else pure .zero
  let i ← ofResult (h.insertion fresh)
  let t ← ofResult (st.tables.ofEntity st.schema h.entity.name)
  let assignments ← ofResult (t.assign i.values)
  let counted := (Entries.get? h.keyName i.values).isNone
  let reply ← execute c (.insert
    { table := t.name, assignments, counted := if counted then some h.keyName else none })
  let values := if counted then Entries.put h.keyName (countedKey d reply) i.values else i.values
  if i.defaulted.isEmpty then update n (·.persisted values)
  else
    let key := (Entries.get? h.keyName values).getD .null
    let stored ← reload st.schema h.entity.name key c
    update n (·.persisted stored)

/-- How many rows hold a record; all columns but the key are written to them. -/
def overwrite (t : Table) (h : Handle) (c : Nat) : Session σ Int := do
  let d ← dialect
  let (key, condition) ← ofResult (keyCondition t h)
  let values := Entries.erase h.keyName h.values
  if values.isEmpty then
    let reply ← execute c (.select
      { outputs := [⟨key, none⟩], source := { table := t.name }, condition := some condition })
    let rows ← ofResult (reply.rows.mapM (Sql.Binding.readRow d [key.type]))
    pure rows.length
  else
    let assignments ← ofResult (t.assign values)
    let u : Sql.Update := { table := t.name, assignments, condition }
    if u.wellNamed d then
      let reply ← execute c (.update u)
      pure reply.changed
    else throw (.defect .statement "")

def saveChanges (st : Store) (n : Nat) (c : Nat) : Session σ Unit := do
  let h ← handle n
  let t ← ofResult (st.tables.ofEntity st.schema h.entity.name)
  let count ← overwrite t h c
  if count = 0 then throw (.record (.notFound h.key h.entity.name))
  update n (·.persisted)

/-- Writes a record: a new one is inserted, a saved one overwritten. -/
def save (st : Store) (n : Nat) (c : Nat) : Session σ Unit := do
  let h ← handle n
  ofResult h.ensureWritable
  if h.state = .new then insert st n c else saveChanges st n c

def delete (st : Store) (n : Nat) (c : Nat) : Session σ Unit := do
  let h ← handle n
  if h.state ≠ .persisted then throw (.record (.notSaved h.entity.name h.state))
  let t ← ofResult (st.tables.ofEntity st.schema h.entity.name)
  let (_, condition) ← ofResult (keyCondition t h)
  let reply ← execute c (.delete { table := t.name, condition })
  if reply.changed = 0 then throw (.record (.notFound h.key h.entity.name))
  update n (·.deleted)

/-! ## Relationships -/

def relationshipOf (h : Handle) (name : String) : Result Relationship :=
  match h.entity.relationship? name with
  | some r => .ok r
  | none =>
    .error (.schema (.fieldNotFound name h.entity.name (h.entity.relationships.map (·.name))))

/-- The handles of the targets that an owner is linked to. -/
def linked (s : Schema) (h : Handle) (l : ManyLink) (c : Nat) : Session σ Related := do
  let target ← ofResult (liftSchema (s.entity l.target))
  if h.state ≠ .persisted then pure (.many [])
  else
    let q ← ofResult (Query.compileRelated (← dialect) s h.entity.name l.name h.key)
    let found ← rows c q
    let handles ← ofResult (found.mapM fun values => Handle.make target values .persisted)
    pure (.many (← handles.mapM register))

/-- The handle of the record that a reference points to. -/
def referenced (s : Schema) (h : Handle) (r : Reference) (c : Nat) : Session σ Related := do
  let _ ← ofResult (liftSchema (s.entity r.target))
  let key ← ofResult (h.get r.name)
  if key.isNull then pure .nothing
  else
    match ← load s r.target key c with
    | some target => pure (.one (← register target))
    | none => pure .nothing

def follow (s : Schema) (h : Handle) (r : Relationship) (c : Nat) : Session σ Related :=
  match r with
  | .many l => linked s h l c
  | .single r => referenced s h r c

/-- Where a relationship leads. It is looked up once and remembered. -/
def related (s : Schema) (n : Nat) (name : String) (c : Nat) : Session σ Related := do
  let h ← handle n
  let r ← ofResult (relationshipOf h name)
  match h.cached? name with
  | some known => pure known
  | none => do
    let found ← follow s h r c
    update n (·.cache name found)
    pure found

/-- The join table of a link between two records, and the condition for its row. -/
def linkRow (st : Store) (h : Handle) (name : String) (target : Handle) :
    Result (Table × Condition) := do
  match ← relationshipOf h name with
  | .single _ => .error (.record (.notMany h.entity.name name))
  | .many l =>
    if target.entity.name ≠ l.target then
      .error (.record (.otherTarget h.entity.name name l.target target.entity.name))
    else
      match [h, target].find? (·.state ≠ .persisted) with
      | some unsaved => .error (.record (.unsaved unsaved.entity.name unsaved.state))
      | none =>
        match st.tables.find? (joinEntityName h.entity.name name) with
        | none => .error (.defect .key name)
        | some t => do
          let owner ← t.columnOf "owner"
          let has ← t.columnOf "has"
          .ok (t, .connect .and
            [.test (Sql.holding owner h.key), .test (Sql.holding has target.key)])

/-- The row of a link, after what was remembered of the relationship is forgotten. -/
def prepareLink (st : Store) (n : Nat) (name : String) (target : Nat) :
    Session σ (Table × Condition × Handle × Handle) := do
  let h ← handle n
  let t ← handle target
  let (table, condition) ← ofResult (linkRow st h name t)
  update n (·.forget name)
  pure (table, condition, h, t)

/-- Links a record to another. Whether it was not linked before. -/
def link (st : Store) (n : Nat) (name : String) (target : Nat) (c : Nat) : Session σ Bool := do
  let d ← dialect
  let (table, condition, h, t) ← prepareLink st n name target
  let owner ← ofResult (table.columnOf "owner")
  let reply ← execute c (.select
    { outputs := [⟨owner, none⟩], source := { table := table.name }, condition := some condition })
  match reply.rows with
  | row :: _ => do
    let _ ← ofResult (Sql.Binding.readRow d [owner.type] row)
    pure false
  | [] => do
    let assignments ← ofResult (table.assign [("owner", h.key), ("has", t.key)])
    let _ ← execute c (.insert { table := table.name, assignments })
    pure true

/-- Takes a link away. Whether there was one. -/
def unlink (st : Store) (n : Nat) (name : String) (target : Nat) (c : Nat) : Session σ Bool := do
  let (table, condition, _, _) ← prepareLink st n name target
  let reply ← execute c (.delete { table := table.name, condition })
  pure (decide (0 < reply.changed))

end Session

end SchemaLedger
