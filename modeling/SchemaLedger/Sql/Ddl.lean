import SchemaLedger.Migration.Step
import SchemaLedger.Sql.Conversion
import SchemaLedger.Sql.Table

set_option autoImplicit false

/-!
# Statements of a step

The statements that carry out a migration step on a database, as data and as text. PostgreSQL changes
a table in place. SQLite can only add a column that needs no check of the rows; for anything else it
makes a new table beside the old one, copies the rows, and puts the new table in its place.
-/
namespace SchemaLedger.Sql

inductive Statement where
  | createTable (others : Tables) (table : Table)
  | dropTable (name : String)
  | addColumn (table : String) (column : Column) (references : Option (String × String))
  | dropColumn (table column : String)
  | addUnique (table : String) (key : UniqueKey)
  | dropConstraint (table constraint : String)
  | dropDefault (table column : String)
  | setDefault (table column literal : String)
  | changeType (table column : String) (type : LogicalType) (value : Expr)
  | fillNulls (table column literal : String)
  | setNotNull (table column : String)
  | dropNotNull (table column : String)
  | copyRows (source target : String) (columns : List (String × Expr))
  | renameTable (name newName : String)

namespace Statement

def references (d : Dialect) : Option (String × String) → String
  | none => ""
  | some (table, column) => s!" REFERENCES {quote d table} ({quote d column})"

def render (d : Dialect) : Statement → Result String
  | .createTable others table => Sql.createTable d others table
  | .dropTable name => .ok s!"DROP TABLE {quote d name}"
  | .addColumn table column target =>
    .ok (s!"ALTER TABLE {quote d table} ADD COLUMN {column.addition d}" ++ references d target)
  | .dropColumn table column => .ok s!"ALTER TABLE {quote d table} DROP COLUMN {quote d column}"
  | .addUnique table key =>
    .ok (s!"ALTER TABLE {quote d table} ADD CONSTRAINT {quote d key.constraint} " ++
      s!"UNIQUE ({quote d key.column})")
  | .dropConstraint table constraint =>
    .ok s!"ALTER TABLE {quote d table} DROP CONSTRAINT {quote d constraint}"
  | .dropDefault table column =>
    .ok s!"ALTER TABLE {quote d table} ALTER COLUMN {quote d column} DROP DEFAULT"
  | .setDefault table column literal =>
    .ok s!"ALTER TABLE {quote d table} ALTER COLUMN {quote d column} SET DEFAULT {literal}"
  | .changeType table column type value =>
    .ok (s!"ALTER TABLE {quote d table} ALTER COLUMN {quote d column} " ++
      s!"TYPE {typeName d type} USING {value.render d}")
  | .fillNulls table column literal =>
    let c := quote d column
    .ok s!"UPDATE {quote d table} SET {c} = {literal} WHERE {c} IS NULL"
  | .setNotNull table column =>
    .ok s!"ALTER TABLE {quote d table} ALTER COLUMN {quote d column} SET NOT NULL"
  | .dropNotNull table column =>
    .ok s!"ALTER TABLE {quote d table} ALTER COLUMN {quote d column} DROP NOT NULL"
  | .copyRows source target columns =>
    let names := columnList d (columns.map (·.1))
    let values := commaList (columns.map fun c => c.2.render d)
    .ok s!"INSERT INTO {quote d target} ({names}) SELECT {values} FROM {quote d source}"
  | .renameTable name newName => .ok s!"ALTER TABLE {quote d name} RENAME TO {quote d newName}"

end Statement

namespace Ddl

/-- A field as a column that is added to a table. -/
def addedColumn (d : Dialect) (f : Field) : Result Column := do
  let default ← defaultLiteral d f
  .ok { name := f.name, type := f.type, default, nullable := f.nullable }

/-- A reference as a column that is added to a table, and what it refers to. -/
def addedReference (after : Schema) (r : Reference) : Result (Column × String × String) := do
  let key ← Table.targetKey after r.target
  .ok ({ name := r.name, type := key.type, nullable := r.nullable }, r.target, key.name)

/-! ## SQLite -/

def replacementName (entity : String) : String := "_sw_new_" ++ entity

/-- The columns of the new table that the old one has too, each with the value it is copied from. -/
def copiedColumns (old new : Entity) (changed : List (String × Expr)) : List (String × Expr) :=
  (new.columnNames.filter (· ∈ old.columnNames)).map fun c =>
    (c, (Entries.get? c changed).getD (.column c))

def rebuild (before after : Schema) (name : String) (changed : List (String × Expr)) :
    Result (List Statement) := do
  let others ← Tables.ofSchema .sqlite before
  let new ← liftSchema (after.entity name)
  if (others.find? (replacementName name)).isSome then .error (.defect .duplicateTable "")
  else
    let table ← Table.ofEntity .sqlite after (replacementName name) new
    let old ← liftSchema (before.entity name)
    let copied := copiedColumns old new changed
    let copy := if copied.isEmpty then [] else [.copyRows name table.name copied]
    .ok ([.createTable (others ++ [table]) table] ++ copy ++
      [.dropTable name, .renameTable table.name name])

/-- The new value of an altered column. -/
def alteredValue (old new : Field) : Result Expr := do
  let converted :=
    if old.type = new.type then Expr.column new.name
    else Conversion.expression .sqlite new.name old.type new.type
  let default ← defaultLiteral .sqlite new
  match default, new.nullable with
  | some literal, false => .ok (.call "COALESCE" [converted, .literal literal])
  | _, _ => .ok converted

def sqlite (before after : Schema) : Step → Result (List Statement)
  | .addField entity f =>
    if (f.nullable || f.hasDefault) && !f.unique then do
      let column ← addedColumn .sqlite f
      .ok [.addColumn entity column none]
    else rebuild before after entity []
  | .addRelationship entity (.single r) =>
    if r.nullable then do
      let (column, target) ← addedReference after r
      .ok [.addColumn entity column (some target)]
    else rebuild before after entity []
  | .alterField entity old new => do
    let value ← alteredValue old new
    rebuild before after entity [(new.name, value)]
  | step => rebuild before after step.entityName []

/-! ## PostgreSQL -/

def addUnique (entity field : String) : Statement :=
  .addUnique entity ⟨uniqueConstraintName entity field, field⟩

/-- The changes of one column. Its old default goes before its type changes, since it may not convert;
nulls are filled before they are forbidden. -/
def alterColumn (entity : String) (old new : Field) : Result (List Statement) := do
  let column := new.name
  let typeChanged := old.type ≠ new.type
  let defaultChanged := typeChanged || !old.default.same new.default
  let default ← defaultLiteral .postgresql new
  let dropped := if old.hasDefault && defaultChanged then [Statement.dropDefault entity column] else []
  let retyped :=
    if typeChanged then
      [Statement.changeType entity column new.type
        (Conversion.expression .postgresql column old.type new.type)]
    else []
  let set := match default with
    | some literal => if defaultChanged then [Statement.setDefault entity column literal] else []
    | none => []
  let filled := match default with
    | some literal => [Statement.fillNulls entity column literal]
    | none => []
  let nullability :=
    if old.nullable && !new.nullable then filled ++ [.setNotNull entity column]
    else if new.nullable && !old.nullable then [.dropNotNull entity column]
    else []
  let changes := dropped ++ retyped ++ set ++ nullability
  if !new.primaryKey && old.unique ≠ new.unique then
    if new.unique then .ok (changes ++ [addUnique entity column])
    else .ok (.dropConstraint entity (uniqueConstraintName entity column) :: changes)
  else .ok changes

def postgres (after : Schema) : Step → Result (List Statement)
  | .addField entity f => do
    let column ← addedColumn .postgresql f
    .ok (.addColumn entity column none :: (if f.unique then [addUnique entity f.name] else []))
  | .removeField entity f => .ok [.dropColumn entity f.name]
  | .alterField entity old new => alterColumn entity old new
  | .addRelationship entity (.single r) => do
    let (column, target) ← addedReference after r
    .ok [.addColumn entity column (some target)]
  | .alterReference entity _ new =>
    .ok [if new.nullable then .dropNotNull entity new.name else .setNotNull entity new.name]
  | .removeRelationship entity r => .ok [.dropColumn entity r.name]
  | _ => .ok []

/-! ## Both -/

/-- The table of a name among all tables of a schema. -/
def tableOf (ts : Tables) (name : String) : Result Statement :=
  match ts.find? name with
  | some t => .ok (.createTable ts t)
  | none => .error (.defect .key "")

def alterEntity (d : Dialect) (before after : Schema) (step : Step) : Result (List Statement) :=
  match d with
  | .sqlite => sqlite before after step
  | .postgresql => postgres after step

/-- The statements of a step on a database with schema `before`. -/
def statements (d : Dialect) (before : Schema) (step : Step) : Result (List Statement) := do
  let after ← liftSchema (step.apply before)
  match step with
  | .createEntity e => do
    let ts ← Tables.ofSchema d after
    (e.name :: e.links.map fun l => joinEntityName e.name l.name).mapM (tableOf ts)
  | .dropEntity e =>
    .ok (e.links.map (fun l => .dropTable (joinEntityName e.name l.name)) ++ [.dropTable e.name])
  | .addRelationship entity (.many l) => do
    let ts ← Tables.ofSchema d after
    (tableOf ts (joinEntityName entity l.name)).map ([·])
  | .removeRelationship entity (.many l) => .ok [.dropTable (joinEntityName entity l.name)]
  | step => alterEntity d before after step

/-- The texts of the statements of a step. -/
def render (d : Dialect) (before : Schema) (step : Step) : Result (List String) := do
  let list ← statements d before step
  list.mapM (·.render d)

end Ddl

end SchemaLedger.Sql
