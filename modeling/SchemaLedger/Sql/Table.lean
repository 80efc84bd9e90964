import SchemaLedger.Schema.Basic
import SchemaLedger.Sql.Identifier
import SchemaLedger.Sql.Literal
import SchemaLedger.Sql.Template
import SchemaLedger.Sql.Type

set_option autoImplicit false

/-!
# Tables

The tables of a schema: one for each entity, and one for each many-to-many relationship. A table is
data; `createTable` is its text. Tables refer to each other by name, and a reference is resolved
among the tables that are defined together.
-/
namespace SchemaLedger.Sql

structure Column where
  name : String
  type : LogicalType
  /-- Whether the database counts the values. -/
  serial : Bool := false
  /-- An integer key of SQLite is its row number, whatever its logical type. -/
  rowNumber : Bool := false
  default : Option String := none
  nullable : Bool := false
  deriving DecidableEq

structure UniqueKey where
  constraint : String
  column : String
  deriving DecidableEq

structure ForeignKey where
  column : String
  table : String
  targetColumn : String
  deriving DecidableEq

structure Table where
  name : String
  columns : List Column
  primaryKey : List String
  uniques : List UniqueKey := []
  foreignKeys : List ForeignKey := []
  deriving DecidableEq

/-- The name of the constraint on a unique field; a rebuilt table keeps it. -/
def uniqueConstraintName (entity field : String) : String := s!"uq_{entity}_{field}"

def Table.columnNames (t : Table) : List String := t.columns.map (·.name)

namespace Table

def fieldColumn (d : Dialect) (f : Field) : Result Column := do
  let default ← defaultLiteral d f
  .ok { name := f.name, type := f.type, serial := f.auto && f.type.isSerial,
        rowNumber := d = .sqlite && f.auto && f.type = .bigint, default, nullable := f.nullable }

/-- The key that a reference to an entity stores. -/
def targetKey (s : Schema) (target : String) : Result Field := do
  let e ← liftSchema (s.entity target)
  match e.key? with
  | some key => .ok key
  | none => .error (.defect .value "")

def referenceColumn (s : Schema) (r : Reference) : Result Column := do
  let key ← targetKey s r.target
  .ok { name := r.name, type := key.type, nullable := r.nullable }

/-- The table of an entity under a given name. The references are resolved in `s`. -/
def ofEntity (d : Dialect) (s : Schema) (name : String) (e : Entity) : Result Table := do
  let fields ← e.fields.mapM (fieldColumn d)
  let references ← e.references.mapM (referenceColumn s)
  let foreignKeys ← e.references.mapM fun r => do
    let key ← targetKey s r.target
    Except.ok (ForeignKey.mk r.name r.target key.name)
  if e.columnNames.any (· = "") then .error (.defect .argument "")
  else
    .ok { name, columns := fields ++ references, primaryKey := e.keys.map (·.name),
          uniques := (e.fields.filter fun f => f.unique && !f.primaryKey).map fun f =>
            ⟨uniqueConstraintName e.name f.name, f.name⟩,
          foreignKeys }

/-- The table that stores which owners have which targets. -/
def ofLink (s : Schema) (e : Entity) (l : ManyLink) : Result Table := do
  let owner ← targetKey s e.name
  let target ← targetKey s l.target
  .ok { name := joinEntityName e.name l.name,
        columns := [{ name := "owner", type := owner.type }, { name := "has", type := target.type }],
        primaryKey := ["owner", "has"],
        foreignKeys := [⟨"owner", e.name, owner.name⟩, ⟨"has", l.target, target.name⟩] }

end Table

/-- The tables that are defined together. -/
abbrev Tables := List Table

namespace Tables

def find? (ts : Tables) (name : String) : Option Table := List.find? (·.name = name) ts

def ofSchema (d : Dialect) (s : Schema) : Result Tables := do
  let entities ← s.entities.mapM fun e => Table.ofEntity d s e.name e
  let joins ← (s.entities.flatMap fun e => e.links.map (e, ·)).mapM fun (e, l) => Table.ofLink s e l
  .ok (entities ++ joins)

/-- The table and column that a dotted name stands for: the column is what follows the last dot. -/
def splitTarget (target : String) : String × String :=
  let cs := target.toList.reverse
  let column := (cs.takeWhile (· ≠ '.')).reverse
  let table := ((cs.dropWhile (· ≠ '.')).drop 1).reverse
  (String.ofList table, String.ofList column)

/-- A foreign key with its target found among the tables by its dotted name. -/
def resolve (ts : Tables) (k : ForeignKey) : Result ForeignKey :=
  let (table, column) := splitTarget s!"{k.table}.{k.targetColumn}"
  match ts.find? table with
  | none => .error (.defect .noTable "")
  | some t =>
    if column ∈ t.columnNames then .ok { k with table, targetColumn := column }
    else .error (.defect .noColumn "")

end Tables

/-! ## Text -/

/-- Whether a literal of SQLite has to stand in parentheses: it is no text and holds a sign or point. -/
def needsParentheses (literal : String) : Bool :=
  match literal.toList.head? with
  | some '\'' => false
  | some '"' => false
  | some '(' => false
  | _ => literal.toList.any (!Text.isWordChar ·)

def defaultClause (d : Dialect) (literal : String) : String :=
  let expanded := expandTemplate d literal
  if d = .sqlite && needsParentheses expanded then s!" DEFAULT ({expanded})"
  else s!" DEFAULT {expanded}"

namespace Column

def typeText (d : Dialect) (c : Column) : String :=
  if c.rowNumber then serialName .sqlite .int
  else if c.serial && d = .postgresql then serialName d c.type
  else typeName d c.type

/-- A column inside CREATE TABLE. A counted column of PostgreSQL has no other default. -/
def definition (d : Dialect) (c : Column) : String :=
  let default := match c.default with
    | some literal => if c.serial && d = .postgresql then "" else defaultClause d literal
    | none => ""
  quote d c.name ++ " " ++ c.typeText d ++ default ++ (if c.nullable then "" else " NOT NULL")

/-- A column inside ALTER TABLE. -/
def addition (d : Dialect) (c : Column) : String :=
  let default := match c.default with
    | some literal => s!" DEFAULT {literal}"
    | none => ""
  quote d c.name ++ " " ++ typeName d c.type ++ default ++ (if c.nullable then "" else " NOT NULL")

end Column

def columnList (d : Dialect) (names : List String) : String := commaList (names.map (quote d))

def UniqueKey.definition (d : Dialect) (u : UniqueKey) : Result String :=
  if d.longestName < u.constraint.length then .error (.defect .identifier
    s!"Identifier '{u.constraint}' exceeds maximum length of {d.longestName} characters")
  else .ok (s!"CONSTRAINT {quote d u.constraint} UNIQUE ({quote d u.column})")

def ForeignKey.definition (d : Dialect) (k : ForeignKey) : String :=
  s!"FOREIGN KEY({quote d k.column}) REFERENCES {quote d k.table} ({quote d k.targetColumn})"

/-- The statement that creates a table among others. -/
def createTable (d : Dialect) (ts : Tables) (t : Table) : Result String := do
  let uniques ← t.uniques.mapM (·.definition d)
  let foreignKeys ← t.foreignKeys.mapM ts.resolve
  let items := t.columns.map (·.definition d) ++
    [s!"PRIMARY KEY ({columnList d t.primaryKey})"] ++ uniques ++
    foreignKeys.map (·.definition d)
  let body := ", \n\t".intercalate items
  .ok (s!"CREATE TABLE {quote d t.name} (\n\t{body}\n)")

end SchemaLedger.Sql
