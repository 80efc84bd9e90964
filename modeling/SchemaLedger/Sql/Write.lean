import SchemaLedger.Sql.Condition
import SchemaLedger.Sql.Table

set_option autoImplicit false

/-!
# Writes

Insertions, updates and deletions as data, and their texts. What a column is given is a parameter
named after the column.
-/
namespace SchemaLedger.Sql

/-- A column and what it is given. -/
structure Assignment where
  column : String
  type : LogicalType
  value : Value

namespace Assignment

/-- The values for the columns of a table, in the order of the table. -/
def ofTable (t : Table) (values : Entries) : List Assignment :=
  t.columns.filterMap fun c => (Entries.get? c.name values).map (⟨c.name, c.type, ·⟩)

def parameter (a : Assignment) : Fragment :=
  [.parameter { stem := a.column, counted := false, type := a.type, value := a.value }]

def render (d : Dialect) (a : Assignment) : Fragment :=
  .ofText (quote d a.column ++ "=") ++ a.parameter

end Assignment

structure Insert where
  table : String
  assignments : List Assignment
  /-- A key that the database counts and the caller wants to know. -/
  counted : Option String := none

structure Update where
  table : String
  assignments : List Assignment
  condition : Condition

structure Delete where
  table : String
  condition : Condition

namespace Insert

def renderValues (d : Dialect) (i : Insert) : Fragment :=
  if i.assignments.isEmpty then .ofText " DEFAULT VALUES"
  else
    .ofText (s!" ({columnList d (i.assignments.map (·.column))}) VALUES ") ++
      .parenthesised (.join ", " (i.assignments.map (·.parameter)))

/-- PostgreSQL returns the counted key as a row; SQLite tells it besides. -/
def renderCounted (d : Dialect) (i : Insert) : Fragment :=
  match d, i.counted with
  | .postgresql, some key => .ofText s!" RETURNING {quote d i.table}.{quote d key}"
  | _, _ => []

def render (d : Dialect) (i : Insert) : Fragment :=
  .ofText s!"INSERT INTO {quote d i.table}" ++ i.renderValues d ++ i.renderCounted d

end Insert

def Update.render (d : Dialect) (u : Update) : Fragment :=
  .ofText s!"UPDATE {quote d u.table} SET " ++ .join ", " (u.assignments.map (·.render d)) ++
    .ofText " WHERE " ++ u.condition.render d

def Delete.render (d : Dialect) (x : Delete) : Fragment :=
  .ofText s!"DELETE FROM {quote d x.table} WHERE " ++ x.condition.render d

/-! ## Keys -/

/-- Types whose values compare without a conversion. -/
def comparable (a b : LogicalType) : Bool :=
  a = b || (a.isSerial && b.isSerial)

/-- The type that a value has by itself. -/
def ownType? : Value → Option LogicalType
  | .int n => some (.ofMagnitude n.natAbs)
  | .float _ => some .real
  | .text _ => some .text
  | .bytes _ => some .blob
  | .date _ => some .date
  | .timestamp _ => some .timestamp
  | .uuid _ => some .uuid
  | _ => none

/-- The type of a parameter beside a column: that of the column, unless the value has another. -/
def typeBeside (type : LogicalType) (v : Value) : LogicalType :=
  match ownType? v with
  | some own => if comparable own type then type else own
  | none => type

/-- The test that a column holds a value. -/
def holding (c : ColumnRef) : Value → Test
  | .null => .isNull true c
  | .bool b => .compare .eq c (.truth b)
  | v => .compare .eq c (.named c.column (typeBeside c.type v) v)

/-- A column of a table, read from the table itself. -/
def Table.column? (t : Table) (name : String) : Option ColumnRef :=
  (t.columns.find? (·.name = name)).map fun c => ⟨.table t.name, name, c.type⟩

/-- Whether no column that is written has the name of a parameter of the condition. -/
def Update.wellNamed (d : Dialect) (u : Update) : Bool :=
  (u.condition.render d).all fun
    | .parameter p => !u.assignments.any (·.column = p.stem ++ "_1")
    | .text _ => true

end SchemaLedger.Sql
