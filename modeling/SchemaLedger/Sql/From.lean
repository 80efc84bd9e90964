import SchemaLedger.Sql.Identifier
import SchemaLedger.Schema.LogicalType

set_option autoImplicit false

/-!
# Sources of rows

The occurrences of tables that a query reads. A table may occur as itself, at the end of a chain of
references, as a link, or as what a link leads to; a column is known by its occurrence.
-/
namespace SchemaLedger.Sql

inductive Occurrence where
  | table (name : String)
  | joined (chain : List String)
  /-- The `n`-th link of a query, reached over a chain that ends with its relationship. -/
  | link (chain : List String) (n : Nat)
  | linked (chain : List String) (n : Nat)
  deriving DecidableEq

namespace Occurrence

def chainName (chain : List String) : String := "__".intercalate chain

/-- The correlation name; a table that occurs as itself has none. -/
def correlation? : Occurrence → Option String
  | .table _ => none
  | .joined chain => some ("j_" ++ chainName chain)
  | .link chain n => some (s!"m_{chainName chain}_{n}")
  | .linked chain n => some (s!"t_{chainName chain}_{n}")

/-- What its columns are qualified by. -/
def name : Occurrence → String
  | .table name => name
  | o => o.correlation?.getD ""

end Occurrence

structure Source where
  table : String
  occurrence : Occurrence := .table table
  deriving DecidableEq

def Source.render (d : Dialect) (s : Source) : String :=
  match s.occurrence.correlation? with
  | some a => s!"{quote d s.table} AS {quote d a}"
  | none => quote d s.table

structure ColumnRef where
  source : Occurrence
  column : String
  type : LogicalType
  deriving DecidableEq

def ColumnRef.render (d : Dialect) (c : ColumnRef) : String :=
  s!"{quote d c.source.name}.{quote d c.column}"

/-- One more occurrence of a table, joined where two columns are equal. -/
structure Join where
  source : Source
  /-- Whether rows without a partner stay. -/
  outer : Bool := false
  left : ColumnRef
  right : ColumnRef
  deriving DecidableEq

def Join.render (d : Dialect) (j : Join) : String :=
  (if j.outer then " LEFT OUTER JOIN " else " JOIN ") ++ j.source.render d ++
    s!" ON {j.left.render d} = {j.right.render d}"

def renderFrom (d : Dialect) (s : Source) (joins : List Join) : String :=
  s.render d ++ String.join (joins.map (·.render d))

end SchemaLedger.Sql
