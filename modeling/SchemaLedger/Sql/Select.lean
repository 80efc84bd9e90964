import SchemaLedger.Sql.Condition

set_option autoImplicit false

/-!
# Selections

A query as data, and its text.
-/
namespace SchemaLedger.Sql

structure Output where
  column : ColumnRef
  label : Option String := none

def Output.render (d : Dialect) (o : Output) : String :=
  match o.label with
  | some label => s!"{o.column.render d} AS {quote d label}"
  | none => o.column.render d

structure SortKey where
  column : ColumnRef
  /-- Whether the order descends; none leaves it to the database. -/
  descending : Option Bool := none

def SortKey.render (d : Dialect) (k : SortKey) : String :=
  match k.descending with
  | some true => s!"{k.column.render d} DESC"
  | some false => s!"{k.column.render d} ASC"
  | none => k.column.render d

structure Select where
  outputs : List Output
  source : Source
  joins : List Join := []
  condition : Option Condition := none
  ordering : List SortKey := []
  limit : Option Int := none
  offset : Option Int := none

namespace Select

def count (n : Int) : Fragment := .literal (.ofMagnitude n.natAbs) (.int n)

/-- SQLite writes both numbers as soon as one is given; a limit of -1 is none. -/
def renderLimit (d : Dialect) (limit offset : Option Int) : Fragment :=
  match d, limit, offset with
  | _, none, none => []
  | .sqlite, _, _ =>
    .ofText "\n LIMIT " ++ count (limit.getD (-1)) ++ .ofText " OFFSET " ++ count (offset.getD 0)
  | .postgresql, some n, none => .ofText " \n LIMIT " ++ count n
  | .postgresql, some n, some m => .ofText " \n LIMIT " ++ count n ++ .ofText " OFFSET " ++ count m
  | .postgresql, none, some m => .ofText "\n LIMIT ALL OFFSET " ++ count m

def renderCondition (d : Dialect) (condition : Option Condition) : Fragment :=
  match condition.map (·.render d) with
  | none => []
  | some [] => []
  | some f => .ofText " \nWHERE " ++ f

def renderOrdering (d : Dialect) (keys : List SortKey) : Fragment :=
  if keys.isEmpty then [] else .ofText (" ORDER BY " ++ ", ".intercalate (keys.map (·.render d)))

def render (d : Dialect) (s : Select) : Fragment :=
  .ofText ("SELECT " ++ ", ".intercalate (s.outputs.map (·.render d)) ++ " \nFROM " ++
    renderFrom d s.source s.joins) ++
  renderCondition d s.condition ++ renderOrdering d s.ordering ++ renderLimit d s.limit s.offset

end Select

end SchemaLedger.Sql
