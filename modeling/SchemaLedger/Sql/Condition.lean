import SchemaLedger.Comparison
import SchemaLedger.Sql.Fragment
import SchemaLedger.Sql.From

set_option autoImplicit false

/-!
# Conditions

What the rows of a query have to satisfy. A test looks at columns, a link asks for a row of a join
table, and the rest are connectives. Constants are simplified where they are operands themselves; a
constant that a list came down to is settled and stays where it is, unless it is negated.
-/
namespace SchemaLedger.Sql

inductive Operand where
  | column (c : ColumnRef)
  | literal (type : LogicalType) (value : Value)
  /-- A value whose parameter is named after a column. -/
  | named (after : String) (type : LogicalType) (value : Value)
  | truth (b : Bool)

namespace Operand

/-- SQLite has no truth values but numbers. -/
def truthText (d : Dialect) (b : Bool) : String :=
  match d with
  | .sqlite => if b then "1" else "0"
  | .postgresql => if b then "true" else "false"

def render (d : Dialect) : Operand → Fragment
  | .column c => .ofText (c.render d)
  | .literal type value => .literal type value
  | .named after type value => [.parameter { stem := Fragment.stemOf after, type, value }]
  | .truth b => .ofText (truthText d b)

end Operand

/-- The text of a condition that is constant. -/
def constantText (d : Dialect) (b : Bool) : String :=
  match d with
  | .sqlite => if b then "1 = 1" else "0 = 1"
  | .postgresql => if b then "true" else "false"

inductive Test where
  | constant (b : Bool)
  | compare (op : Comparison) (left : ColumnRef) (right : Operand)
  | isNull (expected : Bool) (c : ColumnRef)
  | oneOf (expected : Bool) (c : ColumnRef) (values : List Value)

namespace Test

def negated : Test → Test
  | .constant b => .constant (!b)
  | .compare op left right => .compare op.negated left right
  | .isNull expected c => .isNull (!expected) c
  | .oneOf expected c values => .oneOf (!expected) c values

def renderValues (c : ColumnRef) (values : List Value) : Fragment :=
  .parenthesised (.join ", " (values.map (.literal c.type)))

def render (d : Dialect) : Test → Fragment
  | .constant b => .ofText (constantText d b)
  | .compare op left right => .ofText s!"{left.render d} {op.symbol} " ++ right.render d
  | .isNull expected c => .ofText (c.render d ++ (if expected then " IS NULL" else " IS NOT NULL"))
  | .oneOf true c values => .ofText s!"{c.render d} IN " ++ renderValues c values
  | .oneOf false c values =>
    .parenthesised (.ofText s!"{c.render d} NOT IN " ++ renderValues c values)

end Test

/-- A row of a join table for an owner whose target, or whose link itself, passes a test. -/
structure LinkedRow where
  link : Source
  target : Option Join
  linkOwner : ColumnRef
  owner : ColumnRef
  test : Test

namespace LinkedRow

/-- A test that never holds stands alone. -/
def condition (d : Dialect) (r : LinkedRow) : Fragment :=
  match r.test with
  | .constant false => r.test.render d
  | _ => .join " AND " [(Test.compare .eq r.linkOwner (.column r.owner)).render d, r.test.render d]

def render (d : Dialect) (r : LinkedRow) : Fragment :=
  .ofText s!"EXISTS (SELECT {r.linkOwner.render d} \nFROM " ++
    .ofText (renderFrom d r.link r.target.toList) ++ .ofText " \nWHERE " ++ r.condition d ++ .ofText ")"

end LinkedRow

inductive Connective where
  | and
  | or
  deriving DecidableEq

namespace Connective

/-- The constant that leaves a list as it is; the other one decides it. -/
def neutral : Connective → Bool
  | .and => true
  | .or => false

def separator : Connective → String
  | .and => " AND "
  | .or => " OR "

end Connective

inductive Condition where
  | test (t : Test)
  | settled (b : Bool)
  | linked (row : LinkedRow)
  | list (connective : Connective) (items : List Condition)
  | negation (c : Condition)

namespace Condition

def constant? : Condition → Option Bool
  | .test (.constant b) => some b
  | _ => none

/-- The operands that a condition contributes to a list. -/
def operandsOf (k : Connective) : Condition → List Condition
  | .list k' items => if k' = k then items else [.list k' items]
  | c => [c]

/-- The condition that all hold, or that one holds. -/
def connect (k : Connective) (cs : List Condition) : Condition :=
  if cs.any (·.constant? = some !k.neutral) then .settled !k.neutral
  else
    match cs.filter (·.constant? ≠ some k.neutral), cs with
    | [], [] => .list k []
    | [], _ => .settled k.neutral
    | [c], _ => c
    | kept, _ => .list k (kept.flatMap (operandsOf k))

def negated : Condition → Condition
  | .test t => .test t.negated
  | .settled b => .test (.constant !b)
  | c => .negation c

/-- Whether a condition needs parentheses as an operand of a list. -/
def groupedIn (k : Connective) : Condition → Bool
  | .linked _ => true
  | .list k' items => k' = .or && k = .and && !items.isEmpty
  | _ => false

def groupedInNegation : Condition → Bool
  | .list _ items => !items.isEmpty
  | .linked _ => true
  | .negation _ => true
  | _ => false

def group (needed : Bool) (f : Fragment) : Fragment := if needed then f.parenthesised else f

mutual

/-- An operand without text is left out. -/
def render (d : Dialect) : Condition → Fragment
  | .test t => t.render d
  | .settled b => .ofText (constantText d b)
  | .linked row => row.render d
  | .list k items => .join k.separator ((renderItems d k items).filter (!·.isEmpty))
  | .negation c => .ofText "NOT " ++ group c.groupedInNegation (render d c)

def renderItems (d : Dialect) (k : Connective) : List Condition → List Fragment
  | [] => []
  | c :: rest => group (c.groupedIn k) (render d c) :: renderItems d k rest

end

end Condition

end SchemaLedger.Sql
