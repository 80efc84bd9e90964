import SchemaLedger.Comparison
import SchemaLedger.Error
import SchemaLedger.Value.Display

set_option autoImplicit false

/-!
# Expressions

Predicates over the fields of an entity. A dotted path walks relationships. A bare value may stand
where an expression should; it is kept, and refused when the query is compiled.
-/
namespace SchemaLedger.Query

inductive Expr where
  | field (path : String)
  | value (v : Value)
  | bare (v : Value)
  | compare (left : Expr) (op : Comparison) (right : Expr)
  | and (operands : List Expr)
  | or (operands : List Expr)
  | not (operand : Expr)
  | inSet (field : Expr) (values : List Value)

instance : Inhabited Expr := ⟨.bare .null⟩

namespace Expr

/-- A bare value that is compared with a field is a literal. -/
def operand : Expr → Expr
  | .bare v => .value v
  | e => e

def isBare : Expr → Bool
  | .bare _ => true
  | _ => false

def path? : Expr → Option String
  | .field path => some path
  | _ => none

def comparing (path : String) (op : Comparison) (other : Expr) : Expr :=
  .compare (.field path) op other.operand

def isNull (path : String) : Expr := .compare (.field path) .eq (.value .null)

def isNotNull (path : String) : Expr := .compare (.field path) .ne (.value .null)

/-- A bare value combines with nothing. -/
def combinable (e : Expr) : Result Unit :=
  if e.isBare then .error (.defect .type "") else .ok ()

/-- Both hold. A conjunction on the left takes the other as one more operand. -/
def both (a b : Expr) : Result Expr :=
  match a with
  | .and operands => .ok (.and (operands ++ [b]))
  | a => do
    a.combinable
    .ok (.and [a, b])

def either (a b : Expr) : Result Expr :=
  match a with
  | .or operands => .ok (.or (operands ++ [b]))
  | a => do
    a.combinable
    .ok (.or [a, b])

def inverse (e : Expr) : Result Expr := do
  e.combinable
  .ok (.not e)

/-! ## In messages -/

def kindName : Expr → String
  | .field _ => "Field"
  | .value _ => "Value"
  | .bare v => v.kindName
  | .compare .. => "Compare"
  | .and _ => "And"
  | .or _ => "Or"
  | .not _ => "Not"
  | .inSet .. => "InSet"

/-- A sequence in parentheses; a single item is followed by a comma. -/
def displayTuple : List String → String
  | [] => "()"
  | [item] => s!"({item},)"
  | items => "(" ++ commaList items ++ ")"

def displayComparison (c : Comparison) : String := s!"<Operator.{c.name}: '{c.symbol}'>"

mutual

def display : Expr → String
  | .field path => "Field(path=" ++ Text.quoted path ++ ")"
  | .value v => "Value(value=" ++ v.display ++ ")"
  | .bare v => v.display
  | .compare left op right =>
    "Compare(left=" ++ display left ++ ", op=" ++ displayComparison op ++ ", right=" ++
      display right ++ ")"
  | .and operands => "And(operands=" ++ displayTuple (displayAll operands) ++ ")"
  | .or operands => "Or(operands=" ++ displayTuple (displayAll operands) ++ ")"
  | .not operand => "Not(operand=" ++ display operand ++ ")"
  | .inSet subject values =>
    "InSet(field=" ++ display subject ++ ", values=" ++ displayTuple (values.map (·.display)) ++ ")"

def displayAll : List Expr → List String
  | [] => []
  | e :: rest => display e :: displayAll rest

end

end Expr

end SchemaLedger.Query
