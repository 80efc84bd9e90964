set_option autoImplicit false

/-!
# Comparisons

The six comparisons between two values. `negated` is the one that holds where the other does not,
`swapped` the one with its sides exchanged.
-/
namespace SchemaLedger

inductive Comparison where
  | eq
  | ne
  | lt
  | le
  | gt
  | ge
  deriving DecidableEq

namespace Comparison

def symbol : Comparison → String
  | .eq => "="
  | .ne => "!="
  | .lt => "<"
  | .le => "<="
  | .gt => ">"
  | .ge => ">="

def name : Comparison → String
  | .eq => "EQ"
  | .ne => "NE"
  | .lt => "LT"
  | .le => "LE"
  | .gt => "GT"
  | .ge => "GE"

def all : List Comparison := [.eq, .ne, .lt, .le, .gt, .ge]

def ofSymbol? (s : String) : Option Comparison := all.find? (·.symbol = s)

theorem ofSymbol?_symbol (c : Comparison) : ofSymbol? c.symbol = some c := by
  cases c <;> decide

def swapped : Comparison → Comparison
  | .eq => .eq
  | .ne => .ne
  | .lt => .gt
  | .le => .ge
  | .gt => .lt
  | .ge => .le

def negated : Comparison → Comparison
  | .eq => .ne
  | .ne => .eq
  | .lt => .ge
  | .le => .gt
  | .gt => .le
  | .ge => .lt

theorem swapped_swapped (c : Comparison) : c.swapped.swapped = c := by cases c <;> rfl

theorem negated_negated (c : Comparison) : c.negated.negated = c := by cases c <;> rfl

end Comparison

end SchemaLedger
