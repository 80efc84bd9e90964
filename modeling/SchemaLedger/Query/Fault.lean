import SchemaLedger.Error.Report

set_option autoImplicit false

/-!
# Faults of queries

Why a plan cannot be compiled against a schema.
-/
namespace SchemaLedger

inductive CompileFault where
  | unknownEntity (name : String) (available : List String)
  | unknownField (path entity : String) (available : List String)
  | crossesMany (path entity segment : String)
  | notPredicate (kind node : String)
  | noField (node : String)
  | manyOnRight (path : String)
  | pastMany (path entity relationship : String)
  | notComparable (kind node : String)
  | ordersNull (operator : String)
  | manyInOrdering (path : String)
  deriving DecidableEq

namespace CompileFault

def kind : CompileFault → ErrorKind
  | .unknownEntity .. => .compile
  | .unknownField .. => .unknownField
  | _ => .unsupportedExpression

def message : CompileFault → String
  | .unknownEntity name available =>
    s!"Unknown entity '{name}'. Available entities: " ++ commaList available
  | .unknownField path entity available =>
    if available.isEmpty then s!"Unknown field '{path}' on '{entity}'."
    else s!"Unknown field '{path}' on '{entity}'. Available: " ++ commaList available
  | .crossesMany path entity segment =>
    s!"Path '{path}' traverses many-to-many '{entity}.{segment}' here; " ++
      "only one many-to-many step is supported, in predicates."
  | .notPredicate kind _ => s!"Cannot use {kind} as a predicate."
  | .noField _ => "A comparison needs at least one field reference."
  | .manyOnRight path =>
    s!"Field '{path}' crosses a many-to-many relationship and may only " ++
      "appear on the left of a comparison."
  | .pastMany path entity relationship =>
    s!"Path '{path}' continues past many-to-many '{entity}.{relationship}'; " ++
      "only a field of its target can follow."
  | .notComparable kind _ => s!"Cannot compare with {kind}."
  | .ordersNull operator => s!"Operator {operator} cannot compare with None."
  | .manyInOrdering path => s!"Cannot order by '{path}': it crosses a many-to-many relationship."

def context : CompileFault → Entries
  | .unknownEntity name available =>
    [("entity_name", .text name), ("available_entities", textList available)]
  | .unknownField path entity available =>
    [("path", .text path), ("entity_name", .text entity), ("available", textList available)]
  | .crossesMany path _ _ => [("path", .text path)]
  | .notPredicate _ node => [("node", .text node)]
  | .noField node => [("node", .text node)]
  | .manyOnRight path => [("path", .text path)]
  | .pastMany path _ _ => [("path", .text path)]
  | .notComparable _ node => [("node", .text node)]
  | .ordersNull operator => [("op", .text operator)]
  | .manyInOrdering path => [("path", .text path)]

def report (f : CompileFault) : Report := ⟨f.kind, f.message, f.context⟩

end CompileFault

end SchemaLedger
