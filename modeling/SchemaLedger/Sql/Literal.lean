import SchemaLedger.Error
import SchemaLedger.Json.Printer
import SchemaLedger.Schema.Field

set_option autoImplicit false

/-!
# Literals

A declared default as a literal of a statement. Texts and documents stand in single quotes, where a
quote is written twice.
-/
namespace SchemaLedger.Sql

def doubleQuote (c : Char) : List Char := if c = '\'' then ['\'', '\''] else [c]

def quoteLiteral (s : String) : String :=
  String.ofList ('\'' :: (s.toList.flatMap doubleQuote ++ ['\'']))

def boolLiteral : Dialect → Bool → String
  | .sqlite, b => if b then "1" else "0"
  | .postgresql, b => if b then "true" else "false"

def jsonLiteral : Dialect → String → String
  | .sqlite, document => quoteLiteral document
  | .postgresql, document => quoteLiteral document ++ "::jsonb"

def realLiteral : Value → Result String
  | .float x => .ok x.text
  | v =>
    match v.asInt? with
    | none => .error (.defect .type "")
    | some n =>
      match Double.ofInt? n with
      | some x => .ok x.text
      | none => .error (.defect .overflow "int too large to convert to float")

/-- The literal of a field's default; none if it has no default. -/
def defaultLiteral (d : Dialect) (f : Field) : Result (Option String) :=
  if f.default.isNull then .ok none
  else
    match f.type, f.default with
    | .bool, v => .ok (some (boolLiteral d v.holds))
    | .json, v =>
      if Json.isDocument v then .ok (some (jsonLiteral d (Json.render .sorted v)))
      else .error (.defect .type "")
    | .text, .text s => .ok (some (quoteLiteral s))
    | .real, v => (realLiteral v).map some
    | _, v =>
      match v.asInt? with
      | some n => .ok (some (toString n))
      | none => .error (.defect .type "")

end SchemaLedger.Sql
