import SchemaLedger.Schema.Fault

set_option autoImplicit false

/-!
# Fields

One scalar column of an entity. A default has to fit the type of its field; `null` means that none
is declared.
-/
namespace SchemaLedger

structure Field where
  name : String
  type : LogicalType := .text
  nullable : Bool := false
  default : Value := .null
  primaryKey : Bool := false
  auto : Bool := false
  unique : Bool := false

namespace Field

def hasDefault (f : Field) : Bool := !f.default.isNull

/-- Equality of all parts, the defaults as values. -/
def same (a b : Field) : Bool :=
  a.name = b.name && a.type = b.type && a.nullable = b.nullable && a.default.same b.default &&
    a.primaryKey = b.primaryKey && a.auto = b.auto && a.unique = b.unique

/-- Whether a value other than null may be the default of a field of this type. -/
def fits : LogicalType → Value → Bool
  | .bool, .bool _ => true
  | .int, .int _ => true
  | .bigint, .int _ => true
  | .real, .int _ => true
  | .real, .float _ => true
  | .text, .text _ => true
  | .json, _ => true
  | _, _ => false

def check (f : Field) : Except SchemaFault Unit :=
  if f.default.isNull then .ok ()
  else if !f.type.canDefault then .error (.undefaultable f.name f.type)
  else if !fits f.type f.default then .error (.mismatchedDefault f.name f.type f.default)
  else .ok ()

end Field

end SchemaLedger
