import SchemaLedger.Sql.Dialect
import SchemaLedger.Text.Word

set_option autoImplicit false

/-!
# Templates

The text of a default inside CREATE TABLE is a template: a colon and a word name a parameter. None is
set there, so each stands for NULL. A backslash before a colon keeps it from naming a parameter, and
a percent sign is doubled where placeholders start with one.
-/
namespace SchemaLedger.Sql

/-- Whether a parameter may start after this character. -/
def opensParameter : Option Char → Bool
  | none => true
  | some c => !(c = ':' || c = '\\' || Text.isWordChar c)

/-- The length of the parameter's name at the front of a text: all word characters there, but the
last one is not part of it when another colon follows. -/
def parameterLength (cs : List Char) : Nat :=
  let n := (cs.takeWhile Text.isWordChar).length
  if cs[n]? = some ':' then n - 1 else n

/-- Replaces parameters by NULL. `skip` characters still belong to the parameter before them. -/
def dropParameters (before : Option Char) (skip : Nat) : List Char → List Char
  | [] => []
  | c :: rest =>
    match skip with
    | n + 1 => dropParameters (some c) n rest
    | 0 =>
      if c = ':' ∧ opensParameter before ∧ 0 < parameterLength rest then
        "NULL".toList ++ dropParameters (some c) (parameterLength rest) rest
      else c :: dropParameters (some c) 0 rest

def isWordOrDollar (c : Char) : Bool := Text.isWordChar c || c = '$'

/-- Whether a colon and word characters stand here, and no colon after them. -/
def isEscapedName : List Char → Bool
  | ':' :: rest => (rest.dropWhile isWordOrDollar).head? ≠ some ':'
  | _ => false

/-- Drops the backslash before an escaped parameter. -/
def dropEscapes : List Char → List Char
  | [] => []
  | c :: rest => if c = '\\' ∧ isEscapedName rest then dropEscapes rest else c :: dropEscapes rest

def doublePercent (cs : List Char) : List Char :=
  cs.flatMap fun c => if c = '%' then ['%', '%'] else [c]

/-- The text that a template stands for. -/
def expandTemplate (d : Dialect) (text : String) : String :=
  let cs := match d with
    | .sqlite => text.toList
    | .postgresql => doublePercent text.toList
  String.ofList (dropEscapes (dropParameters none 0 cs))

end SchemaLedger.Sql
