import SchemaLedger.Sql.Type
import SchemaLedger.Value

set_option autoImplicit false

/-!
# Fragments

Text of a statement with parameters in it. A parameter has its value and the type of the column that
it belongs to; its text is a placeholder, so no value ever stands in the text of a statement.
-/
namespace SchemaLedger.Sql

/-! ## Counted names

Names made of a stem and a count, as `id_1`, `id_2`. Each stem has a count of its own. A name that
comes near the limit of the dialect is cut, and what was cut is counted in hexadecimal. -/

structure Counted where
  counts : List (String × Nat) := []
  cut : Nat := 0

namespace Counted

def count (c : Counted) (stem : String) : Nat := (Entries.get? stem c.counts).getD 0 + 1

/-- The next name of a stem. -/
def next (longest : Nat) (c : Counted) (stem : String) : String × Counted :=
  let name := s!"{stem}_{c.count stem}"
  let c := { c with counts := Entries.put stem (c.count stem) c.counts }
  let room := longest - 6
  if name.length ≤ room then (name, c)
  else
    let kept := String.ofList (name.toList.take room)
    (kept ++ "_" ++ String.ofList (Nat.toDigits 16 (c.cut + 1)), { c with cut := c.cut + 1 })

end Counted

/-! ## Parameters -/

structure Parameter where
  stem : String
  /-- Whether the name is the stem with a count, not the stem itself. -/
  counted : Bool := true
  type : LogicalType
  value : Value

inductive Piece where
  | text (s : String)
  | parameter (p : Parameter)

abbrev Fragment := List Piece

namespace Fragment

def ofText (s : String) : Fragment := [.text s]

/-- A literal, named by its position. -/
def literal (type : LogicalType) (value : Value) : Fragment :=
  [.parameter { stem := "param", type, value }]

def parenthesised (f : Fragment) : Fragment := ofText "(" ++ f ++ ofText ")"

def join (separator : String) : List Fragment → Fragment
  | [] => []
  | [f] => f
  | f :: g :: rest => f ++ ofText separator ++ join separator (g :: rest)

/-- Characters that a counted name does not take over from a column. -/
def isStemBreak (c : Char) : Bool := c = '%' || c = '(' || c = ')' || c = ' ' || c = '$'

/-- One underscore for each run of such characters. -/
def joinBreaks : List Char → List Char
  | [] => []
  | c :: rest =>
    if isStemBreak c then
      match rest with
      | next :: _ => if isStemBreak next then joinBreaks rest else '_' :: joinBreaks rest
      | [] => ['_']
    else c :: joinBreaks rest

/-- The stem that a column gives to a counted name, without underscores around it. -/
def stemOf (column : String) : String :=
  let cs := (joinBreaks column.toList).dropWhile (· = '_')
  String.ofList (cs.reverse.dropWhile (· = '_')).reverse

/-- A name inside a placeholder: characters that would end the placeholder are replaced. -/
def placeholderChar : Char → Char
  | '%' => 'P'
  | '(' => 'A'
  | ')' => 'Z'
  | ':' => 'C'
  | '.' => '_'
  | '[' => '_'
  | ']' => '_'
  | ' ' => '_'
  | c => c

def placeholderName (d : Dialect) (name : String) : String :=
  match d with
  | .sqlite => name
  | .postgresql => name.map placeholderChar

def placeholder (d : Dialect) (name : String) (type : LogicalType) : String :=
  match d with
  | .sqlite => "?"
  | .postgresql => s!"%({name})s" ++ placeholderCast d type

end Fragment

/-- A statement as it is sent: its text, and its parameters by name in the order of the placeholders. -/
structure Prepared where
  text : String
  parameters : List (String × Parameter) := []

namespace Prepared

def ofText (text : String) : Prepared := ⟨text, []⟩

def name (d : Dialect) (c : Counted) (p : Parameter) : String × Counted :=
  if p.counted then
    let (name, c) := c.next d.longestName p.stem
    (Fragment.placeholderName d name, c)
  else (Fragment.placeholderName d p.stem, c)

def ofPieces (d : Dialect) : Counted → Fragment → Prepared
  | _, [] => ⟨"", []⟩
  | c, .text s :: rest =>
    let tail := ofPieces d c rest
    { tail with text := s ++ tail.text }
  | c, .parameter p :: rest =>
    let (name, c) := name d c p
    let tail := ofPieces d c rest
    ⟨Fragment.placeholder d name p.type ++ tail.text, (name, p) :: tail.parameters⟩

def ofFragment (d : Dialect) (f : Fragment) : Prepared := ofPieces d {} f

/-- The values as given. -/
def values (p : Prepared) : List (String × Value) := p.parameters.map fun q => (q.1, q.2.value)

end Prepared

end SchemaLedger.Sql
