import SchemaLedger.Text.Quoted
import SchemaLedger.Value

set_option autoImplicit false

/-!
# Values in messages

`display` is the unambiguous text of a value; `Value.plain` is the same, except that a text, a date,
a timestamp or an identifier stands for itself.
-/
namespace SchemaLedger

def displayByte (quote : Char) (b : UInt8) : List Char :=
  let c := Char.ofNat b.toNat
  if c = quote ∨ c = '\\' then ['\\', c]
  else if c = '\n' then ['\\', 'n']
  else if c = '\r' then ['\\', 'r']
  else if c = '\t' then ['\\', 't']
  else if b < 0x20 ∨ 0x7f ≤ b then '\\' :: 'x' :: Text.hex 2 b.toNat
  else [c]

def displayBytes (content : List UInt8) : String :=
  let quote := if content.contains 39 && !content.contains 34 then '"' else '\''
  String.ofList ('b' :: quote :: (content.flatMap (displayByte quote) ++ [quote]))

def Date.display (d : Date) : String :=
  "datetime.date(" ++ ", ".intercalate (List.map toString [d.year, d.month, d.day]) ++ ")"

/-- Trailing zero seconds and microseconds are left out. -/
def Timestamp.display (t : Timestamp) : String :=
  let c := t.clock
  let tail :=
    if c.microsecond ≠ 0 then [c.second, c.microsecond]
    else if c.second ≠ 0 then [c.second]
    else []
  let parts := [t.date.year, t.date.month, t.date.day, c.hour, c.minute] ++ tail
  "datetime.datetime(" ++ ", ".intercalate (parts.map toString) ++ ")"

namespace Value

mutual

def display : Value → String
  | .null => "None"
  | .bool b => if b then "True" else "False"
  | .int n => toString n
  | .float x => x.text
  | .text s => Text.quoted s
  | .bytes content => displayBytes content
  | .date d => d.display
  | .timestamp t => t.display
  | .uuid u => "UUID('" ++ u.text ++ "')"
  | .list items => "[" ++ ", ".intercalate (displayItems items) ++ "]"
  | .object entries => "\x7b" ++ ", ".intercalate (displayEntries entries) ++ "\x7d"

def displayItems : List Value → List String
  | [] => []
  | v :: rest => display v :: displayItems rest

def displayEntries : List (String × Value) → List String
  | [] => []
  | (name, v) :: rest => (Text.quoted name ++ ": " ++ display v) :: displayEntries rest

end

/-- What a message calls the kind of a value. -/
def kindName : Value → String
  | .null => "NoneType"
  | .bool _ => "bool"
  | .int _ => "int"
  | .float _ => "float"
  | .text _ => "str"
  | .bytes _ => "bytes"
  | .date _ => "date"
  | .timestamp _ => "datetime"
  | .uuid _ => "UUID"
  | .list _ => "list"
  | .object _ => "dict"

def plain : Value → String
  | .text s => s
  | .date d => d.iso
  | .timestamp t => t.iso " "
  | .uuid u => u.text
  | v => v.display

end Value

end SchemaLedger
