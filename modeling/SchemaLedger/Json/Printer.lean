import SchemaLedger.Value.Display

set_option autoImplicit false

/-!
# Writing documents

One printer with the decisions of a style: separators, line breaks, which characters are escaped, the
order of names, and the layout of numbers. A value that no document can hold is written as its text.
-/
namespace SchemaLedger.Json

structure Style where
  /-- Blanks per level; none keeps the document on one line. -/
  indent : Option Nat
  itemSeparator : String
  nameSeparator : String
  asciiOnly : Bool
  sortNames : Bool
  numbers : Decimal.Layout
  /-- Whether numbers that are not finite become null. -/
  finiteOnly : Bool

namespace Style

/-- Two blanks per level: files and reports. -/
def indented : Style := ⟨some 2, ",", ": ", true, false, .plain, false⟩

/-- One line with blanks after the separators: stored columns. -/
def spaced : Style := ⟨none, ", ", ": ", true, false, .plain, false⟩

/-- The same with names in order, so that equal objects have equal texts: declared defaults. -/
def sorted : Style := { spaced with sortNames := true }

/-- No blanks and no escapes but the necessary ones: the history of a database. -/
def compact : Style := ⟨none, ",", ":", false, false, .compact, true⟩

end Style

/-- The four digits of a 16-bit unit after `\u`. -/
def escapeUnit (n : Nat) : List Char := '\\' :: 'u' :: Text.hex 4 n

def escapeCodePoint (n : Nat) : List Char :=
  if n < 0x10000 then escapeUnit n
  else
    let m := n - 0x10000
    escapeUnit (0xD800 + m / 0x400) ++ escapeUnit (0xDC00 + m % 0x400)

def escapeChar (asciiOnly : Bool) (c : Char) : List Char :=
  match c with
  | '"' => ['\\', '"']
  | '\\' => ['\\', '\\']
  | '\n' => ['\\', 'n']
  | '\r' => ['\\', 'r']
  | '\t' => ['\\', 't']
  | '\x08' => ['\\', 'b']
  | '\x0c' => ['\\', 'f']
  | c =>
    if c.toNat < 0x20 ∨ (asciiOnly ∧ 0x7f ≤ c.toNat) then escapeCodePoint c.toNat else [c]

def quote (asciiOnly : Bool) (s : String) : String :=
  String.ofList ('"' :: (s.toList.flatMap (escapeChar asciiOnly) ++ ['"']))

def number (style : Style) (x : Double) : String :=
  if style.finiteOnly ∧ !x.isFinite then "null"
  else
    match x with
    | .nan => "NaN"
    | .infinity negative => if negative then "-Infinity" else "Infinity"
    | x => x.render style.numbers

/-- Elements between brackets, each on its own line if the style has lines. -/
def bracketed (style : Style) (level : Nat) (opening closing : String) (parts : List String) :
    String :=
  if parts.isEmpty then opening ++ closing
  else
    match style.indent with
    | none => opening ++ style.itemSeparator.intercalate parts ++ closing
    | some width =>
      let inner := "\n" ++ String.ofList (List.replicate (width * (level + 1)) ' ')
      let outer := "\n" ++ String.ofList (List.replicate (width * level) ' ')
      opening ++ inner ++ (style.itemSeparator ++ inner).intercalate parts ++ outer ++ closing

/-- The rendered entries of an object, in the order that the style asks for. -/
def arranged (style : Style) (parts : List (String × String)) : List String :=
  let parts := if style.sortNames then parts.mergeSort (fun a b => decide (a.1 ≤ b.1)) else parts
  parts.map fun (name, content) => quote style.asciiOnly name ++ style.nameSeparator ++ content

mutual

def renderAt (style : Style) (level : Nat) : Value → String
  | .null => "null"
  | .bool b => if b then "true" else "false"
  | .int n => toString n
  | .float x => number style x
  | .text s => quote style.asciiOnly s
  | .list items => bracketed style level "[" "]" (renderItems style (level + 1) items)
  | .object entries =>
    bracketed style level "\x7b" "\x7d" (arranged style (renderEntries style (level + 1) entries))
  | .bytes content => quote style.asciiOnly (displayBytes content)
  | .date d => quote style.asciiOnly d.iso
  | .timestamp t => quote style.asciiOnly (t.iso " ")
  | .uuid u => quote style.asciiOnly u.text

def renderItems (style : Style) (level : Nat) : List Value → List String
  | [] => []
  | v :: rest => renderAt style level v :: renderItems style level rest

def renderEntries (style : Style) (level : Nat) : List (String × Value) → List (String × String)
  | [] => []
  | (name, v) :: rest => (name, renderAt style level v) :: renderEntries style level rest

end

def render (style : Style) (v : Value) : String := renderAt style 0 v

mutual

/-- Whether a document can hold the value. -/
def isDocument : Value → Bool
  | .bytes _ => false
  | .date _ => false
  | .timestamp _ => false
  | .uuid _ => false
  | .list items => allDocuments items
  | .object entries => allEntriesDocuments entries
  | _ => true

def allDocuments : List Value → Bool
  | [] => true
  | v :: rest => isDocument v && allDocuments rest

def allEntriesDocuments : List (String × Value) → Bool
  | [] => true
  | (_, v) :: rest => isDocument v && allEntriesDocuments rest

end

mutual

/-- The nearest document: numbers that are not finite become null, other values their texts. -/
def toDocument : Value → Value
  | .float x => if x.isFinite then .float x else .null
  | .list items => .list (toDocuments items)
  | .object entries => .object (toDocumentEntries entries)
  | .bytes content => .text (String.ofList (content.map fun b => Char.ofNat b.toNat))
  | .date d => .text d.iso
  | .timestamp t => .text (t.iso "T")
  | .uuid u => .text u.text
  | v => v

def toDocuments : List Value → List Value
  | [] => []
  | v :: rest => toDocument v :: toDocuments rest

def toDocumentEntries : List (String × Value) → List (String × Value)
  | [] => []
  | (name, v) :: rest => (name, toDocument v) :: toDocumentEntries rest

end

end SchemaLedger.Json
