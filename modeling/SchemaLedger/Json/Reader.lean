import SchemaLedger.Value

set_option autoImplicit false

/-!
# Reading documents

A reader of JSON texts that says where and why a text is no document. A fault is placed by the number
of characters left from it to the end, so no reader needs to know how far it stands from the start.
Besides the standard's numbers the words `NaN`, `Infinity` and `-Infinity` are numbers, and of
repeated names in an object the last content counts.
-/
namespace SchemaLedger.Json

inductive Fault where
  | value
  | name
  | colon
  | comma
  | extra
  | unterminated
  | control
  | escape
  | codePoint
  | byteOrderMark
  deriving DecidableEq

def Fault.message : Fault → String
  | .value => "Expecting value"
  | .name => "Expecting property name enclosed in double quotes"
  | .colon => "Expecting ':' delimiter"
  | .comma => "Expecting ',' delimiter"
  | .extra => "Extra data"
  | .unterminated => "Unterminated string starting at"
  | .control => "Invalid control character at"
  | .escape => "Invalid \\escape"
  | .codePoint => "Invalid \\uXXXX escape"
  | .byteOrderMark => "Unexpected UTF-8 BOM (decode using utf-8-sig)"

/-- A fault with `left` characters from its place to the end of the text. -/
structure Failure where
  fault : Fault
  left : Nat
  deriving DecidableEq

def isBlank (c : Char) : Bool := c = ' ' || c = '\t' || c = '\n' || c = '\r'

def skipBlanks (cs : List Char) : List Char := cs.dropWhile isBlank

/-- The number of four hexadecimal digits. -/
def hexFour? (a b c d : Char) : Option Nat :=
  [a, b, c, d].foldlM (fun n x => (Uuid.hexValue? x).map (16 * n + ·)) 0

def isHighSurrogate (n : Nat) : Bool := 0xD800 ≤ n && n < 0xDC00

def isLowSurrogate (n : Nat) : Bool := 0xDC00 ≤ n && n < 0xE000

/-- The character of a code point; half of a pair that stands alone becomes the replacement mark. -/
def charOf (n : Nat) : Char := if isHighSurrogate n || isLowSurrogate n then '\uFFFD' else Char.ofNat n

def joinSurrogates (high low : Nat) : Char :=
  Char.ofNat (0x10000 + (high - 0xD800) * 0x400 + (low - 0xDC00))

def unescape? (c : Char) : Option Char :=
  match c with
  | '"' => some '"'
  | '\\' => some '\\'
  | '/' => some '/'
  | 'b' => some '\x08'
  | 'f' => some '\x0c'
  | 'n' => some '\n'
  | 'r' => some '\r'
  | 't' => some '\t'
  | _ => none

/-- The characters of a text up to its closing quote. `start` is what was left at the opening one. -/
def readString (start : Nat) : List Char → Except Failure (List Char × List Char)
  | [] => .error ⟨.unterminated, start⟩
  | '"' :: rest => .ok ([], rest)
  | ['\\'] => .error ⟨.unterminated, start⟩
  | '\\' :: 'u' :: a :: b :: c :: d :: rest =>
    match hexFour? a b c d, rest with
    | _, [] => .error ⟨.codePoint, 5⟩
    | none, rest => .error ⟨.codePoint, rest.length + 5⟩
    | some high, '\\' :: 'u' :: a' :: b' :: c' :: d' :: after =>
      if isHighSurrogate high ∧ after ≠ [] then
        match hexFour? a' b' c' d' with
        | none => .error ⟨.codePoint, after.length + 5⟩
        | some low =>
          if isLowSurrogate low then
            (readString start after).map fun r => (joinSurrogates high low :: r.1, r.2)
          else
            (readString start ('\\' :: 'u' :: a' :: b' :: c' :: d' :: after)).map fun r =>
              (charOf high :: r.1, r.2)
      else
        (readString start ('\\' :: 'u' :: a' :: b' :: c' :: d' :: after)).map fun r =>
          (charOf high :: r.1, r.2)
    | some n, rest => (readString start rest).map fun r => (charOf n :: r.1, r.2)
  | '\\' :: c :: rest =>
    if c = 'u' then .error ⟨.codePoint, rest.length + 1⟩
    else
      match unescape? c with
      | none => .error ⟨.escape, rest.length + 2⟩
      | some plain => (readString start rest).map fun r => (plain :: r.1, r.2)
  | c :: rest =>
    if c.toNat < 0x20 then .error ⟨.control, rest.length + 1⟩
    else (readString start rest).map fun r => (c :: r.1, r.2)

/-- The integer part of a number: a zero alone, or digits that start with another one. -/
def readWhole? : List Char → Option (List Char × List Char)
  | '0' :: rest => some (['0'], rest)
  | cs =>
    let (digits, rest) := Double.spanDigits cs
    if digits = [] then none else some (digits, rest)

/-- A point and at least one digit. -/
def readFraction : List Char → Option (List Char) × List Char
  | '.' :: rest =>
    let (digits, after) := Double.spanDigits rest
    if digits = [] then (none, '.' :: rest) else (some digits, after)
  | cs => (none, cs)

/-- An exponent mark, perhaps a sign, and at least one digit. -/
def readExponent (cs : List Char) : Option Int × List Char :=
  match cs with
  | mark :: rest =>
    if mark = 'e' ∨ mark = 'E' then
      let (negative, body) :=
        match rest with
        | '-' :: body => (true, body)
        | '+' :: body => (false, body)
        | body => (false, body)
      let (digits, after) := Double.spanDigits body
      if digits = [] then (none, cs)
      else
        let n : Int := Double.digitsValue digits
        (some (if negative then -n else n), after)
    else (none, cs)
  | [] => (none, cs)

def readUnsigned? (negative : Bool) (cs : List Char) : Option (Value × List Char) :=
  (readWhole? cs).map fun (whole, rest) =>
    let (fraction, rest) := readFraction rest
    let (exponent, rest) := readExponent rest
    if fraction.isNone ∧ exponent.isNone then
      let n : Int := Double.digitsValue whole
      (.int (if negative then -n else n), rest)
    else
      let digits := fraction.getD []
      let power := exponent.getD 0 - digits.length
      (.float (.ofScientific negative (Double.digitsValue (whole ++ digits)) power), rest)

def readNumber? : List Char → Option (Value × List Char)
  | '-' :: rest => readUnsigned? true rest
  | cs => readUnsigned? false cs

/-- The rest after a word, if the text starts with it. -/
def afterWord? (word : String) (cs : List Char) : Option (List Char) :=
  if cs.take word.length = word.toList then some (cs.drop word.length) else none

/-- The values written as words. -/
def words : List (String × Value) :=
  [("null", .null), ("true", .bool true), ("false", .bool false), ("NaN", .float .nan),
    ("Infinity", .float (.infinity false)), ("-Infinity", .float (.infinity true))]

def readWord? (cs : List Char) : Option (Value × List Char) :=
  words.findSome? fun (word, value) => (afterWord? word cs).map (value, ·)

mutual

/-- A value at the front of a text. Each nesting and each further element takes one unit of fuel. -/
def readValue : Nat → List Char → Except Failure (Value × List Char)
  | 0, cs => .error ⟨.value, cs.length⟩
  | _ + 1, '"' :: rest => do
    let (s, rest) ← readString (rest.length + 1) rest
    .ok (.text (String.ofList s), rest)
  | fuel + 1, '[' :: rest =>
    match skipBlanks rest with
    | ']' :: rest => .ok (.list [], rest)
    | rest => do
      let (items, rest) ← readItems fuel rest
      .ok (.list items, rest)
  | fuel + 1, '\x7b' :: rest =>
    match skipBlanks rest with
    | '\x7d' :: rest => .ok (.object [], rest)
    | rest => do
      let (entries, rest) ← readEntries fuel rest
      .ok (.object (Entries.ofPairs entries), rest)
  | _ + 1, cs =>
    match readWord? cs with
    | some found => .ok found
    | none =>
      match readNumber? cs with
      | some found => .ok found
      | none => .error ⟨.value, cs.length⟩

def readItems : Nat → List Char → Except Failure (List Value × List Char)
  | 0, cs => .error ⟨.value, cs.length⟩
  | fuel + 1, cs => do
    let (item, rest) ← readValue fuel cs
    match skipBlanks rest with
    | ']' :: rest => .ok ([item], rest)
    | ',' :: rest => do
      let (items, rest) ← readItems fuel (skipBlanks rest)
      .ok (item :: items, rest)
    | rest => .error ⟨.comma, rest.length⟩

def readEntries : Nat → List Char → Except Failure (List (String × Value) × List Char)
  | 0, cs => .error ⟨.name, cs.length⟩
  | fuel + 1, '"' :: cs => do
    let (name, rest) ← readString (cs.length + 1) cs
    match skipBlanks rest with
    | ':' :: rest => do
      let (content, rest) ← readValue fuel (skipBlanks rest)
      match skipBlanks rest with
      | '\x7d' :: rest => .ok ([(String.ofList name, content)], rest)
      | ',' :: rest => do
        let (entries, rest) ← readEntries fuel (skipBlanks rest)
        .ok ((String.ofList name, content) :: entries, rest)
      | rest => .error ⟨.comma, rest.length⟩
    | rest => .error ⟨.colon, rest.length⟩
  | _ + 1, cs => .error ⟨.name, cs.length⟩

end

/-- The value of a whole text: blanks around it, nothing else. -/
def readDocument (cs : List Char) : Except Failure Value :=
  match cs with
  | '\uFEFF' :: _ => .error ⟨.byteOrderMark, cs.length⟩
  | _ => do
    let (v, rest) ← readValue (2 * cs.length + 2) (skipBlanks cs)
    match skipBlanks rest with
    | [] => .ok v
    | rest => .error ⟨.extra, rest.length⟩

/-- A fault with its place as line, column and offset. -/
structure SyntaxError where
  fault : Fault
  line : Nat
  column : Nat
  offset : Nat

def SyntaxError.message (e : SyntaxError) : String :=
  s!"{e.fault.message}: line {e.line} column {e.column} (char {e.offset})"

/-- Lines and columns count from one; the column is the distance to the last line break before. -/
def SyntaxError.locate (cs : List Char) (f : Failure) : SyntaxError :=
  let offset := cs.length - f.left
  let before := cs.take offset
  let column := (before.reverse.takeWhile (· ≠ '\n')).length + 1
  ⟨f.fault, before.count '\n' + 1, column, offset⟩

def read (text : String) : Except SyntaxError Value :=
  (readDocument text.toList).mapError (SyntaxError.locate text.toList)

end SchemaLedger.Json
