import SchemaLedger.Schema.Fault
import SchemaLedger.Text.Parts

set_option autoImplicit false

/-!
# Checked descriptions

Reading a raw description either gives a value, or collects every issue of its parts, or is refused
at once by a rule about the whole of a part. Among several parts the first refusal wins over all
issues; without a refusal the issues stand in the order of the parts.
-/
namespace SchemaLedger

inductive Checked (α : Type) where
  | valid (value : α)
  | invalid (issues : List Issue)
  | refused (fault : SchemaFault)

namespace Checked

def map {α β : Type} (f : α → β) : Checked α → Checked β
  | .valid a => .valid (f a)
  | .invalid issues => .invalid issues
  | .refused fault => .refused fault

/-- Both parts are read, whatever the first one gives. -/
def both {α β : Type} : Checked α → Checked β → Checked (α × β)
  | .refused fault, _ => .refused fault
  | _, .refused fault => .refused fault
  | .invalid xs, .invalid ys => .invalid (xs ++ ys)
  | .invalid xs, .valid _ => .invalid xs
  | .valid _, .invalid ys => .invalid ys
  | .valid a, .valid b => .valid (a, b)

instance : Functor Checked where
  map := map

instance : Applicative Checked where
  pure := .valid
  seq f x := (both f (x ())).map fun p => p.1 p.2

/-- A rule about a value whose parts are valid. -/
def andThen {α β : Type} (x : Checked α) (f : α → Except SchemaFault β) : Checked β :=
  match x with
  | .valid a =>
    match f a with
    | .ok b => .valid b
    | .error fault => .refused fault
  | .invalid issues => .invalid issues
  | .refused fault => .refused fault

/-- The same with the issues placed below `step`. -/
def under {α : Type} (step : Issue.Step) : Checked α → Checked α
  | .invalid issues => .invalid (issues.map (·.under step))
  | other => other

def issue {α : Type} (problem : Problem) : Checked α := .invalid [⟨[], problem⟩]

/-- Every element is read, each below its position. -/
def each {α : Type} (read : Value → Checked α) : Nat → List Value → Checked (List α)
  | _, [] => .valid []
  | i, v :: rest =>
    (both ((read v).under (.position i)) (each read (i + 1) rest)).map fun p => p.1 :: p.2

def eachEntry {α : Type} (read : Value → Checked α) :
    List (String × Value) → Checked (List (String × α))
  | [] => .valid []
  | (name, v) :: rest =>
    (both ((read v).under (.name name)) (eachEntry read rest)).map fun p => (name, p.1) :: p.2

def toExcept {α : Type} : Checked α → Except SchemaFault α
  | .valid a => .ok a
  | .invalid issues => .error (.malformed issues)
  | .refused fault => .error fault

end Checked

/-! ## Single values -/

namespace Reading

def text : Value → Checked String
  | .text s => .valid s
  | _ => .issue .notText

def literal (word : String) : Value → Checked Unit
  | .text s => if s = word then .valid () else .issue (.notLiteral word)
  | _ => .issue (.notLiteral word)

def trueWords : List String := ["1", "on", "t", "true", "y", "yes"]

def falseWords : List String := ["0", "off", "f", "false", "n", "no"]

def bool : Value → Checked Bool
  | .bool b => .valid b
  | .int n =>
    if n = 0 then .valid false else if n = 1 then .valid true else .issue .unreadableBool
  | .float x =>
    match x.toInt? with
    | some 0 => .valid false
    | some 1 => .valid true
    | _ => .issue .notBool
  | .text s =>
    let word := s.map Char.toLower
    if word ∈ falseWords then .valid false
    else if word ∈ trueWords then .valid true
    else .issue .unreadableBool
  | _ => .issue .notBool

/-- The digits of a number, where single underscores may stand between two of them. -/
def ungroup : List Char → Option (List Char)
  | [] => some []
  | [c] => if c.isDigit then some [c] else none
  | c :: '_' :: d :: rest =>
    if c.isDigit ∧ d.isDigit then (ungroup (d :: rest)).map (c :: ·) else none
  | c :: rest => if c.isDigit then (ungroup rest).map (c :: ·) else none

/-- The integer of a text: blanks around it, a sign, and a fraction of zeros may stand with it. -/
def integerOfText? (s : String) : Option Int :=
  let cs := Text.trimmed s.toList
  let (negative, cs) :=
    match cs with
    | '-' :: cs => (true, cs)
    | '+' :: cs => (false, cs)
    | cs => (false, cs)
  let whole := cs.takeWhile (· ≠ '.')
  let tail := (cs.dropWhile (· ≠ '.')).drop 1
  if whole = [] ∨ !tail.all (· = '0') then none
  else (ungroup whole).map fun digits =>
    let n : Int := Double.digitsValue digits
    if negative then -n else n

def integer : Value → Checked Int
  | .int n => .valid n
  | .bool b => .valid (if b then 1 else 0)
  | .float x =>
    match x.toInt? with
    | some n => .valid n
    | none => .issue .fractionalInteger
  | .text s =>
    match integerOfText? s with
    | some n => .valid n
    | none => .issue .unreadableInteger
  | _ => .issue .notInteger

/-- An integer that is `least` or more. -/
def integerFrom (least : Int) (v : Value) : Checked Int :=
  match integer v with
  | .valid n => if n < least then .issue (.belowLeast least) else .valid n
  | other => other

/-- The number as a double; an integer out of range counts as infinite. -/
def number : Value → Checked Double
  | .float x => .valid x
  | .int n => .valid ((Double.ofInt? n).getD (.infinity (n < 0)))
  | .bool b => .valid ((Double.ofInt? (if b then 1 else 0)).getD .zero)
  | .text s =>
    match Double.ofText? (String.ofList (Text.trimmed s.toList)) with
    | some x => .valid x
    | none => .issue .unreadableNumber
  | _ => .issue .notNumber

def positive (v : Value) : Checked Double :=
  match number v with
  | .valid x => if x.isPositive then .valid x else .issue .notPositive
  | other => other

/-- An optional part of an object. -/
def part {α : Type} (entries : Entries) (name : String) (absent : α) (read : Value → Checked α) :
    Checked α :=
  match Entries.get? name entries with
  | some v => (read v).under (.name name)
  | none => .valid absent

def required {α : Type} (entries : Entries) (name : String) (read : Value → Checked α) :
    Checked α :=
  match Entries.get? name entries with
  | some v => (read v).under (.name name)
  | none => .invalid [⟨[.name name], .missing⟩]

def tuple {α : Type} (read : Value → Checked α) : Value → Checked (List α)
  | .list items => .each read 0 items
  | _ => .issue .notTuple

def list {α : Type} (read : Value → Checked α) : Value → Checked (List α)
  | .list items => .each read 0 items
  | _ => .issue .notList

def dictionary {α : Type} (read : Value → Checked α) : Value → Checked (List (String × α))
  | .object entries => .eachEntry read entries
  | _ => .issue .notObject

def shaped {α : Type} (shape : Shape) (read : Entries → Checked α) : Value → Checked α
  | .object entries => read entries
  | _ => .issue (.notShape shape)

/-- An object read by its tag `kind`; the tag is part of the place of every issue below. -/
def tagged {α : Type} (tags : List String) (read : String → Entries → Checked α) :
    Value → Checked α
  | .object entries =>
    match Entries.get? "kind" entries with
    | none => .issue .noTag
    | some (.text tag) =>
      if tag ∈ tags then (read tag entries).under (.name tag) else .issue (.unknownTag tag tags)
    | some other => .issue (.unknownTag other.plain tags)
  | _ => .issue .untaggable

end Reading

end SchemaLedger
