import SchemaLedger.Calendar
import SchemaLedger.Decimal.Layout
import SchemaLedger.Uuid

set_option autoImplicit false

/-!
# Values

What a column, a default, a parameter or a document holds. `Value.same` is equality as the data
model sees it: the truth values are the numbers 0 and 1, a double equals the integer it denotes, and
the order of an object's entries does not matter.
-/
namespace SchemaLedger

inductive Value where
  | null
  | bool (b : Bool)
  | int (n : Int)
  | float (x : Double)
  | text (s : String)
  | bytes (content : List UInt8)
  | date (d : Date)
  | timestamp (t : Timestamp)
  | uuid (u : Uuid)
  | list (items : List Value)
  | object (entries : List (String × Value))

instance : Inhabited Value := ⟨.null⟩

/-- Entries in insertion order. -/
abbrev Entries := List (String × Value)

namespace Entries

def get? {α : Type} (name : String) (entries : List (String × α)) : Option α :=
  (entries.find? (·.1 = name)).map (·.2)

/-- A present name keeps its place and takes the new content; a new one goes to the end. -/
def put {α : Type} (name : String) (content : α) : List (String × α) → List (String × α)
  | [] => [(name, content)]
  | (key, old) :: rest =>
    if key = name then (name, content) :: rest else (key, old) :: put name content rest

/-- The entries in order, a repeated name keeping its first place and its last content. -/
def ofPairs {α : Type} (pairs : List (String × α)) : List (String × α) :=
  pairs.foldl (fun entries p => put p.1 p.2 entries) []

def erase {α : Type} (name : String) (entries : List (String × α)) : List (String × α) :=
  entries.filter (·.1 ≠ name)

end Entries

namespace Value

def isNull : Value → Bool
  | .null => true
  | _ => false

/-- The number that a truth value or an integer stands for. -/
def asInt? : Value → Option Int
  | .bool b => some (if b then 1 else 0)
  | .int n => some n
  | _ => none

/-- Whether a double and an integer are the same number. -/
def sameAsInt (x : Double) (n : Int) : Bool := x.toInt? = some n

mutual

def same : Value → Value → Bool
  | .null, .null => true
  | .text a, .text b => a = b
  | .bytes a, .bytes b => a = b
  | .date a, .date b => a = b
  | .timestamp a, .timestamp b => a = b
  | .uuid a, .uuid b => a = b
  | .list a, .list b => sameItems a b
  | .object a, .object b => a.length = b.length && sameEntries a b
  | .float x, .float y => x.sameNumber y
  | .float x, .bool b => sameAsInt x (if b then 1 else 0)
  | .float x, .int n => sameAsInt x n
  | .bool b, .float y => sameAsInt y (if b then 1 else 0)
  | .int n, .float y => sameAsInt y n
  | .bool a, .bool b => a = b
  | .bool a, .int n => (if a then 1 else 0) = n
  | .int n, .bool b => n = (if b then 1 else 0)
  | .int n, .int m => n = m
  | _, _ => false

def sameItems : List Value → List Value → Bool
  | [], [] => true
  | a :: as, b :: bs => same a b && sameItems as bs
  | _, _ => false

/-- Whether each entry of the first object has an equal one in the second. -/
def sameEntries : List (String × Value) → List (String × Value) → Bool
  | [], _ => true
  | (name, a) :: rest, bs =>
    (match Entries.get? name bs with
      | some b => same a b
      | none => false) && sameEntries rest bs

end

/-- Empty things, zeros, the false value and null do not hold. -/
def holds : Value → Bool
  | .null => false
  | .bool b => b
  | .int n => n ≠ 0
  | .float x => !x.isZero
  | .text s => s ≠ ""
  | .bytes b => !b.isEmpty
  | .list xs => !xs.isEmpty
  | .object es => !es.isEmpty
  | _ => true

end Value

end SchemaLedger
