set_option autoImplicit false

/-!
# Logical types

The ten types a field can have, independent of any database.
-/
namespace SchemaLedger

inductive LogicalType where
  | bool
  | int
  | bigint
  | real
  | text
  | date
  | timestamp
  | blob
  | uuid
  | json
  deriving DecidableEq

namespace LogicalType

def all : List LogicalType :=
  [.bool, .int, .bigint, .real, .text, .date, .timestamp, .blob, .uuid, .json]

def name : LogicalType → String
  | .bool => "bool"
  | .int => "int"
  | .bigint => "bigint"
  | .real => "real"
  | .text => "text"
  | .date => "date"
  | .timestamp => "timestamp"
  | .blob => "blob"
  | .uuid => "uuid"
  | .json => "json"

def ofName? (s : String) : Option LogicalType := all.find? (·.name = s)

theorem ofName?_name (t : LogicalType) : ofName? t.name = some t := by
  cases t <;> decide

/-- The type of an integer that stands for itself: big from 32 bits on. -/
def ofMagnitude (n : Nat) : LogicalType := if n < 0x80000000 then .int else .bigint

/-- Types whose keys the program or the database can make up. -/
def canGenerate : LogicalType → Bool
  | .int | .bigint | .uuid => true
  | _ => false

/-- Types whose keys the database itself counts. -/
def isSerial : LogicalType → Bool
  | .int | .bigint => true
  | _ => false

def canDefault : LogicalType → Bool
  | .bool | .int | .bigint | .real | .text | .json => true
  | _ => false

/-- Types whose values are not compared, so that they make no keys. -/
def isKeyless : LogicalType → Bool
  | .json | .blob => true
  | _ => false

end LogicalType

end SchemaLedger
