set_option autoImplicit false

/-!
# Dialects

The two database systems that statements are written for.
-/
namespace SchemaLedger

inductive Dialect where
  | sqlite
  | postgresql
  deriving DecidableEq

namespace Dialect

def name : Dialect → String
  | .sqlite => "sqlite"
  | .postgresql => "postgresql"

def all : List Dialect := [.sqlite, .postgresql]

def names : List String := all.map (·.name)

def ofName? (s : String) : Option Dialect := all.find? (·.name = s)

/-- The length of the longest name that the system keeps whole. -/
def longestName : Dialect → Nat
  | .sqlite => 9999
  | .postgresql => 63

/-- The statement that keeps other migrators out until the transaction ends. -/
def lockStatements : Dialect → List String
  | .sqlite => []
  | .postgresql => ["SELECT pg_advisory_xact_lock(7350211113)"]

end Dialect

end SchemaLedger
