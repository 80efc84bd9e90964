import SchemaLedger.Error
import SchemaLedger.Schema.Basic
import SchemaLedger.Text.Parts

set_option autoImplicit false

/-!
# Paths

A path is a chain of single references that ends at a column, or that crosses one many-to-many
relationship. The parts of a path are separated by dots.
-/
namespace SchemaLedger.Query

namespace Path

/-- The parts between the dots; there is always one. -/
def parts (path : String) : List String := (Text.splitAtChar '.' path.toList).map String.ofList

/-- The parts before the last one. -/
def chain (path : String) : List String := (parts path).dropLast

def lastPart (path : String) : String := (parts path).getLast?.getD ""

/-- The names that a path may continue with. -/
def available (e : Entity) : List String := e.columnNames ++ e.links.map (·.name)

def unknown {α : Type} (path : String) (e : Entity) : Result α :=
  .error (.compile (.unknownField path e.name (available e)))

def target (s : Schema) (name : String) : Result Entity :=
  match s.entity? name with
  | some e => .ok e
  | none => .error (.defect .key name)

/-- The entity that a chain of single references leads to. -/
def walk (s : Schema) (path : String) : Entity → List String → Result Entity
  | e, [] => .ok e
  | e, part :: rest =>
    match e.relationship? part with
    | none => unknown path e
    | some (.many _) => .error (.compile (.crossesMany path e.name part))
    | some (.single r) => do
      let next ← target s r.target
      walk s path next rest

/-- A place where a path crosses a many-to-many relationship. -/
structure Crossing where
  /-- The references before it. -/
  chain : List String
  owner : Entity
  link : ManyLink
  /-- The parts after it. -/
  rest : List String

/-- The first crossing of a path, if it has one. -/
def crossingFrom (s : Schema) (path : String) : List String → Entity → List String →
    Result (Option Crossing)
  | _, _, [] => .ok none
  | chain, e, part :: rest =>
    match e.relationship? part, rest with
    | some (.many l), rest => .ok (some ⟨chain, e, l, rest⟩)
    | _, [] => .ok none
    | none, _ => unknown path e
    | some (.single r), rest => do
      let next ← target s r.target
      crossingFrom s path (chain ++ [part]) next rest

def crossing (s : Schema) (root : Entity) (path : String) : Result (Option Crossing) :=
  crossingFrom s path [] root (parts path)

/-- The references that a path follows before its column or its crossing. -/
def followed (s : Schema) (root : Entity) (path : String) : List String :=
  match crossing s root path with
  | .ok (some c) => c.chain
  | _ => chain path

end Path

end SchemaLedger.Query
