import SchemaLedger.Query.Expr

set_option autoImplicit false

/-!
# Plans

A query for rows of one entity, independent of any database system. Each operation gives a new plan.
-/
namespace SchemaLedger.Query

structure OrderKey where
  path : String
  descending : Bool := false
  deriving DecidableEq

/-- A path; a minus sign in front of it asks for descending order. -/
def OrderKey.ofText (s : String) : OrderKey :=
  match s.toList with
  | '-' :: path => ⟨String.ofList path, true⟩
  | _ => ⟨s, false⟩

structure Plan where
  entity : String
  predicate : Option Expr := none
  /-- Paths of the columns; none means all columns of the entity. -/
  projections : List String := []
  /-- Chains of references that are joined even if nothing else mentions them. -/
  joins : List String := []
  ordering : List OrderKey := []
  limit : Option Int := none
  offset : Option Int := none

namespace Plan

/-- No predicate at all if the bare null stands in its place. -/
def present (e : Expr) : Option Expr :=
  match e with
  | .bare .null => none
  | e => some e

/-- One more predicate, which has to hold too. -/
def restrict (predicate : Option Expr) (e : Expr) : Result (Option Expr) :=
  match predicate with
  | none => .ok (present e)
  | some p => (p.both e).map some

def filter (p : Plan) (predicates : List Expr) : Result Plan := do
  let predicate ← predicates.foldlM restrict p.predicate
  .ok { p with predicate }

def select (p : Plan) (paths : List String) : Plan := { p with projections := paths }

def join (p : Plan) (paths : List String) : Plan := { p with joins := p.joins ++ paths }

def orderBy (p : Plan) (keys : List OrderKey) : Plan := { p with ordering := p.ordering ++ keys }

def paginate (p : Plan) (limit offset : Option Int) : Plan := { p with limit, offset }

end Plan

end SchemaLedger.Query
