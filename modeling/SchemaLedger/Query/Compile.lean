import SchemaLedger.Query.Path
import SchemaLedger.Query.Plan
import SchemaLedger.Sql.Dialect
import SchemaLedger.Sql.Fragment
import SchemaLedger.Sql.Select
import SchemaLedger.Sql.Table

set_option autoImplicit false

/-!
# Compiled queries

A plan as a selection over the tables of a schema. A chain of references is a join, outer as soon as
one of the references may be null; each chain is joined once, whatever mentions it, and the joins
stand in the order of length and then of name. A many-to-many relationship in a predicate asks for a
linked row, so that no row of the result is repeated.
-/
namespace SchemaLedger.Query

/-! ## Labels

The name that each column of a result has. A path through references is labelled by its parts; any
other column keeps its own name, unless that name is taken by a column before it. -/

/-- The names of the columns so far. -/
structure Labels where
  /-- Each name with whether it is a column's own. -/
  taken : List (String × Bool) := []
  /-- The columns that had to give way to a label. -/
  displaced : List String := []
  counted : Sql.Counted := {}

namespace Labels

def isDotted (path : String) : Bool := path.toList.contains '.'

def ofPath (path : String) : String :=
  String.ofList (path.toList.flatMap fun c => if c = '.' then ['_', '_'] else [c])

def take (ls : Labels) (name : String) (own : Bool) : Labels :=
  { ls with taken := if ls.taken.any (·.1 = name) then ls.taken else ls.taken ++ [(name, own)] }

def count (d : Dialect) (ls : Labels) (stem : String) : Option String × Labels :=
  let (label, counted) := ls.counted.next d.longestName stem
  (some label, { ls with counted })

/-- The label of the next column, if it needs one. -/
def next (d : Dialect) (ls : Labels) (path : String) : Option String × Labels :=
  if isDotted path then (some (ofPath path), ls.take (ofPath path) false)
  else
    match Entries.get? path ls.taken with
    | none => (none, ls.take path true)
    | some own =>
      if own || path ∈ ls.displaced then ls.count d (path ++ "_")
      else { ls with displaced := path :: ls.displaced }.count d path

def assign (d : Dialect) : Labels → List String → List (Option String)
  | _, [] => []
  | ls, path :: rest =>
    let (label, ls) := ls.next d path
    label :: assign d ls rest

end Labels

open Sql (ColumnRef Condition Occurrence Source Select)

/-! ## Columns -/

/-- The type of what a reference to an entity stores. -/
def keyType (e : Entity) : LogicalType :=
  match e.key? with
  | some key => key.type
  | none => .text

def keyName (e : Entity) : String :=
  match e.key? with
  | some key => key.name
  | none => ""

/-- The type of a column of an entity. -/
def columnType? (s : Schema) (e : Entity) (name : String) : Option LogicalType :=
  match e.field? name with
  | some f => some f.type
  | none =>
    match e.references.find? (·.name = name) with
    | some r => (s.entity? r.target).map keyType
    | none => none

/-- The occurrence that a chain of references leads to. -/
def occurrence (root : Entity) (chain : List String) : Occurrence :=
  if chain.isEmpty then .table root.name else .joined chain

/-- A column of an entity, read from an occurrence of its table. -/
def columnOf (s : Schema) (path : String) (e : Entity) (source : Occurrence) (name : String) :
    Result ColumnRef :=
  if name ∈ e.columnNames then
    match columnType? s e name with
    | some type => .ok ⟨source, name, type⟩
    | none => .error (.defect .key name)
  else Path.unknown path e

/-- The column that a path leads to over single references. -/
def resolve (s : Schema) (root : Entity) (path : String) : Result ColumnRef := do
  let e ← Path.walk s path root (Path.chain path)
  columnOf s path e (occurrence root (Path.chain path)) (Path.lastPart path)

def keyColumn (e : Entity) (source : Occurrence) : ColumnRef := ⟨source, keyName e, keyType e⟩

/-! ## Predicates -/

/-- What stands at a leaf of a predicate. -/
inductive Leaf where
  | compare (op : Comparison) (other : Expr)
  | oneOf (values : List Value)

namespace Leaf

def literalTest (column : ColumnRef) (op : Comparison) (v : Value) : Result Sql.Test :=
  match v, op with
  | .null, .eq => .ok (.isNull true column)
  | .null, .ne => .ok (.isNull false column)
  | .null, op => .error (.compile (.ordersNull op.symbol))
  | v, op => .ok (.compare op column (.literal column.type v))

/-- The test of a leaf on the column of its path. -/
def test (s : Schema) (root : Entity) (path : String) (column : ColumnRef) : Leaf → Result Sql.Test
  | .oneOf [] => .ok (.constant false)
  | .oneOf values => .ok (.oneOf true column values)
  | .compare op (.field other) => do
    let right ← if other = path then .ok column else resolve s root other
    .ok (.compare op column (.column right))
  | .compare op (.value v) => literalTest column op v
  | .compare _ other => .error (.compile (.notComparable other.kindName other.display))

end Leaf

/-- The columns of a join table. -/
def linkColumn (e : Entity) (source : Occurrence) (column : String) : ColumnRef :=
  ⟨source, column, keyType e⟩

/-- A test on a linked row: on a column of the target, or on its key as the link stores it. -/
def linkedRow (s : Schema) (root : Entity) (path : String) (c : Path.Crossing) (leaf : Leaf)
    (n : Nat) : Result Sql.LinkedRow := do
  let target ← Path.target s c.link.target
  let chain := c.chain ++ [c.link.name]
  let link := Occurrence.link chain n
  let has := linkColumn target link "has"
  let row (join : Option Sql.Join) (test : Sql.Test) : Sql.LinkedRow :=
    { link := ⟨joinEntityName c.owner.name c.link.name, link⟩, target := join,
      linkOwner := linkColumn c.owner link "owner",
      owner := keyColumn c.owner (occurrence root c.chain), test }
  match c.rest with
  | [] => do
    let test ← leaf.test s root path has
    .ok (row none test)
  | [name] =>
    if (target.relationship? name).any (·.link?.isSome) then
      .error (.compile (.pastMany path c.owner.name c.link.name))
    else do
      let source := Occurrence.linked chain n
      let column ← columnOf s path target source name
      let test ← leaf.test s root path column
      .ok (row (some ⟨⟨target.name, source⟩, false, has, keyColumn target source⟩) test)
  | _ => .error (.compile (.pastMany path c.owner.name c.link.name))

/-- The condition of a leaf, and the number of links so far. -/
def leafCondition (s : Schema) (root : Entity) (links : Nat) (path : String) (leaf : Leaf) :
    Result (Condition × Nat) := do
  match ← Path.crossing s root path with
  | none => do
    let column ← resolve s root path
    let test ← leaf.test s root path column
    .ok (.test test, links)
  | some c => do
    let row ← linkedRow s root path c leaf (links + 1)
    .ok (.linked row, links + 1)

/-- The field of a comparison that stands on the left, with the rest as a leaf. -/
def orient (s : Schema) (root : Entity) (left : Expr) (op : Comparison) (right : Expr) :
    Result (String × Leaf) :=
  match left.path?, right.path? with
  | some path, some other => do
    match ← Path.crossing s root other with
    | some _ => .error (.compile (.manyOnRight other))
    | none => .ok (path, .compare op right)
  | some path, none => .ok (path, .compare op right)
  | none, some path => .ok (path, .compare op.swapped left)
  | none, none => .error (.compile (.noField (Expr.compare left op right).display))

mutual

/-- The condition of a predicate, and the number of links so far. -/
def condition (s : Schema) (root : Entity) (links : Nat) : Expr → Result (Condition × Nat)
  | .and operands => do
    let (items, links) ← conditions s root links operands
    .ok (.connect .and items, links)
  | .or operands => do
    let (items, links) ← conditions s root links operands
    .ok (.connect .or items, links)
  | .not operand => do
    let (c, links) ← condition s root links operand
    .ok (c.negated, links)
  | .compare left op right => do
    let (path, leaf) ← orient s root left op right
    leafCondition s root links path leaf
  | .inSet (.field path) values => leafCondition s root links path (.oneOf values)
  | .inSet _ _ => .error (.defect .attribute "")
  | .field path => .error (.compile (.notPredicate "Field" (Expr.field path).display))
  | .value v => .error (.compile (.notPredicate "Value" (Expr.value v).display))
  | .bare v => .error (.compile (.notPredicate v.kindName v.display))

def conditions (s : Schema) (root : Entity) (links : Nat) :
    List Expr → Result (List Condition × Nat)
  | [] => .ok ([], links)
  | e :: rest => do
    let (c, links) ← condition s root links e
    let (cs, links) ← conditions s root links rest
    .ok (c :: cs, links)

end

/-! ## Joins -/

mutual

/-- The paths that a predicate mentions. -/
def Expr.paths : Expr → List String
  | .field path => [path]
  | .and operands => Expr.pathsOf operands
  | .or operands => Expr.pathsOf operands
  | .not operand => operand.paths
  | .compare left _ right => left.paths ++ right.paths
  | .inSet subject _ => subject.paths
  | _ => []

def Expr.pathsOf : List Expr → List String
  | [] => []
  | e :: rest => e.paths ++ Expr.pathsOf rest

end

/-- The chains of references that a plan mentions. -/
def Plan.chains (s : Schema) (root : Entity) (p : Plan) : List (List String) :=
  p.projections.map Path.chain ++ p.joins.map Path.parts ++
    ((p.predicate.map Expr.paths).getD []).map (Path.followed s root) ++
    p.ordering.map fun k => Path.chain k.path

def prefixes {α : Type} : List α → List (List α)
  | [] => []
  | x :: rest => [x] :: (prefixes rest).map (x :: ·)

/-- Shorter chains stand first, and chains of one length in the order of their names. -/
def chainBefore (a b : List String) : Bool :=
  a.length < b.length || (a.length = b.length && !b.lex a (fun x y => decide (x < y)))

/-- Every chain that is joined, each once. -/
def joinedChains (chains : List (List String)) : List (List String) :=
  (chains.flatMap prefixes).eraseDups.mergeSort chainBefore

/-- Whether a chain of references can lead nowhere. -/
def canMiss (s : Schema) : Entity → List String → Bool
  | _, [] => false
  | e, part :: rest =>
    match e.relationship? part with
    | some (.single r) => r.nullable || (s.entity? r.target).any (canMiss s · rest)
    | _ => false

/-- The join of the last reference of a chain to the occurrence before it. -/
def joinOf (s : Schema) (root : Entity) (chain : List String) : Result Sql.Join := do
  let path := ".".intercalate chain
  let parent ← Path.walk s path root chain.dropLast
  let target ← Path.walk s path root chain
  let source := occurrence root chain
  let left ← columnOf s path parent (occurrence root chain.dropLast) (chain.getLast?.getD "")
  .ok ⟨⟨target.name, source⟩, canMiss s root chain, left, keyColumn target source⟩

/-! ## Queries -/

/-- A query for one dialect, with the path that each column of a row stands for. -/
structure Compiled where
  select : Select
  labels : List String

namespace Compiled

def statement (d : Dialect) (c : Compiled) : Sql.Prepared := .ofFragment d (c.select.render d)

/-- A row by the paths of its columns; a repeated path has its last value. -/
def decode (c : Compiled) (row : List Value) : Result Entries :=
  if row.length = c.labels.length then .ok (Entries.ofPairs (c.labels.zip row))
  else .error (.defect .value "")

end Compiled

def sortKey (s : Schema) (root : Entity) (k : OrderKey) : Result Sql.SortKey := do
  match ← Path.crossing s root k.path with
  | some _ => .error (.compile (.manyInOrdering k.path))
  | none => do
    let column ← resolve s root k.path
    .ok ⟨column, some k.descending⟩

/-- The paths of the result. -/
def Plan.outputs (p : Plan) (root : Entity) : List String :=
  if p.projections.isEmpty then root.columnNames else p.projections

/-- An own column is named as it is, whether or not the name has dots. -/
def Plan.outputColumn (p : Plan) (s : Schema) (root : Entity) (path : String) : Result ColumnRef :=
  if p.projections.isEmpty then columnOf s path root (.table root.name) path else resolve s root path

def Plan.labels (p : Plan) (d : Dialect) (root : Entity) : List (Option String) :=
  if p.projections.isEmpty then root.columnNames.map fun _ => none
  else Labels.assign d {} p.projections

/-- The selection of a plan over a schema. -/
def Plan.compileOver (p : Plan) (d : Dialect) (s : Schema) (root : Entity) : Result Compiled := do
  let columns ← (p.outputs root).mapM (p.outputColumn s root)
  p.joins.forM fun path => do
    let _ ← Path.walk s path root (Path.parts path)
    Except.ok ()
  let condition ← p.predicate.mapM fun e => do
    let (c, _) ← condition s root 0 e
    Except.ok c
  let ordering ← p.ordering.mapM (sortKey s root)
  let joins ← (joinedChains (p.chains s root)).mapM (joinOf s root)
  let outputs := (columns.zip (p.labels d root)).map fun c => ⟨c.1, c.2⟩
  .ok ⟨{ outputs, source := { table := root.name }, joins, condition, ordering, limit := p.limit,
         offset := p.offset }, p.outputs root⟩

/-- The statement of a plan for one dialect. The tables of the schema have to be well-formed in it. -/
def Plan.compile (p : Plan) (d : Dialect) (s : Schema) : Result Compiled := do
  let _ ← Sql.Tables.ofSchema d s
  match s.entity? p.entity with
  | none => .error (.compile (.unknownEntity p.entity s.names))
  | some root => p.compileOver d s root

/-- The targets of one owner's many-to-many relationship, in the order of their keys. -/
def compileRelated (d : Dialect) (s : Schema) (entity name : String) (owner : Value) :
    Result Compiled := do
  let e ← liftSchema (s.entity entity)
  match e.relationship? name with
  | some (.many l) => do
    let _ ← Sql.Tables.ofSchema d s
    let target ← Path.target s l.target
    let link := joinEntityName entity l.name
    let columns ← target.columnNames.mapM fun c => columnOf s c target (.table target.name) c
    let key := keyColumn target (.table target.name)
    let ownerColumn := linkColumn e (.table link) "owner"
    .ok ⟨{ outputs := columns.map (⟨·, none⟩), source := { table := target.name },
           joins := [⟨{ table := link }, false, linkColumn target (.table link) "has", key⟩],
           condition := some (.test (.compare .eq ownerColumn (.literal ownerColumn.type owner))),
           ordering := [⟨key, none⟩] }, target.columnNames⟩
  | _ => .error (.compile (.unknownField name entity (e.links.map (·.name))))

end SchemaLedger.Query
