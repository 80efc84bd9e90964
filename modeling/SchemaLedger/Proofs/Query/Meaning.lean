import SchemaLedger.Proofs.Sql.Evaluation
import SchemaLedger.Query.Compile

set_option autoImplicit false

/-!
# What a predicate means

The meaning of a predicate on a row of its entity, in terms of rows and what they refer to. A path
follows references, and shows null as soon as one of them is null; over a many-to-many relationship it
shows a cell of each linked row. There are no joins here, and no occurrences of tables.
-/
namespace SchemaLedger.Query

open Sql (Cells Contents Row Truth)

variable {C : Cells} (s : Schema) (db : Contents C)

/-! ## Contents of a schema -/

/-- Contents that keep the constraints of a schema: keys are unique, columns that are not nullable have
no null, and what a reference or a link holds is the key of a row. -/
structure Satisfies : Prop where
  unique : ∀ e ∈ s.entities, (db e.name).Pairwise fun a b =>
    C.same (keyType e) (a (keyName e)) (b (keyName e)) = false
  fields : ∀ e ∈ s.entities, ∀ f ∈ e.fields, f.nullable = false → ∀ row ∈ db e.name,
    (row f.name).isSome = true
  references : ∀ e ∈ s.entities, ∀ r ∈ e.references, r.nullable = false → ∀ row ∈ db e.name,
    (row r.name).isSome = true
  targets : ∀ e ∈ s.entities, ∀ r ∈ e.references, ∀ target ∈ s.entities, target.name = r.target →
    ∀ row ∈ db e.name, (row r.name).isSome = true →
      ∃ t ∈ db target.name, C.same (keyType target) (row r.name) (t (keyName target)) = true
  owners : ∀ e ∈ s.entities, ∀ l ∈ e.links, ∀ link ∈ db (joinEntityName e.name l.name),
    ∃ row ∈ db e.name, C.same (keyType e) (link "owner") (row (keyName e)) = true
  linked : ∀ e ∈ s.entities, ∀ l ∈ e.links, ∀ target ∈ s.entities, target.name = l.target →
    ∀ link ∈ db (joinEntityName e.name l.name),
      ∃ t ∈ db target.name, C.same (keyType target) (link "has") (t (keyName target)) = true

/-! ## Paths -/

/-- The row whose key a reference holds. -/
def referenced (target : Entity) (v : Option C.Cell) : Option (Row C) :=
  (db target.name).find? fun t => C.same (keyType target) v (t (keyName target))

/-- The row that a chain of references leads to, if it leads to one. -/
def follow : Entity → Option (Row C) → List String → Option (Row C)
  | _, row, [] => row
  | e, row, part :: rest =>
    match e.relationship? part with
    | some (.single r) =>
      (s.entity? r.target).bind fun target =>
        follow target (row.bind fun row => referenced db target (row part)) rest
    | _ => none

/-- The rows that a many-to-many relationship leads to from a row. -/
def linkedRows (e : Entity) (l : ManyLink) (target : Entity) (row : Row C) : List (Row C) :=
  (db target.name).filter fun t => (db (joinEntityName e.name l.name)).any fun link =>
    C.same (keyType e) (link "owner") (row (keyName e)) &&
      C.same (keyType target) (link "has") (t (keyName target))

/-- What a path shows of a row: a cell, or a cell of each linked row, and the type of its column. -/
inductive Seen (C : Cells) where
  | one (type : LogicalType) (cell : Option C.Cell)
  | many (type : LogicalType) (cells : List (Option C.Cell))

/-- The cells of linked rows: of one column, or of the key if the path ends with the relationship. -/
def seeLinked (target : Entity) (rows : List (Row C)) : List String → Option (Seen C)
  | [] => some (.many (keyType target) (rows.map (· (keyName target))))
  | [name] => (columnType? s target name).map fun type => .many type (rows.map (· name))
  | _ => none

/-- The cell of a column. There is none without a row, as after a reference that is null. -/
def seeColumn (e : Entity) (row : Option (Row C)) (name : String) : Option (Seen C) :=
  (columnType? s e name).map fun type => .one type (row.bind (· name))

/-- What a path shows of a row of an entity. -/
def see : Entity → Option (Row C) → List String → Option (Seen C)
  | _, _, [] => none
  | e, row, part :: rest =>
    match e.relationship? part with
    | some (.many l) =>
      (s.entity? l.target).bind fun target =>
        seeLinked s target ((row.map (linkedRows db e l target)).getD []) rest
    | some (.single r) =>
      if rest.isEmpty then seeColumn s e row part
      else
        (s.entity? r.target).bind fun target =>
          see target (row.bind fun row => referenced db target (row part)) rest
    | none => if rest.isEmpty then seeColumn s e row part else none

/-! ## Predicates -/

/-- Over a many-to-many relationship a test is true if it is true of some linked row, else false. -/
def Seen.truth (test : LogicalType → Option C.Cell → Truth) : Seen C → Truth
  | .one type cell => test type cell
  | .many type cells => some (cells.any fun cell => test type cell = some true)

/-- A comparison with null asks whether a cell is null; the other operators have no answer. -/
def nullTest (op : Comparison) (cell : Option C.Cell) : Truth :=
  match op with
  | .eq => some cell.isNone
  | .ne => some cell.isSome
  | _ => none

/-- A comparison of a cell with a literal on its right. -/
def literalTest (op : Comparison) (v : Value) (type : LogicalType) (cell : Option C.Cell) : Truth :=
  if v.isNull then nullTest op cell else C.test op type type cell (C.literal type v)

/-- A comparison of a literal with a cell on its right. -/
def flippedTest (v : Value) (op : Comparison) (type : LogicalType) (cell : Option C.Cell) : Truth :=
  if v.isNull then nullTest op cell else C.test op type type (C.literal type v) cell

variable (root : Entity) (row : Row C)

def seePath (path : String) : Option (Seen C) := see s db root (some row) (Path.parts path)

/-- The comparison of a cell with what a path shows. -/
def pathTest (op : Comparison) (path : String) (type : LogicalType) (cell : Option C.Cell) : Truth :=
  match seePath s db root row path with
  | some (.one other b) => C.test op type other cell b
  | _ => none

/-- A comparison as it is written; there is no answer without a path in it. -/
def comparison : Expr → Comparison → Expr → Truth
  | .field path, op, .field other =>
    (seePath s db root row path).bind (Seen.truth (pathTest s db root row op other))
  | .field path, op, .value v => (seePath s db root row path).bind (Seen.truth (literalTest op v))
  | .value v, op, .field path => (seePath s db root row path).bind (Seen.truth (flippedTest v op))
  | _, _, _ => none

mutual

/-- The truth of a predicate on a row. -/
def meaning : Expr → Truth
  | .and operands => .combine .and (meanings operands)
  | .or operands => .combine .or (meanings operands)
  | .not operand => Truth.not (meaning operand)
  | .compare left op right => comparison s db root row left op right
  | .inSet (.field path) values =>
    (seePath s db root row path).bind (Seen.truth fun type cell => Sql.member C type cell values)
  | _ => none

def meanings : List Expr → List Truth
  | [] => []
  | e :: rest => meaning e :: meanings rest

end

mutual

/-- Whether each conjunction and each disjunction has operands. -/
def Expr.filled : Expr → Bool
  | .and operands => !operands.isEmpty && Expr.allFilled operands
  | .or operands => !operands.isEmpty && Expr.allFilled operands
  | .not operand => operand.filled
  | _ => true

def Expr.allFilled : List Expr → Bool
  | [] => true
  | e :: rest => e.filled && Expr.allFilled rest

end

/-- What an output shows: an own column, or the end of a path. -/
def Plan.shown (p : Plan) (path : String) : Option C.Cell :=
  if p.projections.isEmpty then row path
  else
    match seePath s db root row path with
    | some (.one _ cell) => cell
    | _ => none

/-- The rows that a plan asks for, each with what it shows. -/
def Plan.answer (p : Plan) : List (List (Option C.Cell)) :=
  ((db root.name).filter fun row => p.predicate.all fun e => meaning s db root row e = some true).map
    fun row => (p.outputs root).map (p.shown s db root row)

end SchemaLedger.Query
