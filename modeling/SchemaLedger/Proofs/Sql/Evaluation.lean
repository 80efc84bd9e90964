import Mathlib.Data.List.Basic
import SchemaLedger.Sql.Select

set_option autoImplicit false

/-!
# Evaluation

What a selection gives on the contents of a database. A truth is unknown as soon as null has a part
in it, and a row is in a result where the condition is true. Each occurrence of a table in a selection
is read by what it is, not by how it is called.
-/
namespace SchemaLedger

def Comparison.holds : Comparison → Ordering → Bool
  | .eq, o => o = .eq
  | .ne, o => o ≠ .eq
  | .lt, o => o = .lt
  | .le, o => o ≠ .gt
  | .gt, o => o = .gt
  | .ge, o => o ≠ .lt

theorem Comparison.holds_negated (op : Comparison) (o : Ordering) :
    op.negated.holds o = !op.holds o := by
  cases op <;> cases o <;> rfl

theorem Comparison.holds_swapped (op : Comparison) (o : Ordering) :
    op.swapped.holds o.swap = op.holds o := by
  cases op <;> cases o <;> rfl

namespace Sql

/-! ## Truth -/

/-- A truth value of SQL; none is unknown. -/
abbrev Truth := Option Bool

namespace Truth

def not : Truth → Truth := Option.map (!·)

/-- One operand that decides a connective is enough; else all of them have to be known. -/
def combine (k : Connective) (ts : List Truth) : Truth :=
  if some (!k.neutral) ∈ ts then some !k.neutral
  else if none ∈ ts then none
  else some k.neutral

variable {k : Connective}

theorem combine_eq_decided (ts : List Truth) :
    combine k ts = some (!k.neutral) ↔ some (!k.neutral) ∈ ts := by
  unfold combine
  split
  · simpa
  · split <;> simp_all

theorem combine_eq_none (ts : List Truth) :
    combine k ts = none ↔ some (!k.neutral) ∉ ts ∧ none ∈ ts := by
  unfold combine
  split
  · simp_all
  · split <;> simp_all

theorem combine_eq_neutral (ts : List Truth) :
    combine k ts = some k.neutral ↔ ∀ t ∈ ts, t = some k.neutral := by
  have hcases : ∀ t : Truth, t = some (!k.neutral) ∨ t = none ∨ t = some k.neutral := by
    cases k <;> rintro (_ | _ | _) <;> simp [Connective.neutral]
  constructor
  · intro h t ht
    rcases hcases t with rfl | rfl | rfl
    · rw [(combine_eq_decided ts).2 ht] at h
      simp at h
    · by_cases hd : some (!k.neutral) ∈ ts
      · rw [(combine_eq_decided ts).2 hd] at h
        simp at h
      · rw [(combine_eq_none ts).2 ⟨hd, ht⟩] at h
        cases h
    · rfl
  · intro h
    have hd : some (!k.neutral) ∉ ts := fun hm => by simpa using h _ hm
    have hn : none ∉ ts := fun hm => nomatch h _ hm
    simp [combine, hd, hn]

/-- Two truths are equal if they are unknown together and decide a connective together. -/
theorem eq_of_iff {a b : Truth} (k : Connective) (hd : a = some (!k.neutral) ↔ b = some (!k.neutral))
    (hn : a = none ↔ b = none) : a = b := by
  revert hd hn
  cases k <;> match a, b with
    | none, none | none, some true | none, some false | some true, none | some false, none
    | some true, some true | some true, some false | some false, some true
    | some false, some false => simp [Connective.neutral]

theorem combine_congr {ts us : List Truth} (h : ∀ t, t ≠ some k.neutral → (t ∈ ts ↔ t ∈ us)) :
    combine k ts = combine k us := by
  have hd : some (!k.neutral) ∈ ts ↔ some (!k.neutral) ∈ us := h _ (by cases k <;> decide)
  have hn : none ∈ ts ↔ none ∈ us := h none nofun
  simp only [combine, hd, hn]

theorem combine_singleton (t : Truth) : combine k [t] = t := by
  refine eq_of_iff k ?_ ?_
  · rw [combine_eq_decided, List.mem_singleton, eq_comm]
  · rw [combine_eq_none, List.mem_singleton, List.mem_singleton]
    constructor
    · exact fun h => h.2.symm
    · rintro rfl
      exact ⟨nofun, rfl⟩

/-- A list of lists is combined at once or one after the other. -/
theorem combine_flatMap {α : Type} (f : α → List Truth) (xs : List α) :
    combine k (xs.flatMap f) = combine k (xs.map fun x => combine k (f x)) := by
  refine eq_of_iff k ?_ ?_
  · simp only [combine_eq_decided, List.mem_flatMap, List.mem_map]
  · simp only [combine_eq_none, List.mem_flatMap, List.mem_map, combine_eq_decided]
    constructor
    · rintro ⟨hd, x, hx, hn⟩
      exact ⟨hd, x, hx, fun h => hd ⟨x, hx, h⟩, hn⟩
    · rintro ⟨hd, x, hx, -, hn⟩
      exact ⟨hd, x, hx, hn⟩

end Truth

/-! ## Contents -/

/-- The cells of a database: how it compares them, by the types of the columns they belong to, and what
it makes of a literal. Equal cells of one type compare alike with every other cell. -/
structure Cells where
  Cell : Type
  compare : LogicalType → LogicalType → Cell → Cell → Ordering
  literal : LogicalType → Value → Option Cell
  swap : ∀ t u a b, (compare t u a b).swap = compare u t b a
  congr : ∀ t u a b c, compare t t a b = .eq → compare t u a c = compare t u b c

/-- A row by the names of its columns; none is null. -/
abbrev Row (C : Cells) := String → Option C.Cell

/-- The rows of each table. -/
abbrev Contents (C : Cells) := String → List (Row C)

namespace Cells

variable (C : Cells)

/-- The row that an outer join makes up. -/
def nullRow : Row C := fun _ => none

/-- A comparison of two cells of columns of given types. -/
def test (op : Comparison) (t u : LogicalType) (a b : Option C.Cell) : Truth :=
  match a, b with
  | some a, some b => some (op.holds (C.compare t u a b))
  | _, _ => none

/-- Whether two cells of one type are equal; null equals nothing. -/
def same (t : LogicalType) (a b : Option C.Cell) : Bool := C.test .eq t t a b = some true

variable {C}

theorem test_negated (op : Comparison) (t u : LogicalType) (a b : Option C.Cell) :
    C.test op.negated t u a b = Truth.not (C.test op t u a b) := by
  cases a with
  | none => rfl
  | some a =>
    cases b with
    | none => rfl
    | some b => exact congrArg some (op.holds_negated _)

theorem test_swapped (op : Comparison) (t u : LogicalType) (a b : Option C.Cell) :
    C.test op.swapped u t b a = C.test op t u a b := by
  cases a with
  | none => cases b <;> rfl
  | some a =>
    cases b with
    | none => rfl
    | some b =>
      simp only [test]
      rw [← C.swap, Comparison.holds_swapped]

theorem same_iff (t : LogicalType) (a b : Option C.Cell) :
    C.same t a b = true ↔ ∃ x y, a = some x ∧ b = some y ∧ C.compare t t x y = .eq := by
  cases a <;> cases b <;> simp [same, test, Comparison.holds]

theorem same_comm (t : LogicalType) (a b : Option C.Cell) : C.same t a b = C.same t b a := by
  rw [same, same, ← test_swapped]
  rfl

theorem same_none (t : LogicalType) (b : Option C.Cell) : C.same t none b = false := rfl

/-- Equal cells pass the same tests. -/
theorem test_congr {t : LogicalType} {a b : Option C.Cell} (h : C.same t a b = true)
    (op : Comparison) (u : LogicalType) (c : Option C.Cell) : C.test op t u a c = C.test op t u b c := by
  obtain ⟨x, y, rfl, rfl, hxy⟩ := (same_iff t a b).1 h
  cases c with
  | none => rfl
  | some z => exact congrArg (fun o => some (op.holds o)) (C.congr t u x y z hxy)

theorem same_trans {t : LogicalType} {a b c : Option C.Cell} (hab : C.same t a b = true)
    (hbc : C.same t b c = true) : C.same t a c = true := by
  rw [same, test_congr hab]
  exact hbc

end Cells

/-! ## Scopes -/

/-- The row that each occurrence of a table stands at. -/
abbrev Scope (C : Cells) := Occurrence → Row C

variable {C : Cells}

def Scope.empty : Scope C := fun _ => C.nullRow

def Scope.put (sc : Scope C) (o : Occurrence) (row : Row C) : Scope C := Function.update sc o row

def Scope.read (sc : Scope C) (c : ColumnRef) : Option C.Cell := sc c.source c.column

theorem Scope.read_put_of_ne (sc : Scope C) {o : Occurrence} (row : Row C) {c : ColumnRef}
    (h : c.source ≠ o) : (sc.put o row).read c = sc.read c := by
  simp [read, put, Function.update_of_ne h]

theorem Scope.read_put_self (sc : Scope C) (row : Row C) (c : ColumnRef) :
    (sc.put c.source row).read c = row c.column := by
  simp [read, put]

namespace Operand

def type : Operand → LogicalType
  | .column c => c.type
  | .literal type _ => type
  | .named _ type _ => type
  | .truth _ => .bool

def read (sc : Scope C) : Operand → Option C.Cell
  | .column c => sc.read c
  | .literal type v => C.literal type v
  | .named _ type v => C.literal type v
  | .truth b => C.literal .bool (.bool b)

end Operand

/-- Whether a cell is a member of a list of literals of its type. -/
def member (C : Cells) (t : LogicalType) (a : Option C.Cell) (vs : List Value) : Truth :=
  .combine .or (vs.map fun v => C.test .eq t t a (C.literal t v))

namespace Test

def eval (sc : Scope C) : Test → Truth
  | .constant b => some b
  | .compare op left right => C.test op left.type right.type (sc.read left) (right.read sc)
  | .isNull expected c => some ((sc.read c).isNone = expected)
  | .oneOf true c vs => member C c.type (sc.read c) vs
  | .oneOf false c vs => Truth.not (member C c.type (sc.read c) vs)

theorem eval_negated (sc : Scope C) (t : Test) : t.negated.eval sc = Truth.not (t.eval sc) := by
  cases t with
  | constant b => rfl
  | compare op left right => exact Cells.test_negated op _ _ _ _
  | isNull expected c => cases h : sc.read c <;> cases expected <;> simp [negated, eval, Truth.not, h]
  | oneOf expected c vs =>
    cases expected with
    | true => rfl
    | false => simp [negated, eval, Truth.not, Function.comp_def]

end Test

/-! ## Joins -/

namespace Join

/-- The scopes with a partner of the row before. -/
def partners (db : Contents C) (sc : Scope C) (j : Join) : List (Scope C) :=
  ((db j.source.table).map (sc.put j.source.occurrence)).filter fun sc =>
    (Test.compare .eq j.left (.column j.right)).eval sc = some true

def eval (db : Contents C) (j : Join) (sc : Scope C) : List (Scope C) :=
  if j.outer && (j.partners db sc).isEmpty then [sc.put j.source.occurrence C.nullRow]
  else j.partners db sc

theorem mem_eval_inner {db : Contents C} {sc sc' : Scope C} {j : Join} (h : j.outer = false) :
    sc' ∈ j.eval db sc ↔ ∃ row ∈ db j.source.table, sc' = sc.put j.source.occurrence row ∧
      (Test.compare .eq j.left (.column j.right)).eval sc' = some true := by
  simp only [eval, h, partners, Bool.false_and, Bool.false_eq_true, if_false, List.mem_filter,
    List.mem_map, decide_eq_true_eq]
  constructor
  · rintro ⟨⟨row, hrow, rfl⟩, hon⟩
    exact ⟨row, hrow, rfl, hon⟩
  · rintro ⟨row, hrow, rfl, hon⟩
    exact ⟨⟨row, hrow, rfl⟩, hon⟩

end Join

/-- The scopes of a row and its joins, one join after the other. -/
def joinAll (db : Contents C) (joins : List Join) (scs : List (Scope C)) : List (Scope C) :=
  joins.foldl (fun scs j => scs.flatMap (j.eval db)) scs

theorem joinAll_flatMap {α : Type} (db : Contents C) (joins : List Join) (f : α → List (Scope C))
    (xs : List α) :
    joinAll db joins (xs.flatMap f) = xs.flatMap fun x => joinAll db joins (f x) := by
  induction joins generalizing f with
  | nil => rfl
  | cons j rest ih =>
    rw [joinAll, List.foldl_cons, List.flatMap_assoc]
    exact ih _

/-- The scopes that a source and its joins give inside another scope. -/
def scan (db : Contents C) (sc : Scope C) (source : Source) (joins : List Join) : List (Scope C) :=
  joinAll db joins ((db source.table).map (sc.put source.occurrence))

theorem scan_eq (db : Contents C) (sc : Scope C) (source : Source) (joins : List Join) :
    scan db sc source joins =
      (db source.table).flatMap fun row => joinAll db joins [sc.put source.occurrence row] := by
  rw [scan, List.map_eq_flatMap, joinAll_flatMap]

/-! ## Conditions -/

def LinkedRow.eval (db : Contents C) (sc : Scope C) (r : LinkedRow) : Truth :=
  some ((scan db sc r.link r.target.toList).any fun sc =>
    Truth.combine .and [(Test.compare .eq r.linkOwner (.column r.owner)).eval sc, r.test.eval sc] =
      some true)

namespace Condition

mutual

def eval (db : Contents C) (sc : Scope C) : Condition → Truth
  | .test t => t.eval sc
  | .settled b => some b
  | .linked row => row.eval db sc
  | .list k items => .combine k (evalItems db sc items)
  | .negation c => Truth.not (eval db sc c)

def evalItems (db : Contents C) (sc : Scope C) : List Condition → List Truth
  | [] => []
  | c :: rest => eval db sc c :: evalItems db sc rest

end

theorem evalItems_eq (db : Contents C) (sc : Scope C) (cs : List Condition) :
    evalItems db sc cs = cs.map (eval db sc) := by
  induction cs with
  | nil => rfl
  | cons c rest ih => rw [evalItems, ih, List.map_cons]

theorem eval_negated (db : Contents C) (sc : Scope C) (c : Condition) :
    c.negated.eval db sc = Truth.not (c.eval db sc) := by
  cases c with
  | test t => exact t.eval_negated sc
  | _ => rfl

theorem eval_of_constant? {c : Condition} {b : Bool} (h : c.constant? = some b) (db : Contents C)
    (sc : Scope C) : c.eval db sc = some b := by
  cases c with
  | test t =>
    cases t with
    | constant b' => exact h
    | _ => cases h
  | _ => cases h

theorem combine_operandsOf (db : Contents C) (sc : Scope C) (k : Connective) (c : Condition) :
    Truth.combine k ((operandsOf k c).map (eval db sc)) = c.eval db sc := by
  cases c with
  | list k' items =>
    simp only [operandsOf]
    split
    · next h => rw [eval, evalItems_eq, h]
    · exact Truth.combine_singleton _
  | _ => exact Truth.combine_singleton _

/-- The operands that a connective leaves out say nothing. -/
theorem combine_filter (db : Contents C) (sc : Scope C) (k : Connective) (cs : List Condition) :
    Truth.combine k ((cs.filter (·.constant? ≠ some k.neutral)).map (eval db sc)) =
      Truth.combine k (cs.map (eval db sc)) := by
  refine Truth.combine_congr fun t ht => ?_
  simp only [List.mem_map, List.mem_filter, decide_eq_true_eq]
  constructor
  · rintro ⟨c, ⟨hc, -⟩, rfl⟩
    exact ⟨c, hc, rfl⟩
  · rintro ⟨c, hc, rfl⟩
    exact ⟨c, ⟨hc, fun h => ht (eval_of_constant? h db sc)⟩, rfl⟩

/-- Simplifying a list of operands keeps its truth. -/
theorem eval_connect (db : Contents C) (sc : Scope C) (k : Connective) {cs : List Condition}
    (h : cs ≠ []) : (connect k cs).eval db sc = .combine k (cs.map (eval db sc)) := by
  unfold connect
  split
  · next hany =>
    obtain ⟨c, hc, hconst⟩ := List.any_eq_true.1 hany
    refine ((Truth.combine_eq_decided _).2 (List.mem_map.2 ⟨c, hc, ?_⟩)).symm
    exact eval_of_constant? (of_decide_eq_true hconst) db sc
  · rw [← combine_filter]
    generalize cs.filter (·.constant? ≠ some k.neutral) = kept
    match kept, cs with
    | [], [] => exact absurd rfl h
    | [], _ :: _ => cases k <;> rfl
    | [c], _ => exact (Truth.combine_singleton _).symm
    | c :: c' :: rest, _ =>
      rw [eval, evalItems_eq, List.map_flatMap, Truth.combine_flatMap]
      simp only [combine_operandsOf]

end Condition

/-! ## Selections -/

namespace Select

/-- The scopes of the rows, in no particular order. -/
def scopes (db : Contents C) (s : Select) : List (Scope C) :=
  (scan db .empty s.source s.joins).filter fun sc =>
    s.condition.all fun c => c.eval db sc = some true

/-- The rows of a result, without its ordering and without limit and offset. -/
def rows (db : Contents C) (s : Select) : List (List (Option C.Cell)) :=
  (s.scopes db).map fun sc => s.outputs.map fun o => sc.read o.column

end Select

end Sql

end SchemaLedger
