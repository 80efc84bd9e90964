import Mathlib.Data.List.Perm.Basic
import SchemaLedger.Proofs.Keyed
import SchemaLedger.Proofs.Sql.Binding
import SchemaLedger.Proofs.Sql.Evaluation

set_option autoImplicit false

/-!
# Effects of writes

What a write makes of the rows of a table. A condition on a key reaches one row at most, and then the
write is an exchange: it puts one row in the place of another, or takes one away.
-/
namespace SchemaLedger.Sql

variable {C : Cells} {α : Type}

/-! ## Rows -/

/-- A row with new contents in the columns that are assigned. -/
def Assignment.write (assignments : List Assignment) (row : Row C) : Row C := fun column =>
  match assignments.find? (·.column = column) with
  | some a => C.literal a.type a.value
  | none => row column

/-- Whether a statement on a table with this condition reaches a row. -/
def Condition.reaches (c : Condition) (db : Contents C) (table : String) (row : Row C) : Bool :=
  c.eval db (Scope.empty.put (.table table) row) = some true

/-- A table has new rows in the place of old ones; every other row stays as it is. -/
structure Exchanged (table : String) (old new : List (Row C)) (before after : Contents C) : Prop where
  rows : ∃ others, (before table).Perm (old ++ others) ∧ (after table).Perm (new ++ others)
  others : ∀ other ≠ table, after other = before other

section Single

variable {p : α → Bool} {xs others : List α} {x : α}

/-- If no two elements pass a test together, none does or exactly one. -/
theorem none_or_single {R : α → α → Prop} (hx : xs.Pairwise R)
    (hp : ∀ x y, R x y → p x = true → p y = false) :
    (∀ x ∈ xs, p x = false) ∨
      ∃ x others, xs.Perm (x :: others) ∧ p x = true ∧ ∀ y ∈ others, p y = false := by
  induction xs with
  | nil => exact Or.inl (List.forall_mem_nil _)
  | cons x rest ih =>
    obtain ⟨hfirst, hrest⟩ := List.pairwise_cons.1 hx
    cases hpx : p x with
    | true => exact Or.inr ⟨x, rest, .refl _, hpx, fun y hy => hp x y (hfirst y hy) hpx⟩
    | false =>
      rcases ih hrest with hnone | ⟨y, others, hperm, hpy, hothers⟩
      · exact Or.inl (List.forall_mem_cons.2 ⟨hpx, hnone⟩)
      · exact Or.inr ⟨y, x :: others, (hperm.cons x).trans (.swap y x others), hpy,
          List.forall_mem_cons.2 ⟨hpx, hothers⟩⟩

theorem map_single {f : α → α} (hperm : xs.Perm (x :: others)) (hx : p x = true)
    (hothers : ∀ y ∈ others, p y = false) :
    (xs.map fun y => if p y then f y else y).Perm (f x :: others) := by
  have hsame : others.map (fun y => if p y then f y else y) = others := by
    rw [List.map_congr_left fun y hy => by rw [hothers y hy], List.map_id'']
    simp
  refine (hperm.map _).trans ?_
  rw [List.map_cons, hsame, if_pos hx]

theorem filter_single (hperm : xs.Perm (x :: others)) (hx : p x = true)
    (hothers : ∀ y ∈ others, p y = false) : (xs.filter fun y => !p y).Perm others := by
  refine (hperm.filter _).trans ?_
  rw [List.filter_cons_of_neg (by simp [hx]),
    List.filter_eq_self.2 fun y hy => by simp [hothers y hy]]

theorem countP_single (hperm : xs.Perm (x :: others)) (hx : p x = true)
    (hothers : ∀ y ∈ others, p y = false) : xs.countP p = 1 := by
  rw [hperm.countP_eq, List.countP_cons_of_pos hx,
    List.countP_eq_zero.2 fun y hy => by simp [hothers y hy]]

end Single

/-! ## Assignments -/

theorem write_of_mem {assignments : List Assignment} {a : Assignment} (row : Row C)
    (hd : (assignments.map (·.column)).Nodup) (ha : a ∈ assignments) :
    Assignment.write assignments row a.column = C.literal a.type a.value := by
  rw [Assignment.write, (Keyed.find?_eq_some hd a.column a).2 ⟨ha, rfl⟩]

theorem write_of_notMem {assignments : List Assignment} {column : String} (row : Row C)
    (h : column ∉ assignments.map (·.column)) :
    Assignment.write assignments row column = row column := by
  rw [Assignment.write, (Keyed.find?_eq_none column).2 fun a ha heq =>
    h (List.mem_map.2 ⟨a, ha, heq⟩)]

/-! ## Conditions -/

/-- The test of a query that a column holds a value. -/
def equal (c : ColumnRef) (v : Value) : Test :=
  if v.isNull then .isNull true c else .compare .eq c (.literal c.type v)

/-- A test for the rows with a value in a column, as a query has it or as a write. -/
def Test.Seeks (c : ColumnRef) (v : Value) (t : Test) : Prop := t = equal c v ∨ t = holding c v

theorem eval_of_seeks_null {c : ColumnRef} {t : Test} (h : t.Seeks c .null) (sc : Scope C) :
    t.eval sc = some (sc.read c).isNone := by
  have hnull : (Test.isNull true c).eval sc = some (sc.read c).isNone :=
    congrArg some (by cases sc.read c <;> rfl)
  rcases h with rfl | rfl <;> exact hnull

/-- Both tests compare the cell with the value as its column would hold it. -/
theorem eval_of_seeks {c : ColumnRef} {v : Value} {t : Test} (h : t.Seeks c v)
    (hv : c.type.admits v = true) (ht : c.type ≠ .json) (hn : v ≠ .null) (sc : Scope C) :
    t.eval sc = some true ↔ C.same c.type (sc.read c) (C.literal c.type v) = true := by
  have hsame : (Test.compare .eq c (.literal c.type v)).eval sc = some true ↔
      C.same c.type (sc.read c) (C.literal c.type v) = true := by
    rw [Cells.same, decide_eq_true_iff]
    rfl
  rcases h with rfl | rfl
  · rw [equal, if_neg]
    · exact hsame
    · cases v <;> first | exact absurd rfl hn | exact Bool.false_ne_true
  · rw [← hsame]
    have htype := typeBeside_of_admits hv ht
    have hcases := LogicalType.admitted_of_admits hv ht
    generalize hc : c.type = type at *
    cases hcases with
    | null t => exact absurd rfl hn
    | _ =>
      simp only [holding, Test.eval, Operand.type, Operand.read, htype, hc]

/-! ## Selections -/

/-- A selection from one table gives the rows that its condition reaches. -/
theorem rows_single (db : Contents C) (table : String) {outputs : List Output}
    (h : ∀ o ∈ outputs, o.column.source = .table table) (c : Condition) :
    Select.rows db { outputs, source := { table }, condition := some c } =
      ((db table).filter (c.reaches db table)).map fun row =>
        outputs.map fun o => row o.column.column := by
  have hscopes : Select.scopes db { outputs, source := { table }, condition := some c } =
      ((db table).filter (c.reaches db table)).map (Scope.empty.put (.table table)) := by
    rw [Select.scopes, scan, joinAll, List.foldl_nil, List.filter_map]
    rfl
  rw [Select.rows, hscopes, List.map_map]
  refine List.map_congr_left fun row _ => List.map_congr_left fun o ho => ?_
  have hread := Scope.read_put_self Scope.empty row o.column
  rw [h o ho] at hread
  exact hread

end SchemaLedger.Sql
