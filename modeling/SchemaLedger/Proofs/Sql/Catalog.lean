import Mathlib.Data.Set.Image
import SchemaLedger.Proofs.Sql.Ddl

set_option autoImplicit false

/-!
# Catalogs

What a database knows about its tables, as a set of facts, and what each statement does to it. Defaults
and the order of columns are left out, and so are rows.
-/
namespace SchemaLedger.Sql

inductive Fact where
  | table (name : String)
  | column (table name type : String) (nullable : Bool)
  | primaryKey (table : String) (columns : List String)
  | unique (table constraint column : String)
  | foreignKey (table column target targetColumn : String)

abbrev Catalog := Set Fact

namespace Fact

/-- The table that a fact is about. -/
def owner : Fact → String
  | .table n | .column n _ _ _ | .primaryKey n _ | .unique n _ _ | .foreignKey n _ _ _ => n

/-- Whether a fact goes when column `c` of table `n` goes. -/
def Involves (n c : String) : Fact → Prop
  | .table _ => False
  | .column t x _ _ | .unique t _ x | .foreignKey t x _ _ => t = n ∧ x = c
  | .primaryKey t columns => t = n ∧ c ∈ columns

/-- The fact with column `c` of table `n` replaced. -/
def amend (n c : String) (type : String → String) (nullable : Bool → Bool) : Fact → Fact
  | .column t x ty null =>
    if t = n ∧ x = c then .column t x (type ty) (nullable null) else .column t x ty null
  | f => f

/-- The name of a table after a renaming. -/
def newName (old new n : String) : String := if n = old then new else n

theorem newName_self (old new : String) : newName old new old = new := if_pos rfl

theorem newName_of_ne {old n : String} (new : String) (h : n ≠ old) : newName old new n = n := if_neg h

/-- The fact after a table is renamed; foreign keys follow. -/
def rename (old new : String) : Fact → Fact
  | .table n => .table (newName old new n)
  | .column n c type nullable => .column (newName old new n) c type nullable
  | .primaryKey n columns => .primaryKey (newName old new n) columns
  | .unique n constraint c => .unique (newName old new n) constraint c
  | .foreignKey n c target targetColumn =>
    .foreignKey (newName old new n) c (newName old new target) targetColumn

end Fact

/-- The type of a column in a catalog. A type that counts is an integer type with a default. -/
def Column.storedType (d : Dialect) (c : Column) : String :=
  if c.rowNumber then "INTEGER" else typeName d c.type

/-- What CREATE TABLE says of a table, its foreign keys resolved among the others. -/
def Table.Has (d : Dialect) (others : Tables) (t : Table) : Fact → Prop
  | .table n => n = t.name
  | .column n x type nullable =>
    n = t.name ∧ ∃ c ∈ t.columns, c.name = x ∧ c.storedType d = type ∧ c.nullable = nullable
  | .primaryKey n columns => n = t.name ∧ columns = t.primaryKey
  | .unique n constraint x => n = t.name ∧ ⟨constraint, x⟩ ∈ t.uniques
  | .foreignKey n x target y =>
    n = t.name ∧ ∃ k ∈ t.foreignKeys, others.resolve k = .ok ⟨x, target, y⟩

/-- What a column that is added to table `n` brings with it. -/
def added (d : Dialect) (n : String) (c : Column) : Option (String × String) → Catalog
  | none => {.column n c.name (typeName d c.type) c.nullable}
  | some (target, x) =>
    {.column n c.name (typeName d c.type) c.nullable, .foreignKey n c.name target x}

/-- The catalog after a statement. -/
def Statement.effect (d : Dialect) : Statement → Catalog → Catalog
  | .createTable others t, c => c ∪ {f | t.Has d others f}
  | .dropTable n, c => {f ∈ c | f.owner ≠ n}
  | .addColumn n column target, c => c ∪ added d n column target
  | .dropColumn n x, c => {f ∈ c | ¬ f.Involves n x}
  | .addUnique n key, c => c ∪ {.unique n key.constraint key.column}
  | .dropConstraint n constraint, c => {f ∈ c | ∀ x, f ≠ .unique n constraint x}
  | .changeType n x type _, c => Set.image (Fact.amend n x (fun _ => typeName d type) id) c
  | .setNotNull n x, c => Set.image (Fact.amend n x id fun _ => false) c
  | .dropNotNull n x, c => Set.image (Fact.amend n x id fun _ => true) c
  | .renameTable n m, c => Set.image (Fact.rename n m) c
  | .dropDefault _ _, c | .setDefault _ _ _, c | .fillNulls _ _ _, c | .copyRows _ _ _, c => c

/-- The catalog after a list of statements. -/
def run (d : Dialect) (list : List Statement) (c : Catalog) : Catalog :=
  list.foldl (fun c st => st.effect d c) c

/-- The catalog of a fresh database in which the tables of a schema are created. -/
def catalog (d : Dialect) (s : Schema) : Result Catalog := do
  let ts ← Tables.ofSchema d s
  let _ ← ts.mapM (createTable d ts)
  .ok (run d (ts.map (.createTable ts)) ∅)

variable {d : Dialect} {c : Catalog}

@[simp]
theorem run_nil : run d [] c = c := rfl

@[simp]
theorem run_cons (st : Statement) (list : List Statement) :
    run d (st :: list) c = run d list (st.effect d c) := rfl

@[simp]
theorem run_append (xs ys : List Statement) : run d (xs ++ ys) c = run d ys (run d xs c) :=
  List.foldl_append

theorem run_upkeep {n x : String} {list : List Statement}
    (h : ∀ st ∈ list, Ddl.Upkeep n x st) : run d list c = c := by
  induction list with
  | nil => rfl
  | cons st rest ih =>
    obtain ⟨hst, hrest⟩ := List.forall_mem_cons.1 h
    have heffect : st.effect d c = c := by cases hst <;> rfl
    rw [run_cons, heffect, ih hrest]

theorem mem_run_createTables (others : Tables) (ts : Tables) (f : Fact) :
    f ∈ run d (ts.map (.createTable others)) c ↔ f ∈ c ∨ ∃ t ∈ ts, t.Has d others f := by
  induction ts generalizing c with
  | nil => simp
  | cons t rest ih =>
    rw [List.map_cons, run_cons, ih]
    simp [Statement.effect, or_assoc]

theorem Table.owner_of_has {others : Tables} {t : Table} {f : Fact} (h : t.Has d others f) :
    f.owner = t.name := by
  cases f with
  | table n => exact h
  | column _ _ _ _ | primaryKey _ _ | unique _ _ _ | foreignKey _ _ _ _ => exact h.1

theorem mem_catalog {s : Schema} (h : catalog d s = .ok c) :
    ∃ ts, Tables.ofSchema d s = .ok ts ∧ (∀ t ∈ ts, ∃ text, createTable d ts t = .ok text) ∧
      ∀ f, f ∈ c ↔ ∃ t ∈ ts, t.Has d ts f := by
  obtain ⟨ts, hts, h⟩ := (Outcome.bind_eq_ok _ _ _).1 h
  obtain ⟨texts, htexts, h⟩ := (Outcome.bind_eq_ok _ _ _).1 h
  cases h
  exact ⟨ts, hts, (Outcome.mem_of_mapM htexts).1, fun f => by simp [mem_run_createTables]⟩

end SchemaLedger.Sql
