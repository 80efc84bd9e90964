import SchemaLedger.Proofs.Session.Database
import SchemaLedger.Value.Display

set_option autoImplicit false

/-!
# A database in memory

A database of SQLite that keeps the rows of a schema, for schemas whose keys are counted. It holds the
values of each record, refuses what would give a column a value of another type or two records one key,
and undoes all that was written when a transaction is rolled back.
-/
namespace SchemaLedger

open Sql (Assignment)

namespace Memory

/-! ## Cells -/

def kind : Value → Nat
  | .int _ => 0
  | .text _ => 1
  | _ => 2

def number : Value → Int
  | .int n => n
  | _ => 0

def label : Value → String
  | .int _ => ""
  | .text s => s
  | v => v.display

/-- Numbers and texts are compared as what they are, other cells as they are displayed. -/
def order (a b : Value) : Ordering :=
  (compare (kind a) (kind b)).then
    ((compare (number a) (number b)).then (compare (label a) (label b)))

theorem swap_order (a b : Value) : (order a b).swap = order b a := by
  rw [order, Ordering.swap_then, Ordering.swap_then, ← Std.OrientedCmp.eq_swap,
    ← Std.OrientedCmp.eq_swap, ← Std.OrientedCmp.eq_swap, order]

theorem order_eq_eq {a b : Value} :
    order a b = .eq ↔ kind a = kind b ∧ number a = number b ∧ label a = label b := by
  simp only [order, Ordering.then_eq_eq, Std.LawfulEqOrd.compare_eq_iff_eq]

/-- What a column of a type holds for a value. -/
def literal (t : LogicalType) (v : Value) : Option Value :=
  match Sql.Binding.bind? .sqlite t v with
  | some (.plain x) => if x.isNull then none else some x
  | _ => none

abbrev cells : Sql.Cells where
  Cell := Value
  compare _ _ := order
  literal := literal
  swap _ _ := swap_order
  congr _ _ a b c h := by
    obtain ⟨hkind, hnumber, hlabel⟩ := order_eq_eq.1 h
    rw [order, order, hkind, hnumber, hlabel]

/-- A cell without a value is shown as null. -/
def shown (cell : Option cells.Cell) : Value := Option.getD cell Value.null

theorem bind?_plain {t : LogicalType} {v : Value} {b : Sql.Bound}
    (h : Sql.Binding.bind? .sqlite t v = some b) : ∃ x, b = .plain x ∧
      literal t v = if x.isNull then none else some x := by
  obtain ⟨x, -, hx⟩ := Option.map_eq_some_iff.1 h
  subst hx
  exact ⟨x, rfl, by rw [literal, h]⟩

theorem shown_literal {t : LogicalType} {v x : Value}
    (h : Sql.Binding.bind? .sqlite t v = some (.plain x)) : shown (literal t v) = x := by
  rw [literal, h]
  cases x <;> rfl

/-! ## Tables -/

/-- The values of each record, by the names of the tables. -/
abbrev Sheets := String → List Entries

/-- Whether the values are values of their columns. -/
def admits (s : Schema) (e : Entity) (es : Entries) : Bool :=
  es.all fun x => (Query.columnType? s e x.1).all (·.admits x.2)

/-- The key of a record, which is counted. -/
def number? (e : Entity) (es : Entries) : Option Int :=
  e.key?.bind fun key =>
    match Entries.get? key.name es with
    | some (.int n) => some n
    | _ => none

/-- Whether all values are values of their columns, and each record has a key of its own. -/
def keeps (s : Schema) (sheets : Sheets) : Bool :=
  s.entities.all fun e =>
    (sheets e.name).all (fun es => admits s e es && (number? e es).isSome) &&
      decide ((sheets e.name).map (number? e)).Nodup

/-- The row of a record. -/
def row (s : Schema) (e : Entity) (es : Entries) : Sql.Row cells := fun column =>
  (Query.columnType? s e column).bind fun t => (Entries.get? column es).bind fun v => literal t v

def contents (s : Schema) (sheets : Sheets) : Sql.Contents cells := fun table =>
  match s.entity? table with
  | some e => (sheets table).map (row s e)
  | none => []

/-- What a new record has before it is given values: a number for a key, and defaults. -/
def initial (e : Entity) (n : Int) : Entries :=
  (e.fields.filter fun f => f.primaryKey || f.hasDefault).map fun f =>
    (f.name, if f.primaryKey then .int n else f.default)

def given (assignments : List Assignment) : Entries := assignments.map fun a => (a.column, a.value)

/-- The number after those of all records. -/
def next (e : Entity) (sheet : List Entries) : Int :=
  sheet.foldl (fun n es => max n ((number? e es).getD 0 + 1)) 1

end Memory

/-- The records as the open transaction sees them, and those that a rollback brings back. -/
structure Memory (s : Schema) where
  sheets : { sheets : Memory.Sheets // Memory.keeps s sheets = true }
  kept : { sheets : Memory.Sheets // Memory.keeps s sheets = true }
  inside : Bool
  settled : inside = false → kept = sheets

namespace Memory

variable {s : Schema}

/-! ## The server -/

def refusal : DriverError := ⟨"IntegrityError", "constraint failed", []⟩

/-- Writes a table, if all is kept apart and in its type. -/
def write (m : Memory s) (table : String) (sheet : List Entries) (reply : Reply) :
    Except DriverError Reply × Memory s :=
  if h : keeps s (Function.update m.sheets.1 table sheet) = true then
    (.ok reply, ⟨⟨_, h⟩, m.kept, true, nofun⟩)
  else (.error refusal, m)

def insert (m : Memory s) (i : Sql.Insert) : Except DriverError Reply × Memory s :=
  match s.entity? i.table with
  | some e =>
    let sheet := m.sheets.1 i.table
    let n := next e sheet
    m.write i.table (sheet ++ [given i.assignments ++ initial e n]) { counted := .int n }
  | none => (.error refusal, m)

/-- Whether a statement reaches a record. -/
def reaches (m : Memory s) (e : Entity) (c : Sql.Condition) (es : Entries) : Bool :=
  c.reaches (contents s m.sheets.1) e.name (row s e es)

def update (m : Memory s) (u : Sql.Update) : Except DriverError Reply × Memory s :=
  match s.entity? u.table with
  | some e =>
    let sheet := m.sheets.1 u.table
    let reached := m.reaches e u.condition
    m.write u.table (sheet.map fun es => if reached es then given u.assignments ++ es else es)
      { changed := sheet.countP reached }
  | none => (.error refusal, m)

def delete (m : Memory s) (x : Sql.Delete) : Except DriverError Reply × Memory s :=
  match s.entity? x.table with
  | some e =>
    let sheet := m.sheets.1 x.table
    let reached := m.reaches e x.condition
    m.write x.table (sheet.filter fun es => !reached es) { changed := sheet.countP reached }
  | none => (.error refusal, m)

def answer (r : Request) (_ : List (String × Sql.Bound)) (m : Memory s) :
    Except DriverError Reply × Memory s :=
  match r with
  | .begin _ =>
    if m.inside then (.error refusal, m) else (.ok {}, ⟨m.sheets, m.kept, true, nofun⟩)
  | .select q => (.ok { rows := (q.rows (contents s m.sheets.1)).map (·.map shown) }, m)
  | .insert i => m.insert i
  | .update u => m.update u
  | .delete x => m.delete x
  | _ => (.ok {}, m)

def server (s : Schema) : Server (Memory s) where
  connect m := (.ok (), m)
  answer := answer
  commit m := (.ok (), ⟨m.sheets, m.sheets, false, fun _ => rfl⟩)
  rollback m := ⟨m.kept, m.kept, false, fun _ => rfl⟩

/-! ## Records -/

section Records

variable {sheets : Sheets} {e : Entity} {es : Entries} {key : Field}

theorem keeps_iff : keeps s sheets = true ↔ ∀ e ∈ s.entities,
    (∀ es ∈ sheets e.name, admits s e es = true ∧ (number? e es).isSome = true) ∧
      ((sheets e.name).map (number? e)).Nodup := by
  simp only [keeps, List.all_eq_true, Bool.and_eq_true, decide_eq_true_eq]

theorem typed_row (h : admits s e es = true) {column : String} {t : LogicalType}
    (ht : Query.columnType? s e column = some t) :
    row s e es column = none ∨ ∃ v, t.admits v = true ∧ row s e es column = literal t v := by
  rw [row, ht, Option.bind_some]
  cases hv : Entries.get? column es with
  | none => exact Or.inl rfl
  | some v =>
    obtain ⟨x, hx, rfl⟩ := Option.map_eq_some_iff.1 hv
    obtain rfl : x.1 = column := by simpa using List.find?_some hx
    have hadmits := List.all_eq_true.1 h x (List.mem_of_find?_eq_some hx)
    rw [ht] at hadmits
    exact Or.inr ⟨x.2, hadmits, rfl⟩

theorem literal_int (n : Int) : literal .bigint (.int n) = some (.int n) := rfl

theorem number?_eq_some (hk : e.key? = some key) {n : Int} :
    number? e es = some n ↔ Entries.get? key.name es = some (.int n) := by
  rw [number?, hk, Option.bind_some]
  split
  case h_1 m hm => rw [hm, Option.some.injEq, Option.some.injEq, Value.int.injEq]
  case h_2 hno => exact ⟨nofun, fun hn => absurd hn (hno n)⟩

theorem row_key (he : e.Sound) (hk : e.key? = some key) (ht : key.type = .bigint) {n : Int}
    (hn : number? e es = some n) : row s e es key.name = some (.int n) := by
  rw [row, he.columnType_key hk, Option.bind_some, (number?_eq_some hk).1 hn, Option.bind_some, ht,
    literal_int]

theorem same_int (m n : Int) : cells.same .bigint (some (.int m)) (some (.int n)) =
    (Value.int m).same (.int n) := by
  have hsame : cells.same .bigint (some (.int m)) (some (.int n)) = true ↔
      order (.int m) (.int n) = .eq := by
    rw [Sql.Cells.same, decide_eq_true_iff, Sql.Cells.test, Option.some.injEq, Comparison.holds,
      decide_eq_true_iff]
  rw [Bool.eq_iff_iff, hsame, order_eq_eq, Value.same_single rfl rfl]
  simp [kind, number, label, Value.leveled, Value.isNan]

theorem row_given {assignments : List Assignment}
    (h : ∀ a ∈ assignments, Query.columnType? s e a.column = some a.type) :
    row s e (given assignments ++ es) = Assignment.write assignments (row s e es) := by
  funext column
  induction assignments with
  | nil => rfl
  | cons a rest ih =>
    obtain ⟨ha, hrest⟩ := List.forall_mem_cons.1 h
    have hget : Entries.get? column (given (a :: rest) ++ es) = if a.column = column then
        some a.value else Entries.get? column (given rest ++ es) := Entries.get?_cons _ _
    have hwrite : Assignment.write (a :: rest) (row s e es) column = if a.column = column then
        cells.literal a.type a.value else Assignment.write rest (row s e es) column := by
      rw [Assignment.write, List.find?_cons]
      by_cases hc : a.column = column <;> simp [hc, Assignment.write]
    rw [row, hget, hwrite]
    split
    case isTrue hc =>
      rw [← hc, ha]
      rfl
    case isFalse hc => exact ih hrest

theorem get?_initial (he : e.Sound) {f : Field} (hf : f ∈ e.fields)
    (hset : (f.primaryKey || f.hasDefault) = true) (n : Int) :
    Entries.get? f.name (initial e n) =
      some (if f.primaryKey then .int n else f.default) := by
  have hnames : ((initial e n).map (·.1)).Nodup := by
    rw [initial, List.map_map]
    exact (List.filter_sublist.map _).nodup he.fieldNames
  have hin : (f.name, if f.primaryKey then Value.int n else f.default) ∈ initial e n :=
    List.mem_map.2 ⟨f, List.mem_filter.2 ⟨hf, hset⟩, rfl⟩
  exact Entries.get?_of_mem hnames hin

end Records

/-! ## Tables of a schema -/

/-- What comes of a statement that writes the table of an entity anew: it has the given rows, and if no
record is reached, nothing has changed. -/
def Changes (m : Memory s) (e : Entity) (c : Sql.Condition) (rows : List (Sql.Row cells))
    (r : Except DriverError Reply × Memory s) : Prop :=
  ((∀ r ∈ contents s m.sheets.1 e.name, c.reaches (contents s m.sheets.1) e.name r = false) →
    r.1.isOk = true ∧ r.2.sheets.1 = m.sheets.1) ∧
  ∀ m' reply, r = (.ok reply, m') → (contents s m'.sheets.1 e.name).Perm rows ∧
    (∀ other ≠ e.name, contents s m'.sheets.1 other = contents s m.sheets.1 other) ∧
    reply.changed = (contents s m.sheets.1 e.name).countP
      (c.reaches (contents s m.sheets.1) e.name)

section Written

variable {m m' : Memory s} {e : Entity} {sheets : Sheets} {table : String} {sheet : List Entries}
  {reply reply' : Reply}

theorem contents_of_entity (hs : s.Sound) (he : e ∈ s.entities) :
    contents s sheets e.name = (sheets e.name).map (row s e) := by
  rw [contents, (Schema.entity?_eq_some hs.distinct _ e).2 ⟨he, rfl⟩]

theorem contents_update_of_ne {other : String} (h : other ≠ table) :
    contents s (Function.update sheets table sheet) other = contents s sheets other := by
  rw [contents, contents, Function.update_of_ne h]

theorem contents_update_self (hs : s.Sound) (he : e ∈ s.entities) :
    contents s (Function.update sheets e.name sheet) e.name = sheet.map (row s e) := by
  rw [contents_of_entity hs he, Function.update_self]

theorem write_eq_ok (h : m.write table sheet reply = (.ok reply', m')) :
    reply' = reply ∧ m'.sheets.1 = Function.update m.sheets.1 table sheet := by
  rw [write] at h
  split at h <;> cases h
  exact ⟨rfl, rfl⟩

/-- What is written is not kept yet, and what is refused is not written. -/
theorem write_keeps (m : Memory s) (table : String) (sheet : List Entries) (reply : Reply) :
    (m.write table sheet reply).2.kept = m.kept ∧
      ((m.write table sheet reply).1.isOk = false → (m.write table sheet reply).2 = m) := by
  rw [write]
  split
  · exact ⟨rfl, nofun⟩
  · exact ⟨rfl, fun _ => rfl⟩

theorem write_same (m : Memory s) (table : String) (reply : Reply) :
    (m.write table (m.sheets.1 table) reply).1.isOk = true ∧
      (m.write table (m.sheets.1 table) reply).2.sheets.1 = m.sheets.1 := by
  have hsame : Function.update m.sheets.1 table (m.sheets.1 table) = m.sheets.1 :=
    Function.update_eq_self _ _
  rw [write, dif_pos (hsame.symm ▸ m.sheets.2)]
  exact ⟨rfl, hsame⟩

theorem answer_keeps {r : Request} (hr : r.concernsRows = true) (ps : List (String × Sql.Bound))
    (m : Memory s) : (answer r ps m).2.kept = m.kept ∧
      ((answer r ps m).1.isOk = false → (answer r ps m).2 = m) := by
  cases r with
  | select q => exact ⟨rfl, fun _ => rfl⟩
  | insert i =>
    rw [answer, insert]
    split
    · exact write_keeps m _ _ _
    · exact ⟨rfl, fun _ => rfl⟩
  | update u =>
    rw [answer, update]
    split
    · exact write_keeps m _ _ _
    · exact ⟨rfl, fun _ => rfl⟩
  | delete x =>
    rw [answer, delete]
    split
    · exact write_keeps m _ _ _
    · exact ⟨rfl, fun _ => rfl⟩
  | _ => cases hr

variable (hs : s.Sound) (he : e ∈ s.entities)

include hs he

theorem keyed_contents (hkeys : ∀ e ∈ s.entities, ∀ key, e.key? = some key → key.type = .bigint)
    {key : Field} (hk : e.key? = some key) :
    (∀ row ∈ contents s m.sheets.1 e.name, row key.name ≠ none) ∧
      (contents s m.sheets.1 e.name).Pairwise fun a b =>
        cells.same key.type (a key.name) (b key.name) = false := by
  obtain ⟨hrows, hdistinct⟩ := keeps_iff.1 m.sheets.2 e he
  have ht := hkeys e he key hk
  have hrow := fun es hes => Option.isSome_iff_exists.1 (hrows es hes).2
  rw [contents_of_entity hs he]
  constructor
  · intro r hr
    obtain ⟨es, hes, rfl⟩ := List.mem_map.1 hr
    obtain ⟨n, hn⟩ := hrow es hes
    rw [row_key (hs.entities e he) hk ht hn]
    nofun
  · rw [List.pairwise_map]
    refine (List.pairwise_map.1 hdistinct).imp_of_mem fun {es es'} hes hes' hne => ?_
    obtain ⟨n, hn⟩ := hrow es hes
    obtain ⟨n', hn'⟩ := hrow es' hes'
    rw [row_key (hs.entities e he) hk ht hn, row_key (hs.entities e he) hk ht hn', ht, same_int]
    refine Bool.eq_false_iff.2 fun hsame => hne ?_
    obtain ⟨hlevel, -⟩ := (Value.same_single rfl rfl).1 hsame
    cases hlevel
    rw [hn, hn']

theorem insert_effect {i : Sql.Insert} (hi : i.table = e.name)
    (htypes : ∀ a ∈ i.assignments, Query.columnType? s e a.column = some a.type)
    (h : m.insert i = (.ok reply, m')) : ∃ base,
      Sql.Exchanged e.name [] [Assignment.write i.assignments base] (contents s m.sheets.1)
        (contents s m'.sheets.1) ∧
      (∀ f ∈ e.fields, f.primaryKey = false → f.hasDefault = true →
        f.name ∉ i.assignments.map (·.column) → ∃ v, f.type.admits v = true ∧
          v.same f.default = true ∧ base f.name = literal f.type v) ∧
      ∀ key, e.key? = some key → ∃ n, reply.counted = .int n ∧
        key.type.admits (.int n) = true ∧ base key.name = literal key.type (.int n) := by
  have hsound := hs.entities e he
  have hfound : s.entity? i.table = some e :=
    (Schema.entity?_eq_some hs.distinct _ _).2 ⟨he, hi.symm⟩
  rw [insert, hfound] at h
  dsimp only at h
  rw [hi] at h
  obtain ⟨rfl, hsheets⟩ := write_eq_ok h
  generalize hn : next e (m.sheets.1 e.name) = n at hsheets
  have hkept := ((keeps_iff.1 m'.sheets.2 e he).1 (given i.assignments ++ initial e n) (by
    rw [hsheets, Function.update_self]
    exact List.mem_append_right _ List.mem_cons_self)).1
  have hinitial : ∀ x ∈ initial e n, ∀ t, Query.columnType? s e x.1 = some t →
      t.admits x.2 = true := by
    intro x hx t ht
    have hadmits := List.all_eq_true.1 hkept x (List.mem_append_right _ hx)
    rwa [ht] at hadmits
  have hbase : ∀ f ∈ e.fields, ∀ v, Entries.get? f.name (initial e n) = some v →
      f.type.admits v = true ∧ row s e (initial e n) f.name = literal f.type v := by
    intro f hf v hv
    have htype := Query.columnType?_field (s := s) hsound hf
    obtain ⟨x, hx, rfl⟩ := Option.map_eq_some_iff.1 hv
    have hname : x.1 = f.name := by simpa using List.find?_some hx
    refine ⟨hinitial x (List.mem_of_find?_eq_some hx) _ (hname ▸ htype), ?_⟩
    rw [row, htype, Option.bind_some, hv, Option.bind_some]
  refine ⟨row s e (initial e n), ⟨⟨contents s m.sheets.1 e.name, .refl _, ?_⟩, fun other hne => ?_⟩,
    fun f hf hplain hdefault _ => ?_, fun key hk => ?_⟩
  · rw [hsheets, contents_update_self hs he, contents_of_entity hs he, List.map_append,
      List.map_singleton, row_given htypes]
    exact List.perm_append_comm
  · rw [hsheets, contents_update_of_ne hne]
  · have hv := get?_initial hsound hf (by rw [hdefault, Bool.or_true]) n
    rw [hplain, if_neg Bool.false_ne_true] at hv
    obtain ⟨hadmits, hcell⟩ := hbase f hf _ hv
    exact ⟨f.default, hadmits, LogicalType.same_self hadmits, hcell⟩
  · obtain ⟨hin, hprimary⟩ := Entity.key_mem hk
    have hv := get?_initial hsound hin (by rw [hprimary, Bool.true_or]) n
    rw [hprimary, if_pos rfl] at hv
    obtain ⟨hadmits, hcell⟩ := hbase key hin _ hv
    exact ⟨n, rfl, hadmits, hcell⟩

theorem countP_row (m : Memory s) (c : Sql.Condition) :
    (contents s m.sheets.1 e.name).countP (c.reaches (contents s m.sheets.1) e.name) =
      (m.sheets.1 e.name).countP (m.reaches e c) := by
  rw [contents_of_entity hs he, List.countP_map]
  rfl

theorem not_reaches {c : Sql.Condition}
    (h : ∀ r ∈ contents s m.sheets.1 e.name, c.reaches (contents s m.sheets.1) e.name r = false) :
    ∀ es ∈ m.sheets.1 e.name, m.reaches e c es = false := by
  rw [contents_of_entity hs he] at h
  exact fun es hes => h _ (List.mem_map_of_mem hes)

theorem write_effect {c : Sql.Condition} {sheet : List Entries} {rows : List (Sql.Row cells)}
    (hnone : (∀ es ∈ m.sheets.1 e.name, m.reaches e c es = false) → sheet = m.sheets.1 e.name)
    (hrows : sheet.map (row s e) = rows) :
    m.Changes e c rows
      (m.write e.name sheet { changed := (m.sheets.1 e.name).countP (m.reaches e c) }) := by
  refine ⟨fun hno => ?_, fun m' reply h => ?_⟩
  · rw [hnone (not_reaches hs he hno)]
    exact write_same m _ _
  · obtain ⟨rfl, hsheets⟩ := write_eq_ok h
    refine ⟨?_, fun other hne => by rw [hsheets, contents_update_of_ne hne], ?_⟩
    · rw [hsheets, contents_update_self hs he, hrows]
    · rw [countP_row hs he]

theorem update_effect {c : Sql.Condition} {assignments : List Assignment}
    (htypes : ∀ a ∈ assignments, Query.columnType? s e a.column = some a.type) :
    m.Changes e c ((contents s m.sheets.1 e.name).map fun r =>
        if c.reaches (contents s m.sheets.1) e.name r then Assignment.write assignments r else r)
      (m.update { table := e.name, assignments, condition := c }) := by
  have hfound : s.entity? e.name = some e :=
    (Schema.entity?_eq_some hs.distinct _ _).2 ⟨he, rfl⟩
  simp only [update, hfound]
  refine write_effect hs he (fun hnone => ?_) ?_
  · refine (List.map_congr_left fun es hes => ?_).trans (List.map_id _)
    rw [hnone es hes]
    rfl
  · rw [contents_of_entity hs he, List.map_map, List.map_map]
    refine List.map_congr_left fun es _ => ?_
    rw [Function.comp_apply, Function.comp_apply, ← row_given htypes]
    exact apply_ite (row s e) (m.reaches e c es = true) _ _

theorem delete_effect {c : Sql.Condition} :
    m.Changes e c ((contents s m.sheets.1 e.name).filter fun r =>
        !c.reaches (contents s m.sheets.1) e.name r)
      (m.delete { table := e.name, condition := c }) := by
  have hfound : s.entity? e.name = some e :=
    (Schema.entity?_eq_some hs.distinct _ _).2 ⟨he, rfl⟩
  simp only [delete, hfound]
  refine write_effect hs he (fun hnone => ?_) ?_
  · exact List.filter_eq_self.2 fun es hes => by rw [hnone es hes]; rfl
  · rw [contents_of_entity hs he, List.filter_map]
    rfl

end Written

theorem same_literal {v w : Value} (hv : LogicalType.bigint.admits v = true)
    (hw : LogicalType.bigint.admits w = true) (hvn : v ≠ .null) (hwn : w ≠ .null) :
    cells.same .bigint (literal .bigint v) (literal .bigint w) = v.same w := by
  cases LogicalType.admitted_of_admits hv nofun with
  | null => exact absurd rfl hvn
  | bigint m =>
    cases LogicalType.admitted_of_admits hw nofun with
    | null => exact absurd rfl hwn
    | bigint n => exact same_int m n

theorem returned_literal {t : LogicalType} {v : Value} {b : Sql.Bound} (h : t.admits v = true)
    (hb : Sql.Binding.bind? .sqlite t v = some b) :
    Sql.Binding.Returned .sqlite t b (shown (literal t v)) := by
  obtain ⟨x, rfl, -⟩ := bind?_plain hb
  rw [shown_literal hb, Sql.Binding.Returned]
  split
  case isTrue hjson =>
    obtain ⟨-, rfl⟩ := hjson
    obtain ⟨hdocument, hread, hsame⟩ := Sql.Binding.document_spaced h rfl
    rw [Sql.Binding.bind?, Sql.Binding.cell?, if_pos hdocument] at hb
    cases hb
    exact ⟨v, v, by rw [Sql.Binding.readDocument, hread]; rfl,
      by rw [Sql.Binding.readDocument, hread]; rfl, hsame⟩
  case isFalse hplain => rfl

/-- The database keeps the rows of a schema. -/
def database (hs : s.Sound) {tables : Sql.Tables}
    (hbuilt : Sql.Tables.ofSchema .sqlite s = .ok tables)
    (hkeys : ∀ e ∈ s.entities, ∀ key, e.key? = some key → key.type = .bigint) :
    Database (server s) .sqlite s where
  cells := cells
  shown := shown
  tables := tables
  rows m := contents s m.sheets.1
  kept m := contents s m.kept.1
  quiet m := m.inside = false
  live _ := True
  built := hbuilt
  null t v b _ hb := by
    obtain ⟨x, rfl, hliteral⟩ := bind?_plain hb
    change literal t v = none ↔ _
    rw [hliteral]
    cases x <;> simp [Value.isNull]
  returned _ _ _ h hb := returned_literal h hb
  same e he key hk v w hv hw hvn hwn := by
    have ht := hkeys e he key hk
    rw [ht] at hv hw ⊢
    exact same_literal hv hw hvn hwn
  typed m e he r hr column t ht := by
    rw [contents_of_entity hs he] at hr
    obtain ⟨es, hes, rfl⟩ := List.mem_map.1 hr
    exact typed_row ((keeps_iff.1 m.sheets.2 e he).1 es hes).1 ht
  keyed m e he key hk := keyed_contents hs he hkeys hk
  settled m h := ⟨by rw [m.settled h], trivial⟩
  connect m h := ⟨m, rfl, h, rfl⟩
  setting r ps m hr h := by
    rcases hr with rfl | rfl <;> exact ⟨rfl, h, rfl⟩
  begin immediate ps m h := by
    have hanswer : (server s).answer (.begin immediate) ps m =
        (.ok {}, ⟨m.sheets, m.kept, true, nofun⟩) := if_neg (Bool.eq_false_iff.1 h)
    rw [hanswer]
    exact ⟨rfl, trivial, rfl, rfl⟩
  commit m _ := ⟨_, rfl, rfl, rfl⟩
  rollback m := ⟨rfl, rfl⟩
  kept_answer r ps m hr := congrArg (contents s ·.1) (answer_keeps hr ps m).1
  live_answer _ _ _ _ _ _ := trivial
  refused r ps m hr h := congrArg (contents s ·.sheets.1) ((answer_keeps hr ps m).2 h)
  looked _ _ _ := rfl
  select e he c hc outputs _ ps m _ := ⟨fun _ => rfl, fun reply hreply => by cases hreply; rfl⟩
  insert e he i hi htypes ps m m' reply _ h := by
    obtain ⟨base, hrows, hdefaults, hkey⟩ := insert_effect hs he hi htypes h
    exact ⟨base, hrows, hdefaults, fun key hk _ => hkey key hk⟩
  update e he c _ assignments htypes ps m _ := by
    obtain ⟨hnone, heffect⟩ := update_effect hs he htypes (m := m) (c := c)
    exact ⟨fun _ hno => ⟨(hnone hno).1, congrArg (contents s) (hnone hno).2⟩, heffect⟩
  delete e he c _ ps m _ := by
    obtain ⟨hnone, heffect⟩ := delete_effect hs he (m := m) (c := c)
    exact ⟨fun _ hno => ⟨(hnone hno).1, congrArg (contents s) (hnone hno).2⟩, heffect⟩

end Memory

end SchemaLedger
