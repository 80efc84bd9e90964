import SchemaLedger.Calendar
import SchemaLedger.Proofs.Session.Archive

set_option autoImplicit false

/-!
# A database that keeps a history and nothing else

The smallest archive: a server for SQLite with the history table alone. It accepts all statements of
steps and forgets them.
-/
namespace SchemaLedger

namespace HistoryTable

instance (n : Int) (row : List Value) : Decidable (Below n row) :=
  match h : row.head? with
  | some (.int m) => decidable_of_iff (m < n)
      ⟨fun hlt => ⟨m, h, hlt⟩, fun ⟨_, hm, hlt⟩ => by cases h.symm.trans hm; exact hlt⟩
  | none | some .null | some (.bool _) | some (.float _) | some (.text _) | some (.bytes _)
  | some (.date _) | some (.timestamp _) | some (.uuid _) | some (.list _) | some (.object _) =>
    isFalse fun ⟨_, hm, _⟩ => by cases h.symm.trans hm

theorem ordered_append {rows : List (List Value)} {row : List Value} {n : Int}
    (h : Ordered rows) (hn : row.head? = some (.int n)) (hbelow : ∀ r ∈ rows, Below n r) :
    Ordered (rows ++ [row]) := by
  refine List.pairwise_append.2 ⟨h, List.pairwise_singleton _ _, fun r hr x hx => ?_⟩
  rw [List.mem_singleton.1 hx]
  exact ⟨n, hn, hbelow r hr⟩

end HistoryTable

/-- A history table, or none, with rows in order. -/
abbrev Notebook.Table : Type :=
  { rows : Option (List (List Value)) // ∀ rs, rows = some rs → HistoryTable.Ordered rs }

structure Notebook where
  table : Notebook.Table
  kept : Notebook.Table
  inside : Bool
  settled : inside = false → kept = table

namespace Notebook

def none : Table := ⟨Option.none, nofun⟩

def blank : Table := ⟨some [], fun _ h => by cases h; exact List.Pairwise.nil⟩

/-- The notebook without a table. -/
def fresh : Notebook := ⟨none, none, false, fun _ => rfl⟩

/-- Writes the table; outside of a transaction the change is kept at once. -/
def write (t : Table) (b : Notebook) : Notebook :=
  if b.inside then ⟨t, b.kept, true, nofun⟩ else ⟨t, t, false, fun _ => rfl⟩

/-- Whether the version of a row is greater than all others. -/
def isLast (rs : List (List Value)) (row : List Value) : Bool :=
  match row.head? with
  | some (.int n) => rs.all fun r => decide (HistoryTable.Below n r)
  | _ => false

theorem isLast_iff (rs : List (List Value)) (row : List Value) :
    isLast rs row = true ↔
      ∃ n, row.head? = some (.int n) ∧ ∀ r ∈ rs, HistoryTable.Below n r := by
  unfold isLast
  split
  case h_1 n hn => simp [hn]
  case h_2 hn => simpa using fun n h => absurd h (hn n)

/-- A table with one more row, if that is the last. -/
def place (t : Table) (row : List Value) : Option Table :=
  match t with
  | ⟨some rs, ht⟩ =>
    if h : isLast rs row = true then
      some ⟨some (rs ++ [row]), fun _ hrs => by
        obtain ⟨n, hn, hbelow⟩ := (isLast_iff rs row).1 h
        cases hrs
        exact HistoryTable.ordered_append (ht rs rfl) hn hbelow⟩
    else Option.none
  | ⟨Option.none, _⟩ => Option.none

theorem place_of_below {t : Table} {rs : List (List Value)} {row : List Value} {n : Int}
    (ht : t.1 = some rs) (hn : row.head? = some (.int n))
    (hbelow : ∀ r ∈ rs, HistoryTable.Below n r) :
    ∃ t', place t row = some t' ∧ t'.1 = some (rs ++ [row]) := by
  obtain ⟨_, h⟩ := t
  cases ht
  exact ⟨_, dif_pos ((isLast_iff rs row).2 ⟨n, hn, hbelow⟩), rfl⟩

def cellsOf (i : Sql.Insert) : List Value :=
  i.assignments.filterMap fun a =>
    match Sql.Binding.bind? .sqlite a.type a.value with
    | some (.plain v) => some v
    | _ => Option.none

def refusal : DriverError := ⟨"OperationalError", "refused", []⟩

def answer (r : Request) (_ : List (String × Sql.Bound)) (b : Notebook) :
    Except DriverError Reply × Notebook :=
  match r with
  | .begin _ =>
    if b.inside then (.error refusal, b) else (.ok {}, ⟨b.table, b.kept, true, nofun⟩)
  | .historyColumns database =>
    (.ok { rows := if database = "main" && b.table.1.isSome then [[.text "version"]] else [] }, b)
  | .historyTable => (.ok { rows := if b.table.1.isSome then [[.text "version"]] else [] }, b)
  | .createHistory => if b.table.1.isSome then (.error refusal, b) else (.ok {}, write blank b)
  | .select _ => (.ok { rows := b.table.1.getD [] }, b)
  | .insert i =>
    match place b.table (cellsOf i) with
    | some t => (.ok {}, write t b)
    | Option.none => (.error refusal, b)
  | _ => (.ok {}, b)

def server : Server Notebook where
  connect b := (.ok (), b)
  answer := answer
  commit b := (.ok (), ⟨b.table, b.table, false, fun _ => rfl⟩)
  rollback b := ⟨b.kept, b.kept, false, fun _ => rfl⟩

theorem table_write (t : Table) (b : Notebook) : (write t b).table = t := by
  unfold write
  split <;> rfl

theorem cellsOf_insert (r : Applied) :
    cellsOf (HistoryTable.insert r) = HistoryTable.cells .sqlite r := rfl

theorem answer_passive {r : Request} (h : r.passive = true) (ps : List (String × Sql.Bound))
    (b : Notebook) : (answer r ps b).2.table = b.table ∧ (answer r ps b).2.kept = b.kept := by
  cases r with
  | begin immediate =>
    rw [answer]
    split <;> exact ⟨rfl, rfl⟩
  | createHistory => cases h
  | ddl sql => cases h
  | text sql => cases h
  | insert i => cases h
  | update u => cases h
  | delete x => cases h
  | _ => exact ⟨rfl, rfl⟩

/-- The notebook is an archive. -/
def archive : Archive server .sqlite where
  rows b := b.table.1
  kept b := b.kept.1
  quiet b := b.inside = false
  spares _ := True
  settled b h := congrArg Subtype.val (b.settled h)
  ordered b rs h := b.table.2 rs h
  connect b b' h := by
    cases h
    exact ⟨rfl, rfl, id⟩
  passive r ps b h := by
    obtain ⟨htable, hkept⟩ := answer_passive h ps b
    exact ⟨congrArg Subtype.val htable, congrArg Subtype.val hkept⟩
  foreignKeys _ _ _ h := h
  journal _ _ h := h
  columns ps b reply h := by
    cases h
    cases b.table.1 <;> simp
  temporary ps ps' b main temp hmain hempty htemp := by
    cases hmain
    cases htemp
    cases hsome : b.table.1 with
    | none => exact ⟨fun _ => rfl, fun _ => rfl⟩
    | some rs =>
      rw [hsome] at hempty
      cases hempty
  table ps b reply h := by
    cases h
    cases b.table.1 <;> simp
  select ps b reply h rs hrs := by
    cases h
    rw [hrs]
    rfl
  create ps b b' reply h hnone := by
    have hanswer : answer .createHistory ps b = (.ok {}, write blank b) := by
      rw [answer, hnone]
      rfl
    cases hanswer.symm.trans h
    rw [table_write]
    rfl
  insert r ps b b' reply h rs hrs hbelow := by
    have hhead : (HistoryTable.cells .sqlite r).head? = some (.int r.version) := rfl
    obtain ⟨t, ht, hrows⟩ := place_of_below hrs hhead hbelow
    have hanswer : answer (.insert (HistoryTable.insert r)) ps b = (.ok {}, write t b) := by
      rw [answer, cellsOf_insert, ht]
    cases hanswer.symm.trans h
    rw [table_write, hrows]
  ddl _ _ _ _ := rfl
  commit b b' h := by
    cases h
    exact ⟨rfl, rfl⟩
  rollback b := ⟨rfl, rfl⟩

theorem responsive : archive.Responsive where
  foreignKeys _ _ _ := rfl
  begin immediate ps b h := by
    have hanswer : answer (.begin immediate) ps b = (.ok {}, ⟨b.table, b.kept, true, nofun⟩) := by
      rw [answer, if_neg (Bool.eq_false_iff.1 h)]
    exact congrArg (fun x => x.1.isOk) hanswer
  lock _ _ _ := rfl
  columns _ _ _ := rfl
  table _ _ := rfl
  select _ _ _ _ := rfl
  commit _ := rfl

def setting : Setting Notebook where
  server := server
  config := { dialect := .sqlite, target := "notebook.db", acquireTimeout := .zero }
  now := .epoch

end Notebook

end SchemaLedger
