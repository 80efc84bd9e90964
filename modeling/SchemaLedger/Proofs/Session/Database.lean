import SchemaLedger.Proofs.Query.Lookup
import SchemaLedger.Proofs.Session.Calls
import SchemaLedger.Proofs.Session.Granted
import SchemaLedger.Proofs.Value.Sameness

set_option autoImplicit false

/-!
# Databases that keep the rows of a schema

What a session may rely on from a database with the tables of a schema: it carries out what it is
asked, keeps keys apart, fills in what is left out, and a transaction is kept as a whole or undone.
Whatever it accepts may also be refused, selections by a column and writes that reach no row apart.
-/
namespace SchemaLedger

open Sql (Assignment ColumnRef)

/-- A proper request with the parameters that the driver is given. -/
structure Request.Sent (d : Dialect) (r : Request) (ps : List (String × Sql.Bound)) : Prop
    extends r.Proper d where
  bound : (r.prepare d).bind d = .ok ps

theorem Request.Proper.exists_sent {d : Dialect} {r : Request} (h : r.Proper d) :
    ∃ ps, r.Sent d ps := by
  obtain ⟨ps, hps⟩ := h.exists_bind
  exact ⟨ps, h, hps⟩

/-- A condition that a column of an entity holds a value of its type. -/
def Entity.Seeks (s : Schema) (e : Entity) (condition : Sql.Condition) : Prop :=
  ∃ column t v test, Query.columnType? s e column = some t ∧ t.admits v = true ∧
    test.Seeks ⟨.table e.name, column, t⟩ v ∧ condition = .test test

/-- A database as one that keeps the rows of a schema. -/
structure Database {σ : Type} (server : Server σ) (d : Dialect) (s : Schema) where
  cells : Sql.Cells
  /-- What the driver is shown of a cell. -/
  shown : Option cells.Cell → Value
  tables : Sql.Tables
  /-- The rows as the open transaction sees them. -/
  rows : σ → Sql.Contents cells
  /-- The rows that a rollback brings back. -/
  kept : σ → Sql.Contents cells
  /-- No transaction is open. -/
  quiet : σ → Prop
  /-- Statements are carried out. PostgreSQL ignores them after one has failed. -/
  live : σ → Prop
  built : Sql.Tables.ofSchema d s = .ok tables
  null : ∀ t v b, t.admits v = true → Sql.Binding.bind? d t v = some b →
    (cells.literal t v = none ↔ b = .plain .null)
  returned : ∀ t v b, t.admits v = true → Sql.Binding.bind? d t v = some b →
    Sql.Binding.Returned d t b (shown (cells.literal t v))
  same : ∀ e ∈ s.entities, ∀ key, e.key? = some key → ∀ v w, key.type.admits v = true →
    key.type.admits w = true → v ≠ .null → w ≠ .null →
      cells.same key.type (cells.literal key.type v) (cells.literal key.type w) = v.same w
  typed : ∀ st, ∀ e ∈ s.entities, ∀ row ∈ rows st e.name, ∀ column t,
    Query.columnType? s e column = some t →
      row column = none ∨ ∃ v, t.admits v = true ∧ row column = cells.literal t v
  keyed : ∀ st, ∀ e ∈ s.entities, ∀ key, e.key? = some key →
    (∀ row ∈ rows st e.name, row key.name ≠ none) ∧
      (rows st e.name).Pairwise fun a b => cells.same key.type (a key.name) (b key.name) = false
  settled : ∀ st, quiet st → kept st = rows st ∧ live st
  connect : ∀ st, quiet st → ∃ st', server.connect st = (.ok (), st') ∧ quiet st' ∧
    rows st' = rows st
  setting : ∀ r ps st, r = .foreignKeys true ∨ r = .journal → quiet st →
    (server.answer r ps st).1.isOk = true ∧ quiet (server.answer r ps st).2 ∧
      rows (server.answer r ps st).2 = rows st
  begin : ∀ immediate ps st, quiet st → (server.answer (.begin immediate) ps st).1.isOk = true ∧
    live (server.answer (.begin immediate) ps st).2 ∧
      rows (server.answer (.begin immediate) ps st).2 = rows st ∧
        kept (server.answer (.begin immediate) ps st).2 = kept st
  commit : ∀ st, live st → ∃ st', server.commit st = (.ok (), st') ∧ quiet st' ∧ rows st' = rows st
  rollback : ∀ st, quiet (server.rollback st) ∧ rows (server.rollback st) = kept st
  kept_answer : ∀ r ps st, r.concernsRows = true → kept (server.answer r ps st).2 = kept st
  live_answer : ∀ r ps st, r.concernsRows = true → live st →
    (server.answer r ps st).1.isOk = true → live (server.answer r ps st).2
  refused : ∀ r ps st, r.concernsRows = true → (server.answer r ps st).1.isOk = false →
    rows (server.answer r ps st).2 = rows st
  looked : ∀ q ps st, rows (server.answer (.select q) ps st).2 = rows st
  select : ∀ e ∈ s.entities, ∀ c, e.Seeks s c → ∀ outputs : List Sql.Output,
    (∀ o ∈ outputs, o.column.source = .table e.name ∧ o.column.column ∈ e.columnNames) →
      let q : Sql.Select := { outputs, source := { table := e.name }, condition := some c }
      ∀ ps st, Request.Sent d (.select q) ps →
        (live st → (server.answer (.select q) ps st).1.isOk = true) ∧
        ∀ reply, (server.answer (.select q) ps st).1 = .ok reply →
          reply.rows.Perm ((q.rows (rows st)).map fun row => row.map shown)
  insert : ∀ e ∈ s.entities, ∀ i : Sql.Insert, i.table = e.name →
    (∀ a ∈ i.assignments, Query.columnType? s e a.column = some a.type) →
      ∀ ps st st' reply, Request.Sent d (.insert i) ps →
        server.answer (.insert i) ps st = (.ok reply, st') → ∃ base,
          Sql.Exchanged e.name [] [Assignment.write i.assignments base] (rows st) (rows st') ∧
          (∀ f ∈ e.fields, f.primaryKey = false → f.hasDefault = true →
            f.name ∉ i.assignments.map (·.column) → ∃ v, f.type.admits v = true ∧
              v.same f.default = true ∧ base f.name = cells.literal f.type v) ∧
          ∀ key, e.key? = some key → i.counted = some key.name →
            ∃ n, Session.countedKey d reply = .int n ∧ key.type.admits (.int n) = true ∧
              base key.name = cells.literal key.type (.int n)
  update : ∀ e ∈ s.entities, ∀ c, e.Seeks s c → ∀ assignments : List Assignment,
    (∀ a ∈ assignments, Query.columnType? s e a.column = some a.type) →
      let u : Sql.Update := { table := e.name, assignments, condition := c }
      ∀ ps st, Request.Sent d (.update u) ps →
        (live st → (∀ row ∈ rows st e.name, c.reaches (rows st) e.name row = false) →
          (server.answer (.update u) ps st).1.isOk = true ∧
            rows (server.answer (.update u) ps st).2 = rows st) ∧
        ∀ st' reply, server.answer (.update u) ps st = (.ok reply, st') →
          (rows st' e.name).Perm ((rows st e.name).map fun row =>
            if c.reaches (rows st) e.name row then Assignment.write assignments row else row) ∧
          (∀ other ≠ e.name, rows st' other = rows st other) ∧
          reply.changed = (rows st e.name).countP (c.reaches (rows st) e.name)
  delete : ∀ e ∈ s.entities, ∀ c, e.Seeks s c →
    let x : Sql.Delete := { table := e.name, condition := c }
    ∀ ps st, Request.Sent d (.delete x) ps →
      (live st → (∀ row ∈ rows st e.name, c.reaches (rows st) e.name row = false) →
        (server.answer (.delete x) ps st).1.isOk = true ∧
          rows (server.answer (.delete x) ps st).2 = rows st) ∧
      ∀ st' reply, server.answer (.delete x) ps st = (.ok reply, st') →
        (rows st' e.name).Perm ((rows st e.name).filter fun row =>
          !c.reaches (rows st) e.name row) ∧
        (∀ other ≠ e.name, rows st' other = rows st other) ∧
        reply.changed = (rows st e.name).countP (c.reaches (rows st) e.name)

theorem LogicalType.same_self {t : LogicalType} {v : Value} (h : t.admits v = true) :
    v.same v = true := by
  by_cases ht : t = .json
  · exact (Sql.Binding.document_spaced h ht).2.2
  have hadmitted := admitted_of_admits h ht
  cases hadmitted with
  | real x => exact (Value.same_single rfl rfl).2 ⟨rfl, by simpa [admits] using h⟩
  | _ => exact (Value.same_single rfl rfl).2 ⟨rfl, rfl⟩

theorem Entity.Sound.seeks_key {s : Schema} {e : Entity} {key : Field} {v : Value} {test : Sql.Test}
    (he : e.Sound) (hk : e.key? = some key) (hv : key.type.admits v = true)
    (ht : test.Seeks ⟨.table e.name, key.name, key.type⟩ v) : e.Seeks s (.test test) :=
  ⟨key.name, key.type, v, test, he.columnType_key hk, hv, ht, rfl⟩

namespace Database

variable {σ : Type} {server : Server σ} {d : Dialect} {s : Schema} (k : Database server d s)
  {st : σ} {e : Entity} {t : LogicalType} {v : Value} {key : Field} {test : Sql.Test}

/-! ## Cells -/

/-- A cell is read as a value, or, if it is a document, as an equal one. -/
def Reads (t : LogicalType) (v : Value) (cell : Option k.cells.Cell) : Prop :=
  ∃ u, Sql.Binding.read d t (k.shown cell) = .ok u ∧ (u = v ∨ t = .json ∧ u.same v = true)

/-- A cell holds a value: it is read as the value, and it is null for null, documents apart. -/
structure Holds (t : LogicalType) (v : Value) (cell : Option k.cells.Cell) : Prop where
  reads : k.Reads t v cell
  null : cell = none ↔ v = .null ∧ t ≠ .json

/-- A row has a key. -/
def HasKey (e : Entity) (v : Value) (row : Sql.Row k.cells) : Prop :=
  ∃ key u, e.key? = some key ∧ Sql.Binding.read d key.type (k.shown (row key.name)) = .ok u ∧
    u ≠ .null ∧ u.same v = true

theorem literal_eq_none (h : t.admits v = true) :
    k.cells.literal t v = none ↔ v = .null ∧ t ≠ .json := by
  obtain ⟨b, hb⟩ := Sql.Binding.exists_bind h d
  rw [k.null t v b h hb, ← Sql.Binding.bind?_eq_null d t v, hb, Option.some.injEq]

theorem shown_none : k.shown none = .null := by
  have hnull := LogicalType.admits_null .text
  have hbind := (Sql.Binding.bind?_eq_null d .text .null).2 ⟨rfl, nofun⟩
  have hreturned := k.returned .text .null _ hnull hbind
  rw [(k.literal_eq_none hnull).2 ⟨rfl, nofun⟩, Sql.Binding.Returned, if_neg (by simp)] at hreturned
  exact hreturned

theorem read_literal (h : t.admits v = true) (ht : t ≠ .json) :
    Sql.Binding.read d t (k.shown (k.cells.literal t v)) = .ok v := by
  obtain ⟨b, hb⟩ := Sql.Binding.exists_bind h d
  exact Sql.Binding.read_of_returned h ht hb (k.returned t v b h hb)

theorem reads_literal (h : t.admits v = true) : k.Reads t v (k.cells.literal t v) := by
  by_cases ht : t = .json
  · subst ht
    obtain ⟨b, hb⟩ := Sql.Binding.exists_bind h d
    obtain ⟨u, hread, hsame⟩ :=
      Sql.Binding.read_of_returned_document h hb (k.returned .json v b h hb)
    exact ⟨u, hread, Or.inr ⟨rfl, hsame⟩⟩
  · exact ⟨v, k.read_literal h ht, Or.inl rfl⟩

theorem holds_literal (h : t.admits v = true) : k.Holds t v (k.cells.literal t v) :=
  ⟨k.reads_literal h, k.literal_eq_none h⟩

theorem exists_read (he : e ∈ s.entities) {row : Sql.Row k.cells} (hrow : row ∈ k.rows st e.name)
    {column : String} (ht : Query.columnType? s e column = some t) :
    ∃ u, Sql.Binding.read d t (k.shown (row column)) = .ok u := by
  rcases k.typed st e he row hrow column t ht with hnone | ⟨v, hv, hliteral⟩
  · exact ⟨.null, by rw [hnone, k.shown_none, Sql.Binding.read_null]⟩
  · obtain ⟨u, hread, -⟩ := k.reads_literal hv
    exact ⟨u, by rw [hliteral, hread]⟩

/-! ## Keys -/

theorem exists_key (he : e ∈ s.entities) (hsound : e.Sound) (hk : e.key? = some key)
    {row : Sql.Row k.cells} (hrow : row ∈ k.rows st e.name) :
    ∃ u, key.type.admits u = true ∧ u ≠ .null ∧ row key.name = k.cells.literal key.type u := by
  have hpresent := (k.keyed st e he key hk).1 row hrow
  obtain ⟨u, hu, hliteral⟩ :=
    (k.typed st e he row hrow key.name key.type (hsound.columnType_key hk)).resolve_left hpresent
  refine ⟨u, hu, fun hnull => hpresent ?_, hliteral⟩
  rw [hliteral, (k.literal_eq_none hu).2 ⟨hnull, hsound.key_comparable hk⟩]

theorem hasKey_iff (hsound : e.Sound) (hk : e.key? = some key) {row : Sql.Row k.cells} {u : Value}
    (hu : key.type.admits u = true) (hn : u ≠ .null)
    (hrow : row key.name = k.cells.literal key.type u) : k.HasKey e v row ↔ u.same v = true := by
  have hread := k.read_literal hu (hsound.key_comparable hk)
  rw [← hrow] at hread
  constructor
  · rintro ⟨key', u', hk', hread', -, hsame⟩
    cases hk.symm.trans hk'
    cases hread.symm.trans hread'
    exact hsame
  · exact fun hsame => ⟨key, u, hk, hread, hn, hsame⟩

theorem not_same_null {u : Value} (h : u ≠ .null) : u.same .null = false := by
  cases u <;> first | rfl | exact absurd rfl h

/-- A condition on the key reaches the rows that have it. -/
theorem reaches_iff (he : e ∈ s.entities) (hsound : e.Sound) (hk : e.key? = some key)
    (hv : key.type.admits v = true) (ht : test.Seeks ⟨.table e.name, key.name, key.type⟩ v)
    {row : Sql.Row k.cells} (hrow : row ∈ k.rows st e.name) :
    (Sql.Condition.test test).reaches (k.rows st) e.name row = true ↔ k.HasKey e v row := by
  obtain ⟨u, hu, hn, hliteral⟩ := k.exists_key he hsound hk hrow
  have hcell := Sql.Scope.read_put_self Sql.Scope.empty row ⟨.table e.name, key.name, key.type⟩
  rw [k.hasKey_iff hsound hk hu hn hliteral, Sql.Condition.reaches, decide_eq_true_iff,
    Sql.Condition.eval]
  by_cases hnull : v = .null
  · subst hnull
    have hsome : (row key.name).isNone = false := by
      cases hr : row key.name with
      | none => exact absurd hr ((k.keyed st e he key hk).1 row hrow)
      | some x => rfl
    rw [Sql.eval_of_seeks_null ht, hcell, hsome, not_same_null hn]
    simp
  · rw [Sql.eval_of_seeks ht hv (hsound.key_comparable hk) hnull, hcell, hliteral,
      k.same e he key hk u v hu hv hn hnull]

theorem same_key (he : e ∈ s.entities) (hsound : e.Sound) (hk : e.key? = some key)
    (hv : key.type.admits v = true) {row : Sql.Row k.cells} (hrow : row ∈ k.rows st e.name)
    (h : k.HasKey e v row) :
    k.cells.same key.type (row key.name) (k.cells.literal key.type v) = true := by
  obtain ⟨u, hu, hn, hliteral⟩ := k.exists_key he hsound hk hrow
  have hsame := (k.hasKey_iff hsound hk hu hn hliteral).1 h
  have hnull : v ≠ .null := by
    rintro rfl
    rw [not_same_null hn] at hsame
    cases hsame
  rw [hliteral, k.same e he key hk u v hu hv hn hnull, hsame]

theorem not_both (he : e ∈ s.entities) (hsound : e.Sound) (hk : e.key? = some key)
    (hv : key.type.admits v = true) {row other : Sql.Row k.cells} (hrow : row ∈ k.rows st e.name)
    (hother : other ∈ k.rows st e.name)
    (hapart : k.cells.same key.type (row key.name) (other key.name) = false)
    (h : k.HasKey e v row) : ¬k.HasKey e v other := by
  intro h'
  have hsame := k.same_key he hsound hk hv hother h'
  rw [Sql.Cells.same_comm] at hsame
  rw [Sql.Cells.same_trans (k.same_key he hsound hk hv hrow h) hsame] at hapart
  cases hapart

/-- There is no row with a key, or exactly one. -/
theorem none_or_row (he : e ∈ s.entities) (hsound : e.Sound) (hk : e.key? = some key)
    (hv : key.type.admits v = true) (st : σ) :
    (∀ row ∈ k.rows st e.name, ¬k.HasKey e v row) ∨
      ∃ row others, (k.rows st e.name).Perm (row :: others) ∧ k.HasKey e v row ∧
        ∀ other ∈ others, ¬k.HasKey e v other := by
  classical
  have happart := List.Pairwise.and_mem.1 (k.keyed st e he key hk).2
  have hcases := Sql.none_or_single (p := fun row => decide (k.HasKey e v row)) happart
    fun x y ⟨hx, hy, hxy⟩ hp => decide_eq_false
      (k.not_both he hsound hk hv hx hy hxy (of_decide_eq_true hp))
  simpa only [decide_eq_true_eq, decide_eq_false_iff_not] using hcases

theorem none_or_reached (he : e ∈ s.entities) (hsound : e.Sound) (hk : e.key? = some key)
    (hv : key.type.admits v = true) (ht : test.Seeks ⟨.table e.name, key.name, key.type⟩ v) (st : σ) :
    let p := (Sql.Condition.test test).reaches (k.rows st) e.name
    ((∀ row ∈ k.rows st e.name, p row = false) ∧ ∀ row ∈ k.rows st e.name, ¬k.HasKey e v row) ∨
      ∃ row others, (k.rows st e.name).Perm (row :: others) ∧ k.HasKey e v row ∧ p row = true ∧
        ∀ other ∈ others, p other = false := by
  have hreaches : ∀ row ∈ k.rows st e.name,
      ((Sql.Condition.test test).reaches (k.rows st) e.name row = true ↔ k.HasKey e v row) :=
    fun _ => k.reaches_iff he hsound hk hv ht
  have hnot : ∀ row ∈ k.rows st e.name, ¬k.HasKey e v row →
      (Sql.Condition.test test).reaches (k.rows st) e.name row = false := fun row hrow hno =>
    Bool.eq_false_iff.2 fun hp => hno ((hreaches row hrow).1 hp)
  rcases k.none_or_row he hsound hk hv st with hnone | ⟨row, others, hperm, hhas, hothers⟩
  · exact Or.inl ⟨fun row hrow => hnot row hrow (hnone row hrow), hnone⟩
  · refine Or.inr ⟨row, others, hperm, hhas, ?_, fun other hother => ?_⟩
    · exact (hreaches row (hperm.mem_iff.2 List.mem_cons_self)).2 hhas
    · exact hnot other (hperm.mem_iff.2 (List.mem_cons_of_mem row hother)) (hothers other hother)

theorem not_hasKey (he : e ∈ s.entities) (hsound : e.Sound) (hk : e.key? = some key)
    (hv : key.type.admits v = true) {row : Sql.Row k.cells} {others : List (Sql.Row k.cells)}
    (hrows : (k.rows st e.name).Perm (row :: others)) (h : k.HasKey e v row) :
    ∀ other ∈ others, ¬k.HasKey e v other := by
  intro other hother
  have happart : (row :: others).Pairwise fun a b =>
      k.cells.same key.type (a key.name) (b key.name) = false :=
    (k.keyed st e he key hk).2.perm hrows fun h => by rw [Sql.Cells.same_comm, h]
  exact k.not_both he hsound hk hv (hrows.mem_iff.2 List.mem_cons_self)
    (hrows.mem_iff.2 (List.mem_cons_of_mem row hother)) (List.rel_of_pairwise_cons happart hother) h

end Database

end SchemaLedger
