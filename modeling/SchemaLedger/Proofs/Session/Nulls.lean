import SchemaLedger.Proofs.Session.Storing

set_option autoImplicit false

/-!
# Null in records, statements and rows

What becomes of null when a record is saved. The driver is given the null of SQL, which the test for
null finds again, in all columns but those of documents: the null of a document is a document.
-/
namespace SchemaLedger

open Sql (Assignment Exchanged)

/-- What a request assigns to columns, in its order. -/
def Request.assignments : Request → List Assignment
  | .insert i => i.assignments
  | .update u => u.assignments
  | _ => []

/-- The parameters of a request begin with those of what it assigns. -/
theorem Request.exists_bound {d : Dialect} {r : Request} {ps : List (String × Sql.Bound)}
    (h : (r.prepare d).bind d = .ok ps) {m : Nat} {a : Assignment}
    (ha : r.assignments[m]? = some a) :
    ∃ b, ps[m]? = some (Sql.Fragment.placeholderName d a.column, b) ∧
      Sql.Binding.bind? d a.type a.value = some b := by
  have hnamed : (r.prepare d).parameters[m]? = some (a.named d) := by
    cases r with
    | insert i =>
      rw [Sql.parameters_insert, List.getElem?_map]
      exact congrArg (Option.map _) ha
    | update u =>
      obtain ⟨hlt, -⟩ := List.getElem?_eq_some_iff.1 ha
      have hlt' : m < (u.assignments.map (·.named d)).length := by
        rw [List.length_map]
        exact hlt
      rw [Sql.parameters_update, List.getElem?_append_left hlt', List.getElem?_map]
      exact congrArg (Option.map _) ha
    | _ => cases ha
  obtain ⟨y, hy, hbound⟩ := Outcome.getElem?_of_mapM h hnamed
  obtain ⟨b, hb, hpair⟩ := (Outcome.bind_eq_ok _ _ _).1 hbound
  cases hpair
  refine ⟨b, hy, ?_⟩
  unfold Sql.Binding.bind at hb
  split at hb
  case h_1 b' hsome =>
    cases hb
    exact hsome
  case h_2 => cases hb

/-- A statement for a handle gives each column that it assigns the value of the handle, or the key that
was chosen for it. The parameter is the null of SQL for null in a column that is not one of documents,
and for nothing else. -/
def Event.Gives (d : Dialect) (s : Schema) (h : Handle) : Event → Prop
  | .sent r _ ps => ∀ (m : Nat) (a : Assignment), r.assignments[m]? = some a →
      Query.columnType? s h.entity a.column = some a.type ∧
      (h.value? a.column = some a.value ∨ a.column = h.keyName ∧ h.key = .null ∧ a.value ≠ .null) ∧
      ∃ b, ps[m]? = some (Sql.Fragment.placeholderName d a.column, b) ∧
        (b = .plain .null ↔ a.value = .null ∧ a.type ≠ .json)
  | _ => True

theorem Event.gives_of_assignments {d : Dialect} {s : Schema} {h : Handle} {r : Request}
    (hr : r.assignments = []) (text : String) (ps : List (String × Sql.Bound)) :
    (Event.sent r text ps).Gives d s h := by
  intro m a ha
  rw [hr] at ha
  cases ha

theorem Event.gives_of_routine {d : Dialect} {s : Schema} {h : Handle} {e : Event}
    (he : e.routine = true) : e.Gives d s h := by
  cases e with
  | sent r text ps =>
    refine gives_of_assignments ?_ text ps
    cases r <;> first | rfl | cases he
  | _ => trivial

/-- A column that is inserted is given the value of the record, the key apart, which may be drawn. -/
theorem Handle.value?_of_insertion {h : Handle} {key : Field} {fresh : Uuid} {i : Insertion}
    (hk : h.entity.key? = some key) (hi : h.insertion fresh = .ok i) {column : String} {v : Value}
    (hv : Entries.get? column i.values = some v) :
    h.value? column = some v ∨ column = h.keyName ∧ h.key = .null ∧ v ≠ .null := by
  obtain ⟨values, hkeyed, hi⟩ := (Outcome.bind_eq_ok _ _ _).1 hi
  obtain ⟨left, hleft, hi⟩ := (Outcome.bind_eq_ok _ _ _).1 hi
  cases hi
  obtain ⟨hkey, hothers, -⟩ := keyed_eq_ok hk hkeyed
  rw [get?_leaveOut hleft] at hv
  split at hv
  · cases hv
  by_cases hc : column = key.name
  · subst hc
    rw [hv] at hkey
    rw [keyName_eq hk]
    generalize hsome : some v = found at hkey
    cases hkey with
    | own hne =>
      cases hsome
      exact Or.inl (value?_key hk hne)
    | identifier hnull =>
      cases hsome
      exact Or.inr ⟨rfl, hnull, by simp⟩
    | counted => cases hsome
  · exact Or.inl (hothers column hc ▸ hv)

/-! ## Rows -/

/-- The query for the records with null in a column. -/
def Query.Plan.nullIn (entity column : String) : Plan :=
  { entity, predicate := some (.compare (.field column) .eq (.value .null)) }

/-- A selection from one table finds a row of it. -/
def Sql.Select.Reaches {C : Sql.Cells} (q : Sql.Select) (rows : Sql.Contents C) (table : String)
    (row : Sql.Row C) : Prop :=
  q.source = { table } ∧ row ∈ rows table ∧
    ∃ c, q.condition = some c ∧ c.reaches rows table row = true

namespace Database

variable {σ : Type} {server : Server σ} {d : Dialect} {s : Schema} (k : Database server d s)
  {h h' : Handle} {key : Field} {before after rows : Sql.Contents k.cells} {row : Sql.Row k.cells}
  {t : LogicalType} {u v : Value} {cell : Option k.cells.Cell} {column : String}

/-- A row has null where a record has, but for documents. -/
def SharesNulls (h : Handle) (row : Sql.Row k.cells) : Prop :=
  ∀ column t, Query.columnType? s h.entity column = some t →
    (row column = none ↔ h.value? column = some .null ∧ t ≠ .json)

/-- The row of a saved record is found by the query for null in a column exactly if the record has
null there and the column is not one of documents. All other rows are what they were. -/
def KeepsNulls (h h' : Handle) (before after : Sql.Contents k.cells) : Prop :=
  ∃ old row, Exchanged h.entity.name old [row] before after ∧ k.HasKey h.entity h'.key row ∧
    ∀ column t, Query.columnType? s h.entity column = some t → '.' ∉ column.toList →
      ∃ q, (Query.Plan.nullIn h.entity.name column).compile d s = .ok q ∧
        (q.select.Reaches after h.entity.name row ↔ h'.value? column = some .null ∧ t ≠ .json)

variable {k}

theorem Reads.read_eq (hr : k.Reads t v cell) (ht : t ≠ .json) :
    Sql.Binding.read d t (k.shown cell) = .ok v := by
  obtain ⟨u, hread, rfl | ⟨hjson, -⟩⟩ := hr
  · exact hread
  · exact absurd hjson ht

theorem ne_none_of_read (hread : Sql.Binding.read d t (k.shown cell) = .ok u) (hu : u ≠ .null) :
    cell ≠ none := by
  rintro rfl
  rw [k.shown_none, Sql.Binding.read_null] at hread
  cases hread
  exact hu rfl

/-- A cell that is not read as null does not hold it either. -/
theorem Reads.null_of_read (hr : k.Reads t v cell)
    (hread : Sql.Binding.read d t (k.shown cell) = .ok u) (hu : u ≠ .null) :
    cell = none ↔ v = .null ∧ t ≠ .json := by
  refine iff_of_false (ne_none_of_read hread hu) fun ⟨hnull, ht⟩ => hu ?_
  cases hread.symm.trans (hr.read_eq ht)
  exact hnull

theorem Reads.null_of_holds (hr : k.Reads t v cell) (hu : k.Holds t u cell) :
    cell = none ↔ v = .null ∧ t ≠ .json := by
  rw [hu.null]
  refine and_congr_left fun ht => ?_
  cases (hu.reads.read_eq ht).symm.trans (hr.read_eq ht)
  exact Iff.rfl

theorem null_of_same (h : Value.null.same v = true) : v = .null := by
  cases v <;> first | rfl | cases h

section Sharing

variable (hs : s.Sound) (hin : h.entity ∈ s.entities)

include hs hin

/-- The query for null finds the rows that have none there. -/
theorem exists_nullIn (hrow : row ∈ rows h.entity.name)
    (ht : Query.columnType? s h.entity column = some t) (hdot : '.' ∉ column.toList) :
    ∃ q, (Query.Plan.nullIn h.entity.name column).compile d s = .ok q ∧
      (q.select.Reaches rows h.entity.name row ↔ row column = none) := by
  refine ⟨_, Query.compile_lookup hs hin k.built (Query.mem_columnNames ht) hdot ht .null, ?_⟩
  have hreaches : (Query.sought h.entity column t .null).reaches rows h.entity.name row = true ↔
      row column = none := by
    rw [Query.sought, Sql.Condition.reaches, decide_eq_true_iff, Sql.Condition.eval,
      Sql.eval_of_seeks_null (Or.inl rfl), Sql.Scope.read_put_self Sql.Scope.empty row
        ⟨.table h.entity.name, column, t⟩, Option.some.injEq, Option.isNone_iff_eq_none]
  rw [← hreaches]
  constructor
  · rintro ⟨-, -, c, hc, hr⟩
    cases hc
    exact hr
  · exact fun hr => ⟨rfl, hrow, _, rfl, hr⟩

theorem Inserts.sharesNulls (hi : k.Inserts h h' before after) (hh : h.entity.key? = some key) :
    ∃ row, Exchanged h.entity.name [] [row] before after ∧ k.HasKey h.entity h'.key row ∧
      k.SharesNulls h' row := by
  obtain ⟨row, hrows, hhas, hfills, hmirrors⟩ := hi.row
  refine ⟨row, hrows, hhas, fun column t ht => ?_⟩
  rw [hi.entity] at ht
  obtain ⟨v, hv, hreads⟩ := hmirrors column t ht
  rw [Handle.value?, hv, Option.some.injEq]
  by_cases hc : column = h.keyName
  · -- A key is never null, and neither is a default that was filled in.
    obtain ⟨key', u, hk', hread, hu, -⟩ := hhas
    cases hh.symm.trans hk'
    rw [Handle.keyName_eq hh] at hc
    subst hc
    cases ht.symm.trans ((hs.entities _ hin).columnType_key hh)
    exact hreads.null_of_read hread hu
  by_cases hl : h.Leaves column
  · obtain ⟨f, hf, rfl, hdefault⟩ := hl.2
    obtain ⟨u, hread, hsame⟩ := hfills.left f hf hc hl
    cases ht.symm.trans (Query.columnType?_field (hs.entities _ hin) hf)
    refine hreads.null_of_read hread ?_
    rintro rfl
    rw [Field.hasDefault, null_of_same hsame] at hdefault
    cases hdefault
  · obtain ⟨u, -, hholds⟩ := hfills.given column t ht hc hl
    exact hreads.null_of_holds hholds

omit hs hin in
theorem Overwrites.sharesNulls (ho : k.Overwrites h before after) (hh : h.entity.key? = some key) :
    ∃ old row, Exchanged h.entity.name [old] [row] before after ∧
      k.HasKey h.entity h.key row ∧ k.SharesNulls h row := by
  obtain ⟨old, row, hrows, ⟨key', u, hk', hread, hu, hsame⟩, hkey, hothers⟩ := ho
  cases hh.symm.trans hk'
  rw [Handle.keyName_eq hh] at hkey
  rw [← hkey] at hread
  refine ⟨old, row, hrows, ⟨key, u, hh, hread, hu, hsame⟩, fun column t ht => ?_⟩
  by_cases hc : column = h.keyName
  · rw [Handle.keyName_eq hh] at hc
    subst hc
    refine iff_of_false (ne_none_of_read hread hu) fun ⟨hnull, _⟩ => ?_
    rw [Handle.key, Handle.keyName_eq hh, hnull, Option.getD_some, not_same_null hu] at hsame
    cases hsame
  · obtain ⟨v, hv, hholds⟩ := hothers column t ht hc
    rw [hv, Option.some.injEq]
    exact hholds.null

theorem Saves.sharesNulls (hsaves : k.Saves h h' before after) :
    h'.entity = h.entity ∧ ∃ old row, Exchanged h.entity.name old [row] before after ∧
      k.HasKey h.entity h'.key row ∧ k.SharesNulls h' row := by
  obtain ⟨key, hk⟩ := (hs.entities _ hin).exists_key
  rw [Saves] at hsaves
  split at hsaves
  · exact ⟨hsaves.entity, [], hsaves.sharesNulls hs hin hk⟩
  · obtain ⟨rfl, hoverwrites⟩ := hsaves
    obtain ⟨old, row, hrows, hhas, hshares⟩ := hoverwrites.sharesNulls hk
    exact ⟨rfl, [old], row, hrows, hhas, hshares⟩
  · exact hsaves.elim

theorem Saves.keepsNulls (hsaves : k.Saves h h' before after) : k.KeepsNulls h h' before after := by
  obtain ⟨hentity, old, row, hrows, hhas, hshares⟩ := hsaves.sharesNulls hs hin
  refine ⟨old, row, hrows, hhas, fun column t ht hdot => ?_⟩
  obtain ⟨others, -, hafter⟩ := hrows.rows
  obtain ⟨q, hq, hreaches⟩ :=
    exists_nullIn (k := k) hs hin (hafter.mem_iff.2 List.mem_cons_self) ht hdot
  exact ⟨q, hq, hreaches.trans (hshares column t (hentity ▸ ht))⟩

end Sharing

end Database

namespace Session

variable {σ : Type} {s : Setting σ} {schema : Schema} {w : World σ} {c n : Nat} {h : Handle}
  {key : Field} {t : Sql.Table} {tables : Sql.Tables} {joined : Option Nat}

/-! ## What is said -/

section Saying

variable (hs : schema.Sound) (hin : h.entity ∈ schema.entities)
  (htables : Sql.Tables.ofSchema s.config.dialect schema = .ok tables)

include hs hin htables

theorem gives_execute {r : Request} {values : Entries}
    (ht : tables.ofEntity schema h.entity.name = .ok t)
    (hr : r.assignments = Assignment.ofTable t values)
    (hvalues : ∀ column v, Entries.get? column values = some v →
      h.value? column = some v ∨ column = h.keyName ∧ h.key = .null ∧ v ≠ .null) :
    (Frame.saying (·.Gives s.config.dialect schema h)).Keeps s (execute c r) := by
  obtain ⟨t', ht', hof⟩ := Sql.Tables.exists_ofEntity hs htables hin
  cases ht.symm.trans ht'
  refine Frame.keeps_execute (Frame.saying_send fun ps hps m a ha => ?_)
  obtain ⟨b, hb, hbind⟩ := Request.exists_bound hps ha
  obtain ⟨htype, hvalue⟩ := Sql.typed_assigned hs hin hof a (hr ▸ List.mem_of_getElem? ha)
  refine ⟨htype, hvalues _ _ hvalue, b, hb, ?_⟩
  rw [← Sql.Binding.bind?_eq_null s.config.dialect, hbind, Option.some.injEq]

omit hs hin htables in
theorem gives_select (q : Sql.Select) :
    (Frame.saying (·.Gives s.config.dialect schema h)).Keeps s (send c (.select q)) :=
  Frame.saying_send fun ps _ => Event.gives_of_assignments rfl _ ps

omit hs hin htables in
theorem gives_update (f : Handle → Handle) :
    (Frame.saying (·.Gives s.config.dialect schema h)).Keeps s (update n f) :=
  fun _ => ⟨[], (List.append_nil _).symm, List.forall_mem_nil _⟩

theorem gives_insertAs (hk : h.entity.key? = some key) (fresh : Uuid) :
    (Frame.saying (·.Gives s.config.dialect schema h)).Keeps s
      (insertAs ⟨schema, tables⟩ n h fresh c) := by
  refine Frame.keeps_dialect (Frame.keeps_bindResult fun i hi => ?_)
  refine Frame.keeps_bindResult fun t ht => Frame.keeps_bindResult fun assignments ha => ?_
  refine Frame.keeps_bind (gives_execute hs hin htables ht (Sql.assigned_of_assign ha)
    fun _ _ => Handle.value?_of_insertion hk hi) fun reply => ?_
  dsimp only
  split
  · exact gives_update _
  · exact Frame.keeps_bind (Frame.keeps_reload gives_select _ _ _) fun _ => gives_update _

theorem gives_overwrite (hk : h.entity.key? = some key)
    (ht : tables.ofEntity schema h.entity.name = .ok t) :
    (Frame.saying (·.Gives s.config.dialect schema h)).Keeps s (overwrite t h c) := by
  refine Frame.keeps_dialect (Frame.keeps_bindResult fun condition _ => ?_)
  dsimp only
  split
  · exact Frame.keeps_bind (Frame.keeps_execute (gives_select _)) fun _ =>
      Frame.keeps_bind (Frame.keeps_ofResult _) fun _ => Frame.keeps_pure _
  refine Frame.keeps_bindResult fun assignments ha => ?_
  split
  · refine Frame.keeps_bind (gives_execute hs hin htables ht (Sql.assigned_of_assign ha)
      fun column v hv => Or.inl ?_) fun reply => Frame.keeps_pure _
    rw [← unkeyed, get?_unkeyed hk] at hv
    split at hv
    · cases hv
    · exact hv
  · exact Frame.keeps_throw _

theorem gives_save (hk : h.entity.key? = some key) (hn : w.records[n]? = some h) :
    (Frame.saying (·.Gives s.config.dialect schema h)).rel w
      (run (save ⟨schema, tables⟩ n c) s w).2 := by
  rw [run_save _ hn]
  cases h.state with
  | new =>
    obtain ⟨fresh, ids, hrun⟩ := run_insert s ⟨schema, tables⟩ c hn
    dsimp only
    rw [hrun]
    exact gives_insertAs hs hin htables hk fresh { w with identifiers := ids }
  | persisted =>
    dsimp only
    rw [saveChanges, run_bind_of_ok (run_handle_of_some hn)]
    refine Frame.keeps_bindResult (fun t ht => ?_) w
    refine Frame.keeps_bind (gives_overwrite hs hin htables hk ht) fun count => ?_
    split
    · exact Frame.keeps_bind (Frame.keeps_throw _) fun _ => gives_update _
    · exact gives_update _
  | deleted => exact Frame.refl _ w

omit htables in
theorem gives_perform (hn : w.records[n]? = some h) :
    (Frame.saying (·.Gives s.config.dialect schema h)).rel w
      (run (Call.perform ⟨schema, joined, .save n⟩) s w).2 := by
  obtain ⟨key, hk⟩ := (hs.entities _ hin).exists_key
  let call : Call := ⟨schema, joined, .save n⟩
  rw [Call.perform, run_bind]
  have hstored : (Frame.saying (·.Gives s.config.dialect schema h)).rel w
      (run (call.stored fun st c => save st n c) s w).2 := by
    rcases stored_cases (Frame.telling_surrounds (fun _ => Event.gives_of_routine) s) call
        (fun st c => save st n c) w with ⟨-, -, hrel⟩ |
      ⟨tables, c, u, htables, ⟨hrecords, hbefore⟩, ⟨-, hafter⟩, -⟩
    · exact hrel
    · exact Frame.trans _ hbefore
        (Frame.trans _ (gives_save hs hin htables hk (hrecords ▸ hn)) hafter)
  rcases hrun : run (call.stored fun st c => save st n c) s w with ⟨e | ⟨⟩, v⟩ <;>
    rw [hrun] at hstored <;> exact hstored

end Saying

variable (joined) in
/-- Whatever is said when a record is saved, the columns that are assigned are given null where the
record has it, documents apart; and once it is saved, the queries for null find its row accordingly. -/
theorem nulls_of_save (hs : schema.Valid) (hn : w.records[n]? = some h) (hh : h.Regular schema) :
    let r := run (Call.perform ⟨schema, joined, .save n⟩) s w
    (∃ es, r.2.log = w.log ++ es ∧ ∀ e ∈ es, e.Gives s.config.dialect schema h) ∧
    ∀ k : Database s.server s.config.dialect schema, k.Ready joined w →
      h.entity.Storable s.config.dialect → h.Admitted schema → r.1.isOk = true →
        ∃ h', r.2.records[n]? = some h' ∧
          k.KeepsNulls h h' (k.rows w.server) (k.rows r.2.server) := by
  rw [Schema.valid_iff_sound] at hs
  refine ⟨?_, fun k hw hstorable hadmitted hok => ?_⟩
  · exact gives_perform hs hh.known hn
  · have hsaved := (concludes_save hs hw (fun h' hn' => Option.some.inj (hn.symm.trans hn') ▸ hh)
      fun h' hn' => Option.some.inj (hn.symm.trans hn') ▸ ⟨hstorable, hadmitted⟩).outcome h hn
    obtain ⟨h', hrecords, hsaves⟩ := hsaved.done hok
    obtain ⟨hlt, -⟩ := List.getElem?_eq_some_iff.1 hn
    exact ⟨h', by rw [hrecords, List.getElem?_set_self hlt], hsaves.keepsNulls hs hh.known⟩

/-- An entity with a text and a document, both of which may be null. -/
def memo : Entity where
  name := "Memo"
  fields := [
    { name := "id", type := .bigint, primaryKey := true, auto := true },
    { name := "text", type := .text, nullable := true },
    { name := "body", type := .json, nullable := true }]

def memos : Schema where
  entities := [memo]

theorem valid_memos : memos.Valid := by decide +kernel

def memosSetting : Setting (Memory memos) where
  server := Memory.server memos
  config := { dialect := .sqlite, target := "memos.db", acquireTimeout := .zero }
  now := .epoch

def memosDatabase : Database memosSetting.server memosSetting.config.dialect memos :=
  Memory.database ((Schema.valid_iff_sound _).1 valid_memos) rfl (by decide +kernel)

/-- A memo of nothing, which no row has been made for yet. -/
def memosWorld : World (Memory memos) where
  server := ⟨⟨fun _ => [], by decide +kernel⟩, ⟨fun _ => [], by decide +kernel⟩, false, fun _ => rfl⟩
  records := [.blank memo .new]

/-- Which parameters of insertions were the null of SQL. -/
def nullsInserted (log : List Event) : List (List (String × Bool)) :=
  log.filterMap fun
    | .sent (.insert _) _ ps => some (ps.map fun
      | (name, .plain v) => (name, v.isNull)
      | (name, .document _) => (name, false))
    | _ => none

theorem nulls_of_save_memo :
    let r := run (Call.perform ⟨memos, none, .save 0⟩) memosSetting memosWorld
    ((∃ es, r.2.log = memosWorld.log ++ es ∧ ∀ e ∈ es, e.Gives .sqlite memos (.blank memo .new)) ∧
      ∃ h', r.2.records[0]? = some h' ∧ memosDatabase.KeepsNulls (.blank memo .new) h'
        (memosDatabase.rows memosWorld.server) (memosDatabase.rows r.2.server)) ∧
    nullsInserted r.2.log = [[("text", true), ("body", false)]] ∧
    ((memosDatabase.rows r.2.server "Memo").map fun row =>
      ((row "text").isNone, (row "body").isNone)) = [(true, false)] := by
  have hregular : (Handle.blank memo .new).Regular memos :=
    ⟨List.mem_singleton_self _, Handle.fits_blank _ _, fun _ => Handle.untouched_blank _ _⟩
  obtain ⟨hlog, hrows⟩ := nulls_of_save (s := memosSetting) (w := memosWorld) (n := 0) none
    valid_memos rfl hregular
  refine ⟨⟨hlog, hrows memosDatabase ?_ ?_ ?_ ?_⟩, ?_, ?_⟩
  · exact ⟨List.forall_mem_nil _, Or.inr (by decide +kernel), rfl⟩
  all_goals decide +kernel

end Session

end SchemaLedger
