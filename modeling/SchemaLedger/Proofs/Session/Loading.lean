import SchemaLedger.Proofs.Record.Insertion
import SchemaLedger.Proofs.Session.Enclosed
import SchemaLedger.Proofs.Sql.Stored

set_option autoImplicit false

/-!
# Records as rows

What loading, saving and deleting one record does to the rows of a database. The rows of an entity are
a map from keys to records: a lookup finds the row of a key, and a write exchanges one row for another
that holds the values of the handle.
-/
namespace SchemaLedger

open Sql (Assignment ColumnRef Exchanged)

/-! ## Handles and rows -/

namespace Database

variable {σ : Type} {server : Server σ} {d : Dialect} {s : Schema} (k : Database server d s)
  {st : σ} {e : Entity} {row : Sql.Row k.cells} {values : Entries} {key : Field} {v : Value}

/-- The values are those that are read from a row. -/
def Shows (e : Entity) (row : Sql.Row k.cells) (values : Entries) : Prop :=
  ∀ column t, Query.columnType? s e column = some t → ∃ v, Entries.get? column values = some v ∧
    Sql.Binding.read d t (k.shown (row column)) = .ok v

/-- The values are those that a row holds. -/
def Mirrors (e : Entity) (row : Sql.Row k.cells) (values : Entries) : Prop :=
  ∀ column t, Query.columnType? s e column = some t → ∃ v, Entries.get? column values = some v ∧
    k.Reads t v (row column)

variable {k}

theorem Shows.mirrors (h : k.Shows e row values) : k.Mirrors e row values := by
  intro column t ht
  obtain ⟨v, hv, hread⟩ := h column t ht
  exact ⟨v, hv, v, hread, Or.inl rfl⟩

theorem read_lookup (hs : s.Sound) (he : e ∈ s.entities) (hrow : row ∈ k.rows st e.name)
    (name : String) (t : LogicalType) (v : Value) :
    ∃ values, Query.Compiled.read d ⟨Query.lookup s e name t v, e.columnNames⟩
        (e.columnNames.map fun n => k.shown (row n)) = .ok values ∧
      values.map (·.1) = e.columnNames ∧ k.Shows e row values := by
  let type (n : String) : LogicalType := (Query.columnType? s e n).getD .text
  let value (n : String) : Value :=
    match Sql.Binding.read d (type n) (k.shown (row n)) with
    | .ok v => v
    | .error _ => .null
  have hread : ∀ n ∈ e.columnNames,
      Sql.Binding.read d (type n) (k.shown (row n)) = .ok (value n) := by
    intro n hn
    obtain ⟨t, ht⟩ := Query.exists_columnType hs he hn
    obtain ⟨u, hu⟩ := k.exists_read he hrow ht
    simp only [type, value, ht, Option.getD_some, hu]
  have htypes : (Query.lookup s e name t v).outputs.map (·.column.type) =
      e.columnNames.map type := by
    rw [Query.lookup, Query.ownColumns, List.map_map, List.map_map]
    rfl
  have hzip : e.columnNames.zip (e.columnNames.map value) =
      e.columnNames.map fun n => (n, value n) := by
    simpa using List.zip_map' (f := id) (g := value) (l := e.columnNames)
  refine ⟨e.columnNames.map fun n => (n, value n), ?_, by simp [Function.comp_def], ?_⟩
  · rw [Query.Compiled.read, htypes, Sql.Binding.readRow_map hread]
    change Query.Compiled.decode _ _ = _
    rw [Query.Compiled.decode, if_pos (List.length_map _), hzip,
      Entries.ofPairs_of_nodup (by simpa [Function.comp_def] using (hs.entities e he).columnNames)]
  · intro column t ht
    have hn := Query.mem_columnNames ht
    refine ⟨value column, Entries.get?_graph hn, ?_⟩
    have hcolumn := hread column hn
    simp only [type, ht, Option.getD_some] at hcolumn
    exact hcolumn

variable (k) in
/-- A lookup is answered with the rows that it seeks. -/
theorem answer_lookup (he : e ∈ s.entities) {column : String} {t : LogicalType}
    (ht : Query.columnType? s e column = some t) (hv : t.admits v = true) (st : σ) :
    ∃ ps, Request.Sent d (.select (Query.lookup s e column t v)) ps ∧
      (k.live st → (server.answer (.select (Query.lookup s e column t v)) ps st).1.isOk = true) ∧
      ∀ reply, (server.answer (.select (Query.lookup s e column t v)) ps st).1 = .ok reply →
        reply.rows.Perm (((k.rows st e.name).filter
          ((Query.sought e column t v).reaches (k.rows st) e.name)).map fun row =>
            e.columnNames.map fun n => k.shown (row n)) := by
  obtain ⟨ps, hsent⟩ := Request.Proper.exists_sent
    (show (Request.select (Query.lookup s e column t v)).Proper d from
      Request.proper_equal (c := ⟨.table e.name, column, t⟩) hv)
  have hseeks : e.Seeks s (Query.sought e column t v) := ⟨column, t, v, _, ht, hv, Or.inl rfl, rfl⟩
  have houtputs := Query.mem_outputs_lookup s e column t v
  obtain ⟨hok, hrows⟩ := k.select e he _ hseeks _ houtputs ps st hsent
  refine ⟨ps, hsent, hok, fun reply hreply => ?_⟩
  have hperm := hrows reply hreply
  rw [Sql.rows_single _ _ fun o ho => (houtputs o ho).1, List.map_map] at hperm
  refine hperm.trans (.of_eq (List.map_congr_left fun row _ => ?_))
  simp only [Query.lookup, Query.ownColumns, Function.comp_apply, List.map_map]
  rfl

/-- What a lookup of a key finds: nothing, or a handle with the values of the row. -/
def Finds (k : Database server d s) (e : Entity) (v : Value) (rows : Sql.Contents k.cells) :
    Option Handle → Prop
  | none => ∀ row ∈ rows e.name, ¬k.HasKey e v row
  | some h => h.Begins e .persisted ∧
      ∃ row ∈ rows e.name, k.HasKey e v row ∧ k.Shows e row h.values

end Database

namespace Session

variable {σ α : Type} {s : Setting σ} {schema : Schema} {w w' : World σ} {c n : Nat} {e : Entity}
  {k : Database s.server s.config.dialect schema} {key : Field} {v : Value} {r : Request}
  {ps : List (String × Sql.Bound)} {h : Handle}

/-! ## Requests -/

theorem run_execute_of_sent (hsent : r.Sent s.config.dialect ps) : run (execute c r) s w =
    ((s.server.answer r ps w.server).1.mapError fun e =>
        .backend (.ofDriver s.config.dialect e (some (r.prepare s.config.dialect).text)),
      answered s c r ps w) := by
  rw [execute, run_bind_of_ok run_dialect, run_classifying, run_send, hsent.bound]
  dsimp only
  cases (s.server.answer r ps w.server).1 <;> rfl

/-- A statement on rows is refused, and then no row changes, or it is carried out. -/
theorem execute_cases (k : Database s.server s.config.dialect schema)
    (hsent : r.Sent s.config.dialect ps) (hr : r.concernsRows = true) (hl : k.live w.server) :
    (∃ e v, run (execute c r) s w = (.error (.backend e), v) ∧
        (s.server.answer r ps w.server).1.isOk = false ∧ k.rows v.server = k.rows w.server ∧
        v.records = w.records) ∨
      ∃ reply v, run (execute c r) s w = (.ok reply, v) ∧
        s.server.answer r ps w.server = (.ok reply, v.server) ∧ k.live v.server ∧
        v.records = w.records := by
  have hserver := server_answered (s := s) (c := c) (w := w) r ps
  have hrecords := records_answered (s := s) (c := c) (w := w) r ps
  have hrefused := k.refused r ps w.server hr
  have hlive := k.live_answer r ps w.server hr hl
  rw [run_execute_of_sent hsent]
  cases hanswer : (s.server.answer r ps w.server).1 with
  | error e =>
    rw [hanswer, ← hserver] at hrefused
    exact Or.inl ⟨_, _, rfl, rfl, hrefused rfl, hrecords⟩
  | ok reply =>
    rw [hanswer, ← hserver] at hlive
    exact Or.inr ⟨reply, _, rfl, Prod.ext hanswer hserver.symm, hlive rfl, hrecords⟩

/-! ## Lookups -/

/-- The query for the record of a key. -/
def keyQuery (s : Schema) (e : Entity) (key : Field) (v : Value) : Query.Compiled :=
  ⟨Query.lookup s e key.name key.type v, e.columnNames⟩

theorem run_load_of_sound (hs : schema.Sound) (he : e ∈ schema.entities) (hk : e.key? = some key)
    (hdot : '.' ∉ key.name.toList) {tables : Sql.Tables}
    (htables : Sql.Tables.ofSchema s.config.dialect schema = .ok tables) :
    run (load schema e.name v c) s w = run (firstRow c (keyQuery schema e key v) >>= fun row =>
      ofResult (row.mapM fun values => Handle.make e values .persisted)) s w := by
  have hentity : schema.entity e.name = .ok e :=
    (Schema.entity_eq_ok_iff hs.distinct _ e).2 ⟨he, rfl⟩
  have hcompile := Query.compile_lookup hs he htables (Entity.key_column hk) hdot
    ((hs.entities e he).columnType_key hk) v
  rw [load, (liftSchema_eq_ok _ _).2 hentity, run_bind_of_ok (run_ofResult (.ok e)),
    show Query.keyName e = key.name by rw [Query.keyName, hk]]
  have hcompiled : run (compile schema
      { entity := e.name, predicate := some (.comparing key.name .eq (.bare v)) }) s w =
        (.ok (keyQuery schema e key v), w) := by
    rw [compile, run_bind_of_ok run_dialect, run_ofResult]
    exact congrArg (·, w) hcompile
  change run ((compile schema _ >>= firstRow c) >>= _) s w = _
  rw [bind_assoc, run_bind_of_ok hcompiled]

theorem run_load (hs : schema.Sound) (he : e ∈ schema.entities) (hk : e.key? = some key)
    (hdot : '.' ∉ key.name.toList) (hv : key.type.admits v = true) (hl : k.live w.server) :
    ∃ w' found, run (load schema e.name v c) s w = (.ok found, w') ∧ k.live w'.server ∧
      k.rows w'.server = k.rows w.server ∧ w'.records = w.records ∧
        k.Finds e v (k.rows w.server) found := by
  have hsound := hs.entities e he
  obtain ⟨ps, hsent, hok, hrows⟩ := k.answer_lookup he (hsound.columnType_key hk) hv w.server
  have hsame := k.looked (keyQuery schema e key v).select ps w.server
  rcases execute_cases (c := c) k hsent rfl hl with
    ⟨_, _, -, hrefused, -⟩ | ⟨reply, w', hexecute, hanswer, hlive, hrecords⟩
  · rw [hok hl] at hrefused
    cases hrefused
  have hperm := hrows reply (congrArg Prod.fst hanswer)
  replace hsame : k.rows w'.server = k.rows w.server := by
    rw [← hsame]
    exact congrArg (k.rows ·.2) hanswer.symm
  have hfirst : run (firstRow c (keyQuery schema e key v)) s w =
      (reply.rows.head?.mapM ((keyQuery schema e key v).read s.config.dialect), w') := by
    rw [keyQuery, firstRow, run_bind_of_ok run_dialect, run_bind_of_ok hexecute, run_ofResult]
  rw [run_load_of_sound hs he hk hdot k.built, run_bind, hfirst]
  refine ⟨w', ?_⟩
  cases hr : reply.rows with
  | nil =>
    rw [hr] at hperm
    refine ⟨none, rfl, hlive, hsame, hrecords, fun row hrow hkey => ?_⟩
    have hnone := List.filter_eq_nil_iff.1 (List.map_eq_nil_iff.1 hperm.nil_eq.symm) row hrow
    exact hnone ((k.reaches_iff he hsound hk hv (Or.inl rfl) hrow).2 hkey)
  | cons cells rest =>
    rw [hr] at hperm
    obtain ⟨row, hrow, rfl⟩ := List.mem_map.1 (hperm.mem_iff.1 List.mem_cons_self)
    obtain ⟨hrow, hreaches⟩ := List.mem_filter.1 hrow
    obtain ⟨values, hread, hnames, hshows⟩ := k.read_lookup hs he hrow key.name key.type v
    obtain ⟨h, hmake, hvalues⟩ := Handle.exists_make .persisted (hnames ▸ hsound.columnNames)
      fun c (hc : c ∈ values.map (·.1)) => (hnames ▸ hc : c ∈ e.columnNames)
    refine ⟨some h, ?_, hlive, hsame, hrecords, Handle.begins_make hmake, row, hrow,
      (k.reaches_iff he hsound hk hv (Or.inl rfl) hrow).1 hreaches, fun column t ht => ?_⟩
    · have hfirst : ((e.columnNames.map fun n => k.shown (row n)) :: rest).head?.mapM
          ((keyQuery schema e key v).read s.config.dialect) = .ok (some values) := by
        rw [List.head?_cons, Option.mapM_some, keyQuery, hread]
        rfl
      rw [hfirst]
      dsimp only
      rw [run_ofResult, Option.mapM_some, hmake]
      rfl
    · obtain ⟨v, hv, hshown⟩ := hshows column t ht
      exact ⟨v, hvalues column v hv, hshown⟩

end Session

end SchemaLedger
