import SchemaLedger.Proofs.Query.Lookup
import SchemaLedger.Proofs.Sql.Layout
import SchemaLedger.Session.Record

set_option autoImplicit false

/-!
# The columns that records are written to

The table of an entity has the columns of the entity, in their order and with their types. Values by
the names of columns are assigned to it one by one, each as its column would hold it.
-/
namespace SchemaLedger.Sql

variable {d : Dialect} {s : Schema} {e : Entity} {name : String} {t : Table} {ts : Tables}
  {values : Entries} {column : String} {type : LogicalType} {v : Value}

namespace Table

theorem columnNames_ofEntity (h : ofEntity d s name e = .ok t) : t.columnNames = e.columnNames := by
  obtain ⟨fields, hfields, h⟩ := (Outcome.bind_eq_ok _ _ _).1 h
  obtain ⟨references, hreferences, h⟩ := (Outcome.bind_eq_ok _ _ _).1 h
  obtain ⟨foreignKeys, -, h⟩ := (Outcome.bind_eq_ok _ _ _).1 h
  split at h
  · cases h
  cases h
  have hf : fields.map (·.name) = e.fields.map (·.name) := by
    refine Outcome.map_of_mapM (fun f c hc => ?_) hfields
    obtain ⟨default, -, rfl⟩ := (fieldColumn_eq_ok d f c).1 hc
    rfl
  have hr : references.map (·.name) = e.references.map (·.name) := by
    refine Outcome.map_of_mapM (fun r c hc => ?_) hreferences
    obtain ⟨key, -, hc⟩ := (Outcome.bind_eq_ok _ _ _).1 hc
    cases hc
    rfl
  rw [columnNames, List.map_append, hf, hr]
  rfl

theorem columnType_ofEntity (hs : s.Sound) (he : e ∈ s.entities) (h : ofEntity d s name e = .ok t)
    {c : Column} (hc : c ∈ t.columns) : Query.columnType? s e c.name = some c.type := by
  rcases ((ofEntity_of_eq_ok hs h).columns c).1 hc with ⟨f, hf, hcolumn⟩ | ⟨r, hr, hcolumn⟩
  · obtain ⟨default, -, rfl⟩ := (fieldColumn_eq_ok d f c).1 hcolumn
    exact Query.columnType?_field (hs.entities e he) hf
  · obtain ⟨key, hkey, rfl⟩ := (referenceColumn_eq_ok hs r c).1 hcolumn
    exact Query.columnType?_reference hs he hr hkey

theorem exists_column (h : ofEntity d s name e = .ok t) (hn : column ∈ e.columnNames) :
    ∃ c ∈ t.columns, c.name = column :=
  List.mem_map.1 (show column ∈ t.columnNames from columnNames_ofEntity h ▸ hn)

end Table

theorem Tables.exists_ofEntity (hs : s.Sound) (h : Tables.ofSchema d s = .ok ts)
    (he : e ∈ s.entities) :
    ∃ t, ts.ofEntity s e.name = .ok t ∧ Table.ofEntity d s e.name e = .ok t := by
  obtain ⟨⟨t, ht, hte⟩, -⟩ := exists_table h he
  have hname := (Table.ofEntity_of_eq_ok hs hte).name
  have hentity : s.entity e.name = .ok e :=
    (Schema.entity_eq_ok_iff hs.distinct _ e).2 ⟨he, rfl⟩
  have hfound : ts.find? e.name = some t :=
    (Keyed.find?_eq_some (nodup_tableNames hs h) e.name t).2 ⟨ht, hname⟩
  refine ⟨t, ?_, hte⟩
  rw [Tables.ofEntity, hentity, hfound]
  rfl

/-! ## Assignments -/

theorem assigned_of_assign {assignments : List Assignment} (h : t.assign values = .ok assignments) :
    assignments = Assignment.ofTable t values := by
  rw [Table.assign] at h
  split at h
  · cases h
    rfl
  · cases h

section Assigned

variable (hs : s.Sound) (he : e ∈ s.entities) (ht : Table.ofEntity d s name e = .ok t)

include ht in
theorem assign_eq_ok (hv : ∀ c ∈ values.map (·.1), c ∈ e.columnNames) :
    t.assign values = .ok (Assignment.ofTable t values) := by
  rw [Table.assign, if_pos]
  refine List.all_eq_true.2 fun x hx => decide_eq_true ?_
  rw [Table.columnNames_ofEntity ht]
  exact hv x.1 (List.mem_map_of_mem hx)

include ht in
theorem columns_assigned (values : Entries) :
    ((Assignment.ofTable t values).map (·.column)).Sublist e.columnNames :=
  Table.columnNames_ofEntity ht ▸ Assignment.columns_ofTable

include hs he ht in
theorem typed_assigned : ∀ a ∈ Assignment.ofTable t values,
    Query.columnType? s e a.column = some a.type ∧
      Entries.get? a.column values = some a.value := by
  intro a ha
  obtain ⟨c, hc, hvalue, hcolumn, htype⟩ := Assignment.mem_ofTable.1 ha
  rw [hcolumn, htype]
  exact ⟨Table.columnType_ofEntity hs he ht hc, hvalue⟩

include hs he ht in
/-- A column that has a value is given it; the others keep what they have. -/
theorem write_assigned {C : Cells} (values : Entries) (row : Row C) (hn : column ∈ e.columnNames)
    (htype : Query.columnType? s e column = some type) :
    Assignment.write (Assignment.ofTable t values) row column =
      match Entries.get? column values with
      | some v => C.literal type v
      | none => row column := by
  have hdistinct := (columns_assigned ht values).nodup (hs.entities e he).columnNames
  cases hv : Entries.get? column values with
  | some v =>
    obtain ⟨c, hc, rfl⟩ := Table.exists_column ht hn
    have hctype := (Table.columnType_ofEntity hs he ht hc).symm.trans htype
    have ha : (⟨c.name, type, v⟩ : Assignment) ∈ Assignment.ofTable t values :=
      Assignment.mem_ofTable.2 ⟨c, hc, hv, rfl, (Option.some.inj hctype).symm⟩
    exact write_of_mem row hdistinct ha
  | none =>
    refine write_of_notMem row fun hin => ?_
    obtain ⟨a, ha, rfl⟩ := List.mem_map.1 hin
    have hvalue := (typed_assigned hs he ht a ha).2
    rw [hv] at hvalue
    cases hvalue

end Assigned

theorem keyCondition_eq_ok (hs : s.Sound) (he : e ∈ s.entities)
    (ht : Table.ofEntity d s e.name e = .ok t) {h : Handle} (hh : h.entity = e) {key : Field}
    (hk : e.key? = some key) : Session.keyCondition t h =
      .ok (⟨.table e.name, key.name, key.type⟩,
        .test (holding ⟨.table e.name, key.name, key.type⟩ h.key)) := by
  have hname : h.keyName = key.name := by rw [Handle.keyName, hh, hk]
  have hkey : key ∈ e.fields := (List.mem_filter.1 (List.mem_of_mem_head? hk)).1
  obtain ⟨c, hc, hcname⟩ := Table.exists_column ht
    ((e.mem_columnNames key.name).2 (.inl ⟨key, hkey, rfl⟩))
  have hctype : c.type = key.type := by
    have htype := Table.columnType_ofEntity hs he ht hc
    rw [hcname, Query.columnType?_field (hs.entities e he) hkey] at htype
    exact (Option.some.inj htype).symm
  have hdistinct : t.columnNames.Nodup := by
    rw [Table.columnNames_ofEntity ht]
    exact (hs.entities e he).columnNames
  have hfound : t.column? key.name = some ⟨.table e.name, key.name, key.type⟩ := by
    rw [Table.column?, (Keyed.find?_eq_some hdistinct key.name c).2 ⟨hc, hcname⟩, Option.map_some,
      (Table.ofEntity_of_eq_ok hs ht).name, hctype]
  rw [Session.keyCondition, Table.columnOf, hname, hfound]
  rfl

end SchemaLedger.Sql
