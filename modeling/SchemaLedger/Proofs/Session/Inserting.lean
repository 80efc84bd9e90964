import SchemaLedger.Proofs.Record.Insertion
import SchemaLedger.Proofs.Session.Loading

set_option autoImplicit false

/-!
# Records inserted as rows

What saving a new record does to the rows of a database: there is one row more, with the values of the
handle and the defaults of what was never assigned, under a key that no row had. An insertion that
fails leaves all rows alone.
-/
namespace SchemaLedger

open Sql (Assignment Exchanged)

/-- An entity whose records can be written and looked up: its key is no path, and the parameters of a
write have names of their own. -/
structure Entity.Storable (d : Dialect) (e : Entity) : Prop where
  undotted : ∀ key, e.key? = some key → '.' ∉ key.name.toList
  apart : (e.columnNames.map (Sql.Fragment.placeholderName d)).Nodup
  beside : ∀ key, e.key? = some key → ∀ column ∈ e.columnNames,
    column ≠ Sql.Fragment.stemOf key.name ++ "_1" →
      Sql.Fragment.placeholderName d column ≠ Sql.countedName d key.name

instance Entity.decidableStorable (d : Dialect) (e : Entity) : Decidable (e.Storable d) :=
  decidable_of_iff
    ((∀ key ∈ e.key?, '.' ∉ key.name.toList) ∧
      (e.columnNames.map (Sql.Fragment.placeholderName d)).Nodup ∧
      ∀ key ∈ e.key?, ∀ column ∈ e.columnNames, column ≠ Sql.Fragment.stemOf key.name ++ "_1" →
        Sql.Fragment.placeholderName d column ≠ Sql.countedName d key.name)
    ⟨fun ⟨hu, ha, hb⟩ => ⟨hu, ha, hb⟩, fun ⟨hu, ha, hb⟩ => ⟨hu, ha, hb⟩⟩

/-- The values of a handle are values of their columns. -/
def Handle.Admitted (s : Schema) (h : Handle) : Prop :=
  ∀ column t v, Query.columnType? s h.entity column = some t →
    h.value? column = some v → t.admits v = true

instance Handle.decidableAdmitted (s : Schema) (h : Handle) : Decidable (h.Admitted s) :=
  decidable_of_iff (∀ column ∈ h.columns, ∀ t ∈ Query.columnType? s h.entity column,
      ∀ v ∈ h.value? column, t.admits v = true)
    ⟨fun hall column t v ht hv => hall column
        (Entries.isSome_get?.1 (Option.isSome_iff_exists.2 ⟨v, hv⟩)) t ht v hv,
      fun hall column _ t ht v hv => hall column t v ht hv⟩

/-- A handle that can be written. -/
structure Handle.Storable (d : Dialect) (s : Schema) (h : Handle) : Prop where
  known : h.entity ∈ s.entities
  entity : h.entity.Storable d
  fits : h.Fits
  admitted : h.Admitted s

theorem Handle.Fits.exists_value {h : Handle} (hf : h.Fits) {column : String}
    (hc : column ∈ h.entity.columnNames) : ∃ v, h.value? column = some v := by
  refine Option.isSome_iff_exists.1 (Entries.isSome_get?.2 ?_)
  rw [show h.values.map (·.1) = h.entity.columnNames from hf.columns]
  exact hc

theorem Handle.Storable.admits_key {d : Dialect} {s : Schema} {h : Handle} (hh : h.Storable d s)
    (hs : s.Sound) {key : Field} (hk : h.entity.key? = some key) : key.type.admits h.key = true := by
  rw [Handle.key, Handle.keyName_eq hk]
  cases hv : h.value? key.name with
  | none => exact LogicalType.admits_null _
  | some v =>
    exact hh.admitted key.name key.type v ((hs.entities _ hh.known).columnType_key hk) hv

namespace Database

variable {σ : Type} {server : Server σ} {d : Dialect} {s : Schema} (k : Database server d s)
  {st : σ} {h h' : Handle} {key : Field} {fresh : Uuid} {i : Insertion} {t : Sql.Table}
  {base row : Sql.Row k.cells} {reply : Reply}

/-! ## Insertions -/

/-- A row holds what a new record is inserted with: its values, and the defaults of columns that were
left to them. -/
structure Fills (h : Handle) (row : Sql.Row k.cells) : Prop where
  given : ∀ column t, Query.columnType? s h.entity column = some t → column ≠ h.keyName →
    ¬h.Leaves column → ∃ v, h.value? column = some v ∧ k.Holds t v (row column)
  left : ∀ f ∈ h.entity.fields, f.name ≠ h.keyName → h.Leaves f.name → ∃ v,
    Sql.Binding.read d f.type (k.shown (row f.name)) = .ok v ∧ v.same f.default = true

/-- A new record is inserted: one row more, under a key that no row has had. -/
structure Inserts (h h' : Handle) (before after : Sql.Contents k.cells) : Prop where
  entity : h'.entity = h.entity
  state : h'.state = .persisted
  key : h.key ≠ .null → h'.key = h.key
  fresh : ∀ row ∈ before h.entity.name, ¬k.HasKey h.entity h'.key row
  row : ∃ row, Exchanged h.entity.name [] [row] before after ∧ k.HasKey h.entity h'.key row ∧
    k.Fills h row ∧ k.Mirrors h.entity row h'.values

section Inserting

variable (hs : s.Sound) (hh : h.Storable d s) (hnew : h.Untouched) (hk : h.entity.key? = some key)
  (hi : h.insertion fresh = .ok i) (ht : Sql.Table.ofEntity d s h.entity.name h.entity = .ok t)

include hs hh hnew hk hi

theorem inserted_with : h.Keyed key fresh (Entries.get? key.name i.values) ∧
    (∀ column ≠ key.name, (column ∈ i.defaulted ↔ h.Leaves column) ∧
      Entries.get? column i.values = if column ∈ i.defaulted then none else h.value? column) ∧
    key.name ∉ i.defaulted ∧ (i.values.map (·.1)).Sublist h.entity.columnNames := by
  rw [← hh.fits.columns]
  exact Handle.insertion_eq_ok (hs.entities _ hh.known) hnew hk hh.fits hi

theorem admitted_inserted {column : String} {type : LogicalType} {v : Value}
    (htype : Query.columnType? s h.entity column = some type)
    (hv : Entries.get? column i.values = some v) : type.admits v = true := by
  obtain ⟨hkey, hothers, -⟩ := inserted_with hs hh hnew hk hi
  by_cases hc : column = key.name
  · subst hc
    rw [hv] at hkey
    rw [(hs.entities _ hh.known).columnType_key hk, Option.some.injEq] at htype
    subst htype
    generalize hsome : some v = found at hkey
    cases hkey with
    | own => rw [Option.some.inj hsome]; exact hh.admits_key hs hk
    | identifier _ _ htype => rw [Option.some.inj hsome, htype]; rfl
    | counted => cases hsome
  · rw [(hothers column hc).2] at hv
    split at hv
    · cases hv
    · exact hh.admitted column type v htype hv

include ht in
theorem sent_insertion :
    ∃ ps, Request.Sent d (Session.insertRequest t h i (Assignment.ofTable t i.values)) ps := by
  refine Request.Proper.exists_sent
    (Request.proper_insert (Sql.columns_assigned ht _) hh.entity.apart fun a ha => ?_)
  obtain ⟨htype, hvalue⟩ := Sql.typed_assigned hs hh.known ht a ha
  exact admitted_inserted hs hh hnew hk hi htype hvalue

include ht

/-- A row that is inserted has the key of the record, or the one that was chosen for it. -/
theorem exists_chosen (hcounted : Entries.get? key.name i.values = none → ∃ n,
      Session.countedKey d reply = .int n ∧ key.type.admits (.int n) = true ∧
        base key.name = k.cells.literal key.type (.int n)) :
    ∃ v, Entries.get? key.name (Session.settled d h i reply) = some v ∧
      key.type.admits v = true ∧ v ≠ .null ∧ (h.key ≠ .null → v = h.key) ∧
      Assignment.write (Assignment.ofTable t i.values) base key.name =
        k.cells.literal key.type v := by
  obtain ⟨hkey, -⟩ := inserted_with hs hh hnew hk hi
  have hsound := hs.entities _ hh.known
  have hadmitted := fun v => admitted_inserted (v := v) hs hh hnew hk hi (hsound.columnType_key hk)
  have hwrite := Sql.write_assigned hs hh.known ht i.values base (Entity.key_column hk)
    (hsound.columnType_key hk)
  rw [Session.settled, Handle.keyName_eq hk]
  generalize hfound : Entries.get? key.name i.values = found at *
  cases hkey with
  | own hkey =>
    exact ⟨h.key, by rw [if_neg (by simp), hfound], hadmitted _ rfl, hkey, fun _ => rfl, hwrite⟩
  | identifier hkey =>
    exact ⟨_, by rw [if_neg (by simp), hfound], hadmitted _ rfl, by simp, fun hn => absurd hkey hn,
      hwrite⟩
  | counted hkey =>
    obtain ⟨n, hreply, hn, hbase⟩ := hcounted rfl
    exact ⟨.int n, by rw [if_pos (by simp), Entries.get?_put_self, hreply], hn, by simp,
      fun hn => absurd hkey hn, hwrite.trans hbase⟩

theorem written (base : Sql.Row k.cells) {column : String} {type : LogicalType}
    (htype : Query.columnType? s h.entity column = some type) (hc : column ≠ key.name)
    (hkept : ¬h.Leaves column) :
    ∃ v, h.value? column = some v ∧ Entries.get? column i.values = some v ∧
      k.Holds type v (Assignment.write (Assignment.ofTable t i.values) base column) := by
  obtain ⟨-, hothers, -⟩ := inserted_with hs hh hnew hk hi
  obtain ⟨hmem, hget⟩ := hothers column hc
  have hin := Query.mem_columnNames htype
  obtain ⟨v, hv⟩ := hh.fits.exists_value hin
  rw [if_neg (mt hmem.1 hkept), hv] at hget
  refine ⟨v, hv, hget, ?_⟩
  rw [Sql.write_assigned hs hh.known ht _ base hin htype, hget]
  exact k.holds_literal (hh.admitted column type v htype hv)

theorem fills_inserted (hdefaults : ∀ f ∈ h.entity.fields, f.primaryKey = false →
      f.hasDefault = true → f.name ∉ (Assignment.ofTable t i.values).map (·.column) →
        ∃ v, f.type.admits v = true ∧ v.same f.default = true ∧
          base f.name = k.cells.literal f.type v) :
    k.Fills h (Assignment.write (Assignment.ofTable t i.values) base) := by
  have hsound := hs.entities _ hh.known
  refine ⟨fun column type htype hc hkept => ?_, fun f hf hname hleaves => ?_⟩
  · rw [Handle.keyName_eq hk] at hc
    obtain ⟨v, hv, -, hholds⟩ := k.written hs hh hnew hk hi ht base htype hc hkept
    exact ⟨v, hv, hholds⟩
  · rw [Handle.keyName_eq hk] at hname
    obtain ⟨-, hothers, -⟩ := inserted_with hs hh hnew hk hi
    obtain ⟨hmem, hget⟩ := hothers f.name hname
    rw [if_pos (hmem.2 hleaves)] at hget
    have hprimary : f.primaryKey = false :=
      Bool.eq_false_iff.2 fun hp => hname (congrArg _ (hsound.eq_key hk hf hp))
    have hunassigned : f.name ∉ (Assignment.ofTable t i.values).map (·.column) := by
      rintro hin
      obtain ⟨a, ha, hcolumn⟩ := List.mem_map.1 hin
      have hvalue := (Sql.typed_assigned hs hh.known ht a ha).2
      rw [hcolumn, hget] at hvalue
      cases hvalue
    obtain ⟨g, hg, hgname, hdefault⟩ := hleaves.2
    obtain rfl := List.inj_on_of_nodup_map hsound.fieldNames hg hf hgname
    obtain ⟨v, hv, hsame, hbase⟩ := hdefaults g hf hprimary hdefault hunassigned
    have htype := Query.columnType?_field (s := s) hsound hf
    rw [Sql.write_assigned hs hh.known ht _ base (Query.mem_columnNames htype) htype, hget]
    dsimp only
    rw [hbase]
    obtain ⟨u, hread, hu⟩ := k.reads_literal hv
    refine ⟨u, hread, ?_⟩
    rcases hu with rfl | ⟨-, hu⟩
    · exact hsame
    · exact Value.same_trans u v _ hu hsame

omit ht in
theorem nodup_inserted : (i.values.map (·.1)).Nodup :=
  (inserted_with hs hh hnew hk hi).2.2.2.nodup (hs.entities _ hh.known).columnNames

/-- If no column was left to its default, what was inserted are the values of the row. -/
theorem mirrors_settled (hnone : i.defaulted = []) {v : Value} (hadmits : key.type.admits v = true)
    (hv : Entries.get? key.name (Session.settled d h i reply) = some v)
    (hrow : Assignment.write (Assignment.ofTable t i.values) base key.name =
      k.cells.literal key.type v) :
    k.Mirrors h.entity (Assignment.write (Assignment.ofTable t i.values) base)
      (Session.settled d h i reply) := by
  obtain ⟨-, hothers, -⟩ := inserted_with hs hh hnew hk hi
  intro column type htype
  by_cases hc : column = key.name
  · subst hc
    rw [(hs.entities _ hh.known).columnType_key hk, Option.some.injEq] at htype
    subst htype
    rw [hv, hrow]
    exact ⟨v, rfl, k.reads_literal hadmits⟩
  · have hkept : ¬h.Leaves column := fun hl => by
      have hin := (hothers column hc).1.2 hl
      rw [hnone] at hin
      cases hin
    have hget : Entries.get? column (Session.settled d h i reply) =
        Entries.get? column i.values := by
      rw [Session.settled, Handle.keyName_eq hk]
      split
      · rw [Entries.get?_put, if_neg (Ne.symm hc)]
      · rfl
    obtain ⟨v, -, hgiven, hholds⟩ := k.written hs hh hnew hk hi ht base htype hc hkept
    rw [hget, hgiven]
    exact ⟨v, rfl, hholds.reads⟩

end Inserting

theorem inserts_persisted (hs : s.Sound) (hh : h.Storable d s) (hk : h.entity.key? = some key)
    {st' : σ} {stored : Entries} {v : Value} (hadmits : key.type.admits v = true) (hn : v ≠ .null)
    (hown : h.key ≠ .null → v = h.key) (hrow : row key.name = k.cells.literal key.type v)
    (hrows : Exchanged h.entity.name [] [row] (k.rows st) (k.rows st')) (hfills : k.Fills h row)
    (hd : (stored.map (·.1)).Nodup) (hmirrors : k.Mirrors h.entity row stored)
    (hv : Entries.get? key.name stored = some v) :
    k.Inserts h (h.persisted stored) (k.rows st) (k.rows st') := by
  have hsound := hs.entities _ hh.known
  have hvalue : ∀ column, (h.persisted stored).value? column =
      (Entries.get? column stored).or (h.value? column) := fun _ => Handle.value?_persisted hd
  have hkey : (h.persisted stored).key = v := by
    rw [Handle.key, Handle.keyName_eq (h := h.persisted stored) hk, hvalue, hv]
    rfl
  have hhas : k.HasKey h.entity v row := (k.hasKey_iff hsound hk hadmits hn hrow).2
    (LogicalType.same_self hadmits)
  refine ⟨rfl, rfl, fun hne => hkey.trans (hown hne), ?_, row, hrows, hkey ▸ hhas, hfills, ?_⟩
  · obtain ⟨others, hbefore, hafter⟩ := hrows.rows
    rw [hkey]
    exact fun other hother => k.not_hasKey hh.known hsound hk hadmits hafter hhas other
      (hbefore.mem_iff.1 hother)
  · intro column type htype
    obtain ⟨u, hu, hholds⟩ := hmirrors column type htype
    exact ⟨u, by rw [← Handle.value?, hvalue, hu]; rfl, hholds⟩

/-- What comes of writing the record of a number: a new handle for it, or nothing. -/
structure Writes {α : Type} (n : Nat) (Q : Handle → Sql.Contents k.cells → Prop)
    (before : Sql.Contents k.cells) (records : List Handle) (r : Except Error α)
    (after : Sql.Contents k.cells) (records' : List Handle) : Prop where
  done : r.isOk = true → ∃ h', records' = records.set n h' ∧ Q h' after
  undone : r.isOk = false → after = before ∧ records' = records

end Database

namespace Session

variable {σ : Type} {s : Setting σ} {schema : Schema} {w v : World σ} {c n : Nat}
  {k : Database s.server s.config.dialect schema} {key : Field} {e : Error} {h h' : Handle}

theorem modify_eq_set {records : List Handle} (hn : records[n]? = some h) (f : Handle → Handle) :
    records.modify n f = records.set n (f h) := by
  refine List.ext_getElem? fun m => ?_
  rw [List.getElem?_modify, List.getElem?_set]
  obtain ⟨hlt, rfl⟩ := List.getElem?_eq_some_iff.1 hn
  split
  case isTrue heq =>
    subst heq
    simp [hlt]
  case isFalse hne => simp

section Ending

variable {Q : Handle → Sql.Contents k.cells → Prop} {before : Sql.Contents k.cells}
  {records : List Handle}

theorem ends_of_error (hrows : k.rows v.server = before) (hrecords : v.records = records) :
    Ends k (k.Writes n Q before records) before ((.error e, v) : Except Error Unit × World σ) :=
  ⟨⟨nofun, fun _ => ⟨hrows, hrecords⟩⟩, nofun, fun _ => hrows⟩

/-- The last that is done is to change the handle. -/
theorem ends_update (hn : records[n]? = some h) (hl : k.live v.server)
    (hrecords : v.records = records) {f : Handle → Handle} (hQ : Q (f h) (k.rows v.server)) :
    Ends k (k.Writes n Q before records) before (run (update n f) s v) :=
  ⟨⟨fun _ => ⟨f h, hrecords ▸ modify_eq_set (hrecords ▸ hn) f, hQ⟩, nofun⟩, fun _ => hl, nofun⟩

end Ending

theorem run_reload (hs : schema.Sound) {e : Entity} (he : e ∈ schema.entities)
    (hk : e.key? = some key) (hdot : '.' ∉ key.name.toList) {x : Value}
    (hx : key.type.admits x = true) (hl : k.live w.server) {row : Sql.Row k.cells}
    {others : List (Sql.Row k.cells)} (hrows : (k.rows w.server e.name).Perm (row :: others))
    (hhas : k.HasKey e x row) :
    ∃ w' stored, run (reload schema e.name x c) s w = (.ok stored, w') ∧ k.live w'.server ∧
      k.rows w'.server = k.rows w.server ∧ w'.records = w.records ∧
      (stored.map (·.1)).Nodup ∧ k.Shows e row stored := by
  have hsound := hs.entities e he
  obtain ⟨w', found, hload, hlive, hsame, hrecords, hfinds⟩ := run_load (c := c) hs he hk hdot hx hl
  have hin : row ∈ k.rows w.server e.name := hrows.mem_iff.2 List.mem_cons_self
  cases found with
  | none => exact absurd hhas (hfinds row hin)
  | some g =>
    obtain ⟨hbegins, other, hother, hkey, hshows⟩ := hfinds
    refine ⟨w', g.values, reload_eq_ok.2 ⟨g, hload, rfl⟩, hlive, hsame, hrecords, ?_, ?_⟩
    · rw [show g.values.map (·.1) = e.columnNames from hbegins.entity ▸ hbegins.fits.columns]
      exact hsound.columnNames
    · rcases List.mem_cons.1 (hrows.mem_iff.1 hother) with rfl | hrest
      · exact hshows
      · exact absurd hkey (k.not_hasKey he hsound hk hx hrows hhas other hrest)

theorem ends_insert (hs : schema.Sound) (hh : h.Storable s.config.dialect schema)
    (hnew : h.Untouched) (hn : w.records[n]? = some h) (hl : k.live w.server) :
    Ends k (k.Writes n (fun h' => k.Inserts h h' (k.rows w.server)) (k.rows w.server) w.records)
      (k.rows w.server) (run (insert ⟨schema, k.tables⟩ n c) s w) := by
  have hsound := hs.entities _ hh.known
  obtain ⟨key, hk⟩ := hsound.exists_key
  obtain ⟨t, htable, ht⟩ := Sql.Tables.exists_ofEntity hs k.built hh.known
  obtain ⟨fresh, ids, hrun⟩ := run_insert s ⟨schema, k.tables⟩ c hn
  rw [hrun, insertAs, run_bind_of_ok run_dialect, run_bind, run_ofResult]
  cases hi : h.insertion fresh with
  | error e => exact ends_of_error rfl rfl
  | ok i =>
    obtain ⟨-, -, -, hsublist⟩ := Database.inserted_with hs hh hnew hk hi
    obtain ⟨ps, hsent⟩ := Database.sent_insertion hs hh hnew hk hi ht
    dsimp only
    rw [htable, run_bind_of_ok (run_ofResult _),
      Sql.assign_eq_ok ht fun c hc => hsublist.subset hc, run_bind_of_ok (run_ofResult _), run_bind]
    rcases execute_cases (c := c) (w := { w with identifiers := ids }) k hsent rfl hl with
      ⟨_, u, hexecute, -, hsame, hrecords⟩ | ⟨reply, u, hexecute, hanswer, hlive, hrecords⟩ <;>
      rw [hexecute]
    · exact ends_of_error hsame hrecords
    obtain ⟨base, hrows, hdefaults, hcounted⟩ := k.insert h.entity hh.known _
      (Sql.Table.ofEntity_of_eq_ok hs ht).name
      (fun a ha => (Sql.typed_assigned hs hh.known ht a ha).1) ps w.server _ reply hsent hanswer
    obtain ⟨v, hv, hadmits, hne, hown, hrow⟩ := k.exists_chosen hs hh hnew hk hi ht
      fun hnone => hcounted key hk (by rw [Handle.keyName_eq hk, hnone]; rfl)
    have hfills := k.fills_inserted hs hh hnew hk hi ht hdefaults
    dsimp only
    split
    case isTrue hnone =>
      exact ends_update hn hlive hrecords (k.inserts_persisted hs hh hk hadmits hne hown hrow hrows
        hfills (nodup_settled (Database.nodup_inserted hs hh hnew hk hi))
        (k.mirrors_settled hs hh hnew hk hi ht (List.isEmpty_iff.1 hnone) hadmits hv hrow) hv)
    case isFalse hsome =>
      -- Something was left to its default, so the handle takes over the row as it is read back.
      have hhas : k.HasKey h.entity v _ := (k.hasKey_iff hsound hk hadmits hne hrow).2
        (LogicalType.same_self hadmits)
      obtain ⟨others, -, hafter⟩ := hrows.rows
      obtain ⟨v', stored, hreload, hlive', hsame, hrecords', hnames, hshows⟩ := run_reload (c := c)
        hs hh.known hk (hh.entity.undotted key hk) hadmits hlive hafter hhas
      rw [Handle.keyName_eq hk, hv, Option.getD_some, run_bind_of_ok hreload]
      have hstored : Entries.get? key.name stored = some v := by
        obtain ⟨x, hx, hread⟩ := hshows key.name key.type (hsound.columnType_key hk)
        rw [hrow, k.read_literal hadmits (hsound.key_comparable hk)] at hread
        cases hread
        exact hx
      rw [← hsame] at hrows
      exact ends_update hn hlive' (hrecords'.trans hrecords) (k.inserts_persisted hs hh hk hadmits
        hne hown hrow hrows hfills hnames hshows.mirrors hstored)

end Session

end SchemaLedger
