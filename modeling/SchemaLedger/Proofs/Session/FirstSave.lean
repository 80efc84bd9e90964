import SchemaLedger.Proofs.Session.Storing
import SchemaLedger.Proofs.Sql.Creation

set_option autoImplicit false

/-!
# The first save of a record

What is said to a database when a new record is saved, whatever it replies: one insertion, of each
column of the entity with the value of the handle, but for columns that are left to a default and a
key that the database counts. If anything was left to a default, the row is looked up afterwards. A key
that the database counts and that is left to a default at the same time keeps all of it from being
said.
-/
namespace SchemaLedger

open Sql (Assignment)

/-- A request as it is logged. -/
def Request.told (d : Dialect) (r : Request) (ps : List (String × Sql.Bound)) : Event :=
  .sent r (r.prepare d).text ps

/-- The first row that a database replies with, if its cells are values of the columns. -/
def Query.Compiled.first? (q : Query.Compiled) (d : Dialect) :
    Except DriverError Reply → Option Entries
  | .ok reply =>
    match reply.rows.head?.map (q.read d) with
    | some (.ok values) => some values
    | _ => none
  | .error _ => none

namespace Handle

variable {h : Handle} {s : Schema} {key : Field} {fresh : Uuid} {d : Dialect} {i : Insertion}
  {t : Sql.Table}

/-- The insertion of a new record: the columns of its entity in their order, each with its value. -/
def inserting (h : Handle) (s : Schema) (key : Field) (fresh : Uuid) : Sql.Insert where
  table := h.entity.name
  assignments := h.entity.columnNames.filterMap fun column =>
    (h.given? key fresh column).map
      (⟨column, (Query.columnType? s h.entity column).getD .text, ·⟩)
  counted := if (h.given? key fresh key.name).isNone then some key.name else none

/-- Nothing keeps a new record from being inserted: its key is not left to a default, and its values
can be parameters. -/
structure Insertable (h : Handle) (d : Dialect) (s : Schema) (key : Field) (fresh : Uuid) :
    Prop where
  kept : ¬h.Leaves key.name
  bound : ∀ column t v, Query.columnType? s h.entity column = some t →
    h.given? key fresh column = some v → ∃ b, Sql.Binding.bind? d t v = some b

/-- The key of a record that was inserted: its own, or the one that the database counted. -/
def insertedKey (h : Handle) (d : Dialect) (key : Field) (fresh : Uuid) (reply : Reply) : Value :=
  (h.given? key fresh key.name).getD (Session.countedKey d reply)

/-- A handle of a record that was saved, with its values. -/
structure SavedAs (h h' : Handle) (value : String → Option Value) : Prop where
  entity : h'.entity = h.entity
  state : h'.state = .persisted
  dirty : h'.dirty = []
  related : h'.related = h.related
  columns : h'.columns = h.entity.columnNames
  values : ∀ column ∈ h.entity.columnNames, h'.value? column = value column

section Inserting

variable (hs : s.Sound) (hin : h.entity ∈ s.entities) (hu : h.Untouched) (hf : h.Fits)
  (hk : h.entity.key? = some key)

include hs hin hu hf hk

theorem insertRequest_eq (ht : Sql.Table.ofEntity d s h.entity.name h.entity = .ok t)
    (hi : h.insertion fresh = .ok i) :
    Session.insertRequest t h i (Assignment.ofTable t i.values) =
      .insert (h.inserting s key fresh) := by
  have hget := get?_insertion (hs.entities _ hin) hu hk hf hi
  have hassigned : Assignment.ofTable t i.values = (h.inserting s key fresh).assignments := by
    rw [Assignment.ofTable, inserting, ← Sql.Table.columnNames_ofEntity ht, Sql.Table.columnNames,
      List.filterMap_map]
    refine List.filterMap_congr fun c hc => ?_
    rw [hget, Function.comp_apply, Sql.Table.columnType_ofEntity hs hin ht hc]
    rfl
  rw [Session.insertRequest, hassigned, (Sql.Table.ofEntity_of_eq_ok hs ht).name, keyName_eq hk, hget]
  rfl

omit hu hf hk in
theorem exists_bound_inserting_iff :
    (∃ ps, ((Request.insert (h.inserting s key fresh)).prepare d).bind d = .ok ps) ↔
      ∀ column t v, Query.columnType? s h.entity column = some t →
        h.given? key fresh column = some v → ∃ b, Sql.Binding.bind? d t v = some b := by
  rw [Sql.Prepared.bind, Sql.parameters_insert, Outcome.exists_mapM_iff, List.forall_mem_map]
  have hbound : ∀ a : Assignment, (∃ y, (Sql.Binding.bind d a.type a.value >>= fun b =>
      .ok ((a.named d).1, b) : Result (String × Sql.Bound)) = .ok y) ↔
        ∃ b, Sql.Binding.bind? d a.type a.value = some b := by
    intro a
    rw [Outcome.exists_bind_total_iff fun _ => ⟨_, rfl⟩, Sql.Binding.bind]
    cases Sql.Binding.bind? d a.type a.value <;> simp
  have hmem : ∀ a : Assignment, a ∈ (h.inserting s key fresh).assignments ↔
      Query.columnType? s h.entity a.column = some a.type ∧
        h.given? key fresh a.column = some a.value := by
    intro a
    simp only [inserting, List.mem_filterMap, Option.map_eq_some_iff]
    constructor
    · rintro ⟨column, hc, v, hv, rfl⟩
      obtain ⟨t, ht⟩ := Query.exists_columnType hs hin hc
      exact ⟨by rw [ht]; rfl, hv⟩
    · rintro ⟨ht, hv⟩
      exact ⟨a.column, Query.mem_columnNames ht, a.value, hv, by rw [ht]; rfl⟩
  constructor
  · intro hall column t v ht hv
    exact (hbound ⟨column, t, v⟩).1 (hall _ ((hmem ⟨column, t, v⟩).2 ⟨ht, hv⟩))
  · intro hall a ha
    obtain ⟨ht, hv⟩ := (hmem a).1 ha
    exact (hbound a).2 (hall _ _ _ ht hv)

end Inserting

end Handle

/-- The values of a type that the database counts can be parameters, whatever they are. -/
theorem Sql.Binding.exists_bind_counted {t : LogicalType} (ht : t ≠ .uuid)
    (hcounted : t.canGenerate = true) (d : Dialect) (v : Value) : ∃ b, bind? d t v = some b := by
  cases t with
  | int => cases d <;> cases v <;> exact ⟨_, rfl⟩
  | bigint => cases d <;> cases v <;> exact ⟨_, rfl⟩
  | uuid => exact absurd rfl ht
  | _ => cases hcounted

theorem Handle.exists_bind_insertedKey {h : Handle} {s : Schema} {key : Field} {fresh : Uuid}
    {d : Dialect} (hsound : h.entity.Sound) (hk : h.entity.key? = some key)
    (hkey : h.key ≠ .null ∨ key.auto = true) (hready : h.Insertable d s key fresh) (reply : Reply) :
    ∃ b, Sql.Binding.bind? d key.type (h.insertedKey d key fresh reply) = some b := by
  rw [insertedKey]
  cases hgiven : h.given? key fresh key.name with
  | some v => exact hready.bound key.name key.type v (hsound.columnType_key hk) hgiven
  | none =>
    rw [given?, if_neg hready.kept] at hgiven
    split at hgiven
    case isTrue hnull =>
      split at hgiven
      case isTrue => cases hgiven
      case isFalse htype =>
        have hauto := hkey.resolve_left fun hne => hne (Value.isNull_iff.1 hnull.2)
        exact Sql.Binding.exists_bind_counted htype
          ((hsound.fields key (Entity.key_mem hk).1).auto hauto).2 d _
    case isFalse hnull =>
      rw [value?_key hk fun heq => hnull ⟨rfl, Value.isNull_iff.2 heq⟩] at hgiven
      cases hgiven

theorem Query.exists_bound_lookup {d : Dialect} (s : Schema) (e : Entity) (column : String)
    {t : LogicalType} {v : Value} (hb : ∃ b, Sql.Binding.bind? d t v = some b) :
    ∃ qs, ((Request.select (lookup s e column t v)).prepare d).bind d = .ok qs := by
  rw [Sql.Prepared.bind, Outcome.exists_mapM_iff, lookup, sought,
    Sql.parameters_select rfl rfl rfl, Sql.Condition.render, Sql.parameters_equal]
  split
  · exact List.forall_mem_nil _
  · obtain ⟨b, hb⟩ := hb
    refine List.forall_mem_singleton.2 ⟨_, (Outcome.bind_eq_ok _ _ _).2 ⟨b, ?_, rfl⟩⟩
    rw [Sql.Binding.bind, hb]

theorem Server.after_append {σ : Type} (server : Server σ) (st : σ) (es es' : List Event) :
    server.after st (es ++ es') = server.after (server.after st es) es' :=
  List.foldl_append

namespace Session

open World (SameHandles)

variable {σ : Type} {s : Setting σ} {schema : Schema} {u v w w' : World σ} {c n : Nat}
  {h h' : Handle} {key : Field} {fresh : Uuid} {tables : Sql.Tables} {joined : Option Nat}
  {said more : List Event} {ok : Bool} {r : Except Error Unit × World σ}

/-! ## What follows an insertion -/

section Following

variable (server : Server σ) (d : Dialect) (schema : Schema) (h : Handle) (key : Field)
  (fresh : Uuid)

/-- What follows the answer to the insertion of a new record: what else is said, whether the record
counts as saved, and its handle. A key that is a path is not looked up by its name. -/
inductive AfterInsertion :
    Except DriverError Reply × σ → List Event → Bool → Handle → Prop where
  | refused (e : DriverError) (st : σ) : AfterInsertion (.error e, st) [] false h
  | complete (reply : Reply) (st : σ) (h' : Handle) (hnone : ∀ column, ¬h.Leaves column)
      (hsaved : h.SavedAs h' fun column =>
        if column = key.name then some (h.insertedKey d key fresh reply) else h.value? column) :
      AfterInsertion (.ok reply, st) [] true h'
  | found (reply : Reply) (st : σ) (h' : Handle) (hleft : ∃ column, h.Leaves column)
      (hdot : '.' ∉ key.name.toList) (q : Query.Compiled) (ps : List (String × Sql.Bound))
      (stored : Entries)
      (hq : q = keyQuery schema h.entity key (h.insertedKey d key fresh reply))
      (hps : ((Request.select q.select).prepare d).bind d = .ok ps)
      (hfound : q.first? d (server.answer (.select q.select) ps st).1 = some stored)
      (hsaved : h.SavedAs h' fun column => Entries.get? column stored) :
      AfterInsertion (.ok reply, st) [(Request.select q.select).told d ps] true h'
  | lost (reply : Reply) (st : σ) (hleft : ∃ column, h.Leaves column)
      (hdot : '.' ∉ key.name.toList) (q : Query.Compiled) (ps : List (String × Sql.Bound))
      (hq : q = keyQuery schema h.entity key (h.insertedKey d key fresh reply))
      (hps : ((Request.select q.select).prepare d).bind d = .ok ps)
      (hlost : q.first? d (server.answer (.select q.select) ps st).1 = none) :
      AfterInsertion (.ok reply, st) [(Request.select q.select).told d ps] false h
  | strayed (reply : Reply) (st : σ) (h' : Handle) (hleft : ∃ column, h.Leaves column)
      (hdot : '.' ∈ key.name.toList) (more : List Event) (ok : Bool)
      (hmore : ∀ e ∈ more, e.changesRows = false)
      (hlast : ok = false ∧ h' = h ∨ ok = true ∧ ∃ stored, h' = h.persisted stored) :
      AfterInsertion (.ok reply, st) more ok h'

/-- What is said when a new record is saved, whether that succeeds, and the handle afterwards, by what
the database replies. -/
inductive FirstSave (st : σ) : List Event → Bool → Handle → Prop where
  | unsent (hnot : ¬h.Insertable d schema key fresh) : FirstSave st [] false h
  | sent (hready : h.Insertable d schema key fresh) (r : Request)
      (ps : List (String × Sql.Bound)) (more : List Event) (ok : Bool) (h' : Handle)
      (hr : r = .insert (h.inserting schema key fresh)) (hps : (r.prepare d).bind d = .ok ps)
      (hrest : AfterInsertion server d schema h key fresh (server.answer r ps st) more ok h') :
      FirstSave st (r.told d ps :: more) ok h'

end Following

/-! ## Worlds between which something is said -/

/-- No handle changes, and what happens on the connections has a property. -/
def Frame.hearing (s : Setting σ) (P : Event → Prop) : Frame σ where
  rel w w' := SameHandles w w' ∧ ∃ es,
    w'.log = w.log ++ es ∧ w'.server = s.server.after w.server es ∧ ∀ e ∈ es, P e
  refl w := ⟨⟨rfl, rfl⟩, [], (List.append_nil _).symm, rfl, List.forall_mem_nil _⟩
  trans := fun ⟨hs, es, hl, hv, hn⟩ ⟨hs', es', hl', hv', hn'⟩ =>
    ⟨⟨hs'.records.trans hs.records, hs'.identifiers.trans hs.identifiers⟩, es ++ es',
      by rw [hl', hl, List.append_assoc], by rw [hv', hv, Server.after_append],
      List.forall_mem_append.2 ⟨hn, hn'⟩⟩

theorem Frame.hearing_surrounds {P : Event → Prop} (hP : ∀ e, e.routine = true → P e)
    (s : Setting σ) : (Frame.hearing s P).Surrounds s :=
  Frame.surrounds_of_events
    (fun _ _ hlog hserver hsame =>
      ⟨hsame, [], hlog.trans (List.append_nil _).symm, hserver, List.forall_mem_nil _⟩)
    fun e _ _ he hlog hserver hsame =>
      ⟨hsame, [e], hlog, hserver, List.forall_mem_singleton.2 (hP e he)⟩

theorem Frame.hearing_send {P : Event → Prop} (c : Nat) {r : Request}
    (hP : ∀ ps, P (r.told s.config.dialect ps)) : (Frame.hearing s P).Keeps s (send c r) :=
  Frame.keeps_send fun ps _ => ⟨sameHandles_answered r ps, [r.told s.config.dialect ps],
    log_answered r ps, server_answered r ps, List.forall_mem_singleton.2 (hP ps)⟩

/-- What was said in a run, and what became of the handle of a number. -/
structure Told (s : Setting σ) (n : Nat) (w : World σ) (said : List Event) (ok : Bool)
    (h' : Handle) (r : Except Error Unit × World σ) : Prop where
  outcome : r.1.isOk = ok
  log : r.2.log = w.log ++ said
  server : r.2.server = s.server.after w.server said
  records : r.2.records = w.records.set n h'

theorem set_of_getElem? {records : List Handle} (hn : records[n]? = some h) :
    records.set n h = records := by
  obtain ⟨hlt, rfl⟩ := List.getElem?_eq_some_iff.1 hn
  exact List.set_getElem_self hlt

theorem Told.of_error (hn : w.records[n]? = some h) (e : Error) :
    Told s n w [] false h (.error e, w) :=
  ⟨rfl, (List.append_nil _).symm, rfl, (set_of_getElem? hn).symm⟩

theorem Told.of_update (hn : w.records[n]? = some h) (f : Handle → Handle) :
    Told s n w [] true (f h) (run (update n f) s w) :=
  ⟨rfl, (List.append_nil _).symm, rfl, modify_eq_set hn f⟩

theorem Told.append {es : List Event} (hlog : v.log = w.log ++ es)
    (hserver : v.server = s.server.after w.server es) (hrecords : v.records = w.records)
    (ht : Told s n v more ok h' r) : Told s n w (es ++ more) ok h' r where
  outcome := ht.outcome
  log := by rw [ht.log, hlog, List.append_assoc]
  server := by rw [ht.server, hserver, Server.after_append]
  records := by rw [ht.records, hrecords]

theorem Told.cons {q : Request} {ps : List (String × Sql.Bound)}
    (ht : Told s n (answered s c q ps w) more ok h' r) :
    Told s n w (q.told s.config.dialect ps :: more) ok h' r :=
  ht.append (log_answered q ps) (server_answered q ps) (records_answered q ps)

/-! ## The body of a save -/

theorem get?_settled {d : Dialect} {i : Insertion} (reply : Reply)
    (hk : h.entity.key? = some key)
    (hget : ∀ column, Entries.get? column i.values = h.given? key fresh column) (column : String) :
    Entries.get? column (settled d h i reply) =
      if column = key.name then some (h.insertedKey d key fresh reply)
      else h.given? key fresh column := by
  rw [settled, Handle.keyName_eq hk, hget, Handle.insertedKey]
  cases hgiven : h.given? key fresh key.name with
  | none =>
    rw [if_pos Option.isNone_none, Entries.get?_put, hget]
    exact if_congr eq_comm rfl rfl
  | some v =>
    rw [if_neg (by simp), hget]
    split
    case isTrue hc => rw [hc, hgiven, Option.getD_some]
    case isFalse => rfl

theorem savedAs_persisted (hf : h.Fits) {stored : Entries} (hd : (stored.map (·.1)).Nodup)
    (hc : ∀ column ∈ stored.map (·.1), column ∈ h.columns) {value : String → Option Value}
    (hv : ∀ column ∈ h.entity.columnNames,
      (Entries.get? column stored).or (h.value? column) = value column) :
    h.SavedAs (h.persisted stored) value :=
  ⟨rfl, rfl, rfl, rfl, (Handle.fits_persisted hf hc).columns, fun column hcolumn =>
    (Handle.value?_persisted hd).trans (hv column hcolumn)⟩

/-- The columns of what a query reads are its labels. -/
theorem names_of_read {q : Query.Compiled} {d : Dialect} {cells : List Value} {stored : Entries}
    (hq : q.labels.Nodup) (hr : q.read d cells = .ok stored) : stored.map (·.1) = q.labels := by
  obtain ⟨values, -, hr⟩ := (Outcome.bind_eq_ok _ _ _).1 hr
  rw [Query.Compiled.decode] at hr
  split at hr
  case isTrue hlength =>
    cases hr
    have hnames : (q.labels.zip values).map (·.1) = q.labels := List.map_fst_zip hlength.ge
    rw [Entries.ofPairs_of_nodup (by rw [hnames]; exact hq), hnames]
  case isFalse => cases hr

theorem Frame.hearing_reload {P : Event → Prop} (hP : ∀ e, e.changesRows = false → P e)
    (schema : Schema) (entity : String) (x : Value) (c : Nat) :
    (Frame.hearing s P).Keeps s (reload schema entity x c) :=
  Frame.keeps_reload (fun _ => Frame.hearing_send c fun _ => hP _ rfl) schema entity x

section Saving

variable (hs : schema.Sound) (hh : h.Regular schema) (hk : h.entity.key? = some key)
  (htables : Sql.Tables.ofSchema s.config.dialect schema = .ok tables)
  (hkey : h.key ≠ .null ∨ key.auto = true) (hnew : h.state = .new)

include hs hh hk htables

/-- The run of a lookup, by the first row that is replied. -/
theorem run_reload_first (hdot : '.' ∉ key.name.toList) {x : Value}
    {ps : List (String × Sql.Bound)}
    (hps : ((Request.select (keyQuery schema h.entity key x).select).prepare
      s.config.dialect).bind s.config.dialect = .ok ps) :
    match (keyQuery schema h.entity key x).first? s.config.dialect
      (s.server.answer (.select (keyQuery schema h.entity key x).select) ps w.server).1 with
    | some stored => ∃ g : Handle, (∀ column ∈ h.entity.columnNames,
        g.value? column = Entries.get? column stored) ∧ g.Begins h.entity .persisted ∧
      run (reload schema h.entity.name x c) s w = (.ok g.values,
        answered s c (.select (keyQuery schema h.entity key x).select) ps w)
    | none => ∃ e, run (reload schema h.entity.name x c) s w = (.error e,
        answered s c (.select (keyQuery schema h.entity key x).select) ps w) := by
  have hsound := hs.entities _ hh.known
  have hlabels : (keyQuery schema h.entity key x).labels.Nodup := hsound.columnNames
  rw [reload, run_bind, run_load_of_sound hs hh.known hk hdot htables, run_bind, firstRow,
    run_bind_of_ok run_dialect, run_bind, run_execute c _ hps]
  generalize (s.server.answer (.select (keyQuery schema h.entity key x).select) ps w.server).1 = answer
  generalize hq : keyQuery schema h.entity key x = q at hlabels
  cases answer with
  | error e => exact ⟨_, rfl⟩
  | ok reply =>
    rw [Query.Compiled.first?]
    dsimp only [Except.mapError]
    rw [run_ofResult]
    cases reply.rows.head? with
    | none => exact ⟨_, rfl⟩
    | some cells =>
      rw [Option.map_some, Option.mapM_some]
      cases hread : q.read s.config.dialect cells with
      | error e => exact ⟨_, rfl⟩
      | ok stored =>
        have hnames : stored.map (·.1) = h.entity.columnNames := by
          rw [names_of_read hlabels hread, ← hq]
          rfl
        obtain ⟨g, hmake, hvalues⟩ := Handle.exists_make (e := h.entity) .persisted
          (hnames ▸ hsound.columnNames) fun _ hc => hnames ▸ hc
        refine ⟨g, fun column hc => ?_, Handle.begins_make hmake, ?_⟩
        · obtain ⟨v, hv⟩ := Option.isSome_iff_exists.1 (Entries.isSome_get?.2 (hnames ▸ hc))
          rw [hv, hvalues column v hv]
        · dsimp only [Except.map, Functor.map]
          rw [run_ofResult, Option.mapM_some, hmake]
          rfl

include hkey

theorem told_reread (hn : w.records[n]? = some h)
    (hready : h.Insertable s.config.dialect schema key fresh) (hleft : ∃ column, h.Leaves column)
    (reply : Reply) :
    ∃ more ok h', AfterInsertion s.server s.config.dialect schema h key fresh (.ok reply, w.server)
        more ok h' ∧
      Told s n w more ok h' (run (do
        let stored ← reload schema h.entity.name
          (h.insertedKey s.config.dialect key fresh reply) c
        update n (·.persisted stored)) s w) := by
  have hsound := hs.entities _ hh.known
  by_cases hdot : '.' ∈ key.name.toList
  · have hkeep := Frame.hearing_reload (s := s) (fun _ => id) schema h.entity.name
      (h.insertedKey s.config.dialect key fresh reply) c w
    rw [run_bind]
    rcases hrun : run (reload schema h.entity.name
        (h.insertedKey s.config.dialect key fresh reply) c) s w with ⟨e | stored, v⟩ <;>
      rw [hrun] at hkeep <;> obtain ⟨⟨hrecords, -⟩, es, hlog, hserver, hes⟩ := hkeep
    · exact ⟨es, false, h, .strayed reply _ h hleft hdot es false hes (Or.inl ⟨rfl, rfl⟩),
        rfl, hlog, hserver, hrecords.trans (set_of_getElem? hn).symm⟩
    · refine ⟨es, true, h.persisted stored, .strayed reply _ _ hleft hdot es true hes
        (Or.inr ⟨rfl, stored, rfl⟩), ?_⟩
      have hlast := (Told.of_update (s := s) (hrecords ▸ hn : v.records[n]? = some h)
        (·.persisted stored)).append hlog hserver hrecords
      rw [List.append_nil] at hlast
      exact hlast
  · obtain ⟨ps, hps⟩ := Query.exists_bound_lookup schema h.entity key.name
      (Handle.exists_bind_insertedKey hsound hk hkey hready reply)
    have hrun := run_reload_first (w := w) (c := c) hs hh hk htables hdot hps
    have hn' := (records_answered (s := s) (c := c) (w := w) (.select (keyQuery schema h.entity key
      (h.insertedKey s.config.dialect key fresh reply)).select) ps).symm ▸ hn
    rw [run_bind]
    split at hrun
    case h_1 stored hfirst =>
      obtain ⟨g, hvalues, ⟨hentity, -, hfits, -⟩, hrun⟩ := hrun
      have hcolumns : g.values.map (·.1) = h.entity.columnNames := hentity ▸ hfits.columns
      rw [hrun]
      refine ⟨_, true, _, .found reply _ (h.persisted g.values) hleft hdot _ ps stored rfl hps hfirst
        (savedAs_persisted hh.fits (hcolumns ▸ hsound.columnNames)
          (fun column hc => hh.fits.columns ▸ hcolumns ▸ hc) fun column hc => ?_),
        .cons (.of_update hn' (·.persisted g.values))⟩
      obtain ⟨v, hv⟩ := hfits.exists_value (hentity ▸ hc : column ∈ g.entity.columnNames)
      rw [← hvalues column hc, ← Handle.value?, hv, Option.some_or]
    case h_2 hfirst =>
      obtain ⟨e, hrun⟩ := hrun
      rw [hrun]
      exact ⟨_, false, h, .lost reply _ hleft hdot _ ps rfl hps hfirst, .cons (.of_error hn' e)⟩

include hnew

/-- An insertion that was accepted is followed by a lookup if something was left to a default. -/
theorem told_accepted (hn : w.records[n]? = some h)
    (hready : h.Insertable s.config.dialect schema key fresh) {i : Insertion}
    (hi : h.insertion fresh = .ok i) (reply : Reply) :
    ∃ more ok h', AfterInsertion s.server s.config.dialect schema h key fresh (.ok reply, w.server)
        more ok h' ∧
      Told s n w more ok h' (run (
        if i.defaulted.isEmpty then update n (·.persisted (settled s.config.dialect h i reply))
        else do
          let stored ← reload schema h.entity.name ((Entries.get? h.keyName
            (settled s.config.dialect h i reply)).getD .null) c
          update n (·.persisted stored)) s w) := by
  have hsound := hs.entities _ hh.known
  have hu := hh.untouched hnew
  have hleft := Handle.defaulted_eq_nil_iff hsound hu hk hh.fits hi
  have hsettled := get?_settled (d := s.config.dialect) reply hk
    (Handle.get?_insertion hsound hu hk hh.fits hi)
  split
  case isTrue hempty =>
    have hnone := hleft.1 (List.isEmpty_iff.1 hempty)
    obtain ⟨-, -, -, hsublist⟩ := Handle.insertion_eq_ok hsound hu hk hh.fits hi
    rw [hh.fits.columns] at hsublist
    refine ⟨[], true, _, .complete reply _ _ hnone (savedAs_persisted hh.fits
      (nodup_settled (hsublist.nodup hsound.columnNames))
      (fun _ hc => mem_columns_of_settled hh.fits hi hc) fun column _ => ?_),
        .of_update hn (·.persisted (settled s.config.dialect h i reply))⟩
    rw [hsettled]
    split
    case isTrue => rfl
    case isFalse hc =>
      rw [Handle.given?, if_neg (hnone column), if_neg fun hkey => hc hkey.1, Option.or_self]
  case isFalse hsome =>
    rw [Handle.keyName_eq hk, hsettled, if_pos rfl, Option.getD_some]
    exact told_reread hs hh hk htables hkey hn hready
      (not_forall_not.1 (mt hleft.2 fun hnil => hsome (by rw [hnil]; rfl))) reply

theorem told_insertAs (hn : w.records[n]? = some h) (fresh : Uuid) :
    ∃ said ok h', FirstSave s.server s.config.dialect schema h key fresh w.server said ok h' ∧
      Told s n w said ok h' (run (insertAs ⟨schema, tables⟩ n h fresh c) s w) := by
  have hsound := hs.entities _ hh.known
  have hu := hh.untouched hnew
  obtain ⟨t, htable, ht⟩ := Sql.Tables.exists_ofEntity hs htables hh.known
  rw [insertAs, run_bind_of_ok run_dialect, run_bind, run_ofResult]
  cases hi : h.insertion fresh with
  | error e =>
    have hnone : ¬∃ i, h.insertion fresh = .ok i := by
      rintro ⟨i, hsome⟩
      cases hi.symm.trans hsome
    have hleaves := mt (Handle.exists_insertion_iff hsound hu hk hh.fits hkey).2 hnone
    exact ⟨[], false, h, .unsent fun hready => hleaves hready.kept, .of_error hn e⟩
  | ok i =>
    obtain ⟨-, -, -, hsublist⟩ := Handle.insertion_eq_ok hsound hu hk hh.fits hi
    rw [hh.fits.columns] at hsublist
    dsimp only
    rw [htable, run_bind_of_ok (run_ofResult _), Sql.assign_eq_ok ht fun _ hc => hsublist.subset hc,
      run_bind_of_ok (run_ofResult _),
      Handle.insertRequest_eq hs hh.known hu hh.fits hk ht hi]
    generalize hr : Request.insert (h.inserting schema key fresh) = r
    cases hps : (r.prepare s.config.dialect).bind s.config.dialect with
    | error e =>
      obtain ⟨e', hrun⟩ := run_execute_of_error (w := w) c r hps
      rw [run_bind, hrun]
      refine ⟨[], false, h, .unsent fun hready => ?_, .of_error hn e'⟩
      obtain ⟨ps, hbound⟩ := (Handle.exists_bound_inserting_iff hs hh.known).2 hready.bound
      rw [hr, hps] at hbound
      cases hbound
    | ok ps =>
      have hready : h.Insertable s.config.dialect schema key fresh :=
        ⟨Handle.leaves_key_of_insertion hsound hu hk hi,
          (Handle.exists_bound_inserting_iff hs hh.known).1 ⟨ps, hr ▸ hps⟩⟩
      have hn' : (answered s c r ps w).records[n]? = some h := (records_answered r ps).symm ▸ hn
      have hserver := server_answered (s := s) (c := c) (w := w) r ps
      rw [run_bind, run_execute c r hps]
      rcases hanswer : s.server.answer r ps w.server with ⟨e | reply, st⟩ <;>
        rw [hanswer] at hserver <;> dsimp only [Except.mapError] at hserver ⊢
      · exact ⟨_, false, h, .sent hready r ps [] false h hr.symm hps (hanswer ▸ .refused e st),
          .cons (.of_error hn' _)⟩
      · obtain ⟨more, ok, h', hafter, htold⟩ :=
          told_accepted (c := c) hs hh hk htables hkey hnew hn' hready hi reply
        rw [hserver] at hafter
        exact ⟨_, ok, h', .sent hready r ps more ok h' hr.symm hps (hanswer ▸ hafter),
          .cons htold⟩

theorem told_save (hn : w.records[n]? = some h) :
    ∃ said ok h', FirstSave s.server s.config.dialect schema h key (w.identifiers.head?.getD .zero)
        w.server said ok h' ∧
      Told s n w said ok h' (run (save ⟨schema, tables⟩ n c) s w) := by
  obtain ⟨ids, hrun⟩ := run_insert_next s ⟨schema, tables⟩ c hn
  rw [run_save _ hn, hnew]
  dsimp only
  rw [hrun]
  obtain ⟨said, ok, h', hsave, htold⟩ := told_insertAs (c := c) (w := { w with identifiers := ids })
    hs hh hk htables hkey hnew hn (w.identifiers.head?.getD .zero)
  exact ⟨said, ok, h', hsave, htold.outcome, htold.log, htold.server, htold.records⟩

end Saving

/-! ## Calls that save -/

/-- A call does not come to its record: its schema has no tables, or no transaction can be begun. -/
def Unready (s : Setting σ) (schema : Schema) (joined : Option Nat) (w : World σ) : Prop :=
  ¬schema.HasTables ∨ joined = none ∧ Unbegun s w

/-- A database that keeps rows is ready when it is at rest. -/
theorem not_unready (hs : schema.Sound) (k : Database s.server s.config.dialect schema)
    (hw : k.Ready joined w) : ¬Unready s schema joined w := by
  rintro (hnone | ⟨rfl, hunbegun⟩)
  · exact hnone ((Sql.exists_ofSchema_iff s.config.dialect hs).1 ⟨k.tables, k.built⟩)
  · obtain ⟨c, u, hlent, hlend, hquiet, -⟩ := lend_atRest hw
    obtain ⟨v, hbegin, -⟩ := exists_begun k hlend.present hquiet
    have hrefused := hunbegun c u hlent
    rw [hbegin] at hrefused
    cases hrefused

variable (joined) in
/-- Saving a new record sends exactly one insertion of what it is inserted with, unless its key is left
out twice or a value cannot be a parameter; then nothing is sent. The record is saved if the database
accepts that and, if something was left to a default, the row is found again. -/
theorem inserts_of_save (hs : schema.Valid) (hn : w.records[n]? = some h) (hh : h.Regular schema)
    (hnew : h.state = .new) (hk : h.entity.key? = some key)
    (hkey : h.key ≠ .null ∨ key.auto = true) :
    let r := run (Call.perform ⟨schema, joined, .save n⟩) s w
    (Unready s schema joined w ∧ r.1.isOk = false ∧
      (Frame.hearing s (·.routine = true)).rel w r.2) ∨
    ∃ before said after ok h', (∀ e ∈ before ++ after, e.routine = true) ∧
      FirstSave s.server s.config.dialect schema h key (w.identifiers.head?.getD .zero)
        (s.server.after w.server before) said ok h' ∧
      r.2.log = w.log ++ (before ++ said ++ after) ∧ r.2.records = w.records.set n h' ∧
      (r.1.isOk = true → ok = true) ∧
      (joined.isSome = true → before = [] ∧ after = [] ∧ r.1.isOk = ok) := by
  rw [Schema.valid_iff_sound] at hs
  let call : Call := ⟨schema, joined, .save n⟩
  have hperform : (run call.perform s w).1.isOk =
        (run (call.stored fun st c => save st n c) s w).1.isOk ∧
      (run call.perform s w).2 = (run (call.stored fun st c => save st n c) s w).2 := by
    rw [Call.perform, run_bind]
    rcases run (call.stored fun st c => save st n c) s w with ⟨e | ⟨⟩, v⟩ <;> exact ⟨rfl, rfl⟩
  change (_ ∧ (run call.perform s w).1.isOk = false ∧ _) ∨ _
  rw [hperform.1, hperform.2]
  by_cases htab : schema.HasTables
  case neg =>
    cases hst : Sql.Tables.ofSchema s.config.dialect schema with
    | ok tables => exact absurd ((Sql.exists_ofSchema_iff s.config.dialect hs).1 ⟨tables, hst⟩) htab
    | error e =>
      have hunbuilt : Sql.Tables.ofSchema s.config.dialect call.schema = .error e := hst
      rw [run_stored_of_error hunbuilt]
      exact Or.inl ⟨Or.inl htab, rfl, Frame.refl _ w⟩
  obtain ⟨tables, htables⟩ := (Sql.exists_ofSchema_iff s.config.dialect hs).2 htab
  have hbuilt : Sql.Tables.ofSchema s.config.dialect call.schema = .ok tables := htables
  rw [run_stored_of_ok hbuilt]
  cases joined with
  | some c =>
    obtain ⟨said, ok, h', hsave, htold⟩ := told_save (c := c) hs hh hk htables hkey hnew hn
    refine Or.inr ⟨[], said, [], ok, h', List.forall_mem_nil _, hsave, ?_, htold.records,
      fun hok => htold.outcome ▸ hok, fun _ => ⟨rfl, rfl, htold.outcome⟩⟩
    rw [List.nil_append, List.append_nil]
    exact htold.log
  | none =>
    rcases transaction_begun (Frame.hearing_surrounds (fun _ => id) s)
        (fun c => save ⟨schema, tables⟩ n c) w with ⟨hunbegun, hfails, hrel⟩ |
      ⟨c, u, ⟨hbefore, before, hlog, hserver, hroutine⟩, ⟨hafter, after, hlog', -, hroutine'⟩, hok⟩
    · exact Or.inl ⟨Or.inr ⟨rfl, hunbegun⟩, hfails, hrel⟩
    · obtain ⟨said, ok, h', hsave, htold⟩ := told_save (c := c) (w := u) hs hh hk htables hkey hnew
        (hbefore.records ▸ hn)
      rw [hbefore.identifiers, hserver] at hsave
      refine Or.inr ⟨before, said, after, ok, h', List.forall_mem_append.2 ⟨hroutine, hroutine'⟩,
        hsave, ?_, ?_, fun hdone => ?_, fun hsome => by cases hsome⟩
      · exact hlog'.trans (by rw [htold.log, hlog, List.append_assoc, List.append_assoc,
          List.append_assoc])
      · exact hafter.records.trans (by rw [htold.records, hbefore.records])
      · obtain ⟨a, ha⟩ := Outcome.exists_ok hdone
        rw [← htold.outcome, hok a ha]
        rfl

/-- The statements that were sent for rows. -/
def rowStatements (log : List Event) : List String :=
  log.filterMap fun
    | .sent r text _ => if r.concernsRows then some text else none
    | _ => none

/-- A key that the database counts is left out once more for its default, and nothing is sent. -/
example :
    let counter : Entity := { name := "Counter", fields := [
      { name := "id", type := .bigint, primaryKey := true, auto := true, default := .int 1 }] }
    let r := run (Call.perform ⟨{ entities := [counter] }, some 0, .save 0⟩) fleeting
      { server := (), records := [.blank counter .new] }
    r.1.isOk = false ∧ rowStatements r.2.log = [] := by decide +kernel

/-- A new note without a key and without likes. -/
def draftNote : Handle where
  entity := notes.entities.head (by decide)
  values := [("id", .null), ("likes", .null), ("text", .text "draft")]
  dirty := ["text"]

def draftWorld : World (Memory notes) := { notesWorld with records := [draftNote] }

theorem inserts_of_save_draftNote :
    let r := run (Call.perform ⟨notes, none, .save 0⟩) notesSetting draftWorld
    (∃ before said after ok h', (∀ e ∈ before ++ after, e.routine = true) ∧
      FirstSave notesSetting.server .sqlite notes draftNote
        { name := "id", type := .bigint, primaryKey := true, auto := true } .zero
        (notesSetting.server.after draftWorld.server before) said ok h' ∧
      r.2.log = draftWorld.log ++ (before ++ said ++ after) ∧
      r.2.records = draftWorld.records.set 0 h' ∧ (r.1.isOk = true → ok = true) ∧
      ((none : Option Nat).isSome = true → before = [] ∧ after = [] ∧ r.1.isOk = ok)) ∧
    r.1.isOk = true ∧ r.2.records.map (fun h => (h.state, h.dirty, h.display)) =
      [(.persisted, [], "<Note persisted pk=1>")] ∧
    rowStatements r.2.log = ["INSERT INTO \"Note\" (text) VALUES (?)",
      "SELECT \"Note\".id, \"Note\".likes, \"Note\".text \nFROM \"Note\" \n" ++
        "WHERE \"Note\".id = ?"] := by
  have hregular : draftNote.Regular notes := by
    refine ⟨List.head_mem (by decide), ⟨rfl, by decide⟩, fun _ column hc => ?_⟩
    rw [draftNote, List.mem_singleton] at hc
    rw [Handle.value?, draftNote, Entries.get?_cons, Entries.get?_cons, Entries.get?_cons,
      if_neg (Ne.symm hc)]
    split
    · rfl
    · split <;> rfl
  have hready : ¬Unready notesSetting notes none draftWorld :=
    not_unready ((Schema.valid_iff_sound _).1 valid_notes) notesDatabase ⟨List.forall_mem_nil _, Or.inr (by decide +kernel), rfl⟩
  have hsaved := inserts_of_save (s := notesSetting) (w := draftWorld) (n := 0) none valid_notes rfl
    hregular rfl rfl (Or.inr rfl)
  refine ⟨hsaved.resolve_left fun hunready => hready hunready.1, ?_, ?_, ?_⟩
  all_goals decide +kernel

end Session

end SchemaLedger
