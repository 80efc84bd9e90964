import SchemaLedger.Proofs.Session.Inserting

set_option autoImplicit false

/-!
# Records written to their rows

What saving a record again, or deleting it, does to the rows of a database. Both are writes for a key:
they reach the one row that has it, or none, and then the record is not found.
-/
namespace SchemaLedger

open Sql (Assignment Exchanged)

/-- A column other than the key has the name that a write gives to the parameter for the key. -/
def Entity.Clashes (e : Entity) : Prop :=
  ∃ key, e.key? = some key ∧ key.type ≠ .bool ∧
    ∃ column ∈ e.columnNames, column ≠ key.name ∧ column = Sql.Fragment.stemOf key.name ++ "_1"

/-- The key of the handle is to be a parameter, but a column has its name. -/
def Handle.Clashes (h : Handle) : Prop := h.key ≠ .null ∧ h.entity.Clashes

namespace Database

variable {σ : Type} {server : Server σ} {d : Dialect} {s : Schema} (k : Database server d s)

/-- A saved record is written again: the row with its key has its values in all other columns. -/
def Overwrites (h : Handle) (before after : Sql.Contents k.cells) : Prop :=
  ∃ old new, Exchanged h.entity.name [old] [new] before after ∧ k.HasKey h.entity h.key old ∧
    new h.keyName = old h.keyName ∧
    ∀ column t, Query.columnType? s h.entity column = some t → column ≠ h.keyName →
      ∃ v, h.value? column = some v ∧ k.Holds t v (new column)

/-- A record is deleted: the row with its key is gone. -/
def Removes (h : Handle) (before after : Sql.Contents k.cells) : Prop :=
  ∃ old, Exchanged h.entity.name [old] [] before after ∧ k.HasKey h.entity h.key old

/-- What comes of writing a saved record: as for any record, and it is not found if and only if no row
has its key. -/
structure Rewrites {α : Type} (n : Nat) (h : Handle) (f : Handle → Handle)
    (P : Sql.Contents k.cells → Sql.Contents k.cells → Prop) (before : Sql.Contents k.cells)
    (records : List Handle) (r : Except Error α) (after : Sql.Contents k.cells)
    (records' : List Handle) : Prop extends
    k.Writes n (fun h' after => h' = f h ∧ P before after) before records r after records' where
  gone : r = .error (.record (.notFound h.key h.entity.name)) ↔
    ∀ row ∈ before h.entity.name, ¬k.HasKey h.entity h.key row

end Database

namespace Session

variable {σ : Type} {s : Setting σ} {schema : Schema} {w v : World σ} {c n : Nat}
  {k : Database s.server s.config.dialect schema} {key : Field} {e : Error} {h h' : Handle}

/-- What comes of a write for a key: it is refused, or finds no row, or has its effect on the row. -/
inductive Reached (k : Database s.server s.config.dialect schema) (h : Handle)
    (P : Sql.Contents k.cells → Sql.Contents k.cells → Prop) (w : World σ) {α : Type}
    (count : α → Int) : Except Error α × World σ → Prop
  | refused (fault : BackendFault) (v : World σ) (hrows : k.rows v.server = k.rows w.server)
    (hrecords : v.records = w.records)
    (hrow : ∃ row ∈ k.rows w.server h.entity.name, k.HasKey h.entity h.key row) :
    Reached k h P w count (.error (.backend fault), v)
  | none (a : α) (v : World σ) (hcount : count a = 0) (hlive : k.live v.server)
    (hrows : k.rows v.server = k.rows w.server) (hrecords : v.records = w.records)
    (hrow : ∀ row ∈ k.rows w.server h.entity.name, ¬k.HasKey h.entity h.key row) :
    Reached k h P w count (.ok a, v)
  | one (a : α) (v : World σ) (hcount : count a = 1) (hlive : k.live v.server)
    (hrecords : v.records = w.records)
    (hrow : ∃ row ∈ k.rows w.server h.entity.name, k.HasKey h.entity h.key row)
    (hrows : P (k.rows w.server) (k.rows v.server)) : Reached k h P w count (.ok a, v)

theorem Reached.bind {α β : Type} {P : Sql.Contents k.cells → Sql.Contents k.cells → Prop}
    {x : Session σ α} {f : α → Session σ β} {count : α → Int} {count' : β → Int}
    (hx : Reached k h P w count (run x s w))
    (hf : ∀ a v, run x s w = (.ok a, v) → ∃ b, run (f a) s v = (.ok b, v) ∧ count' b = count a) :
    Reached k h P w count' (run (x >>= f) s w) := by
  rcases hrun : run x s w with ⟨e | a, v⟩ <;> rw [hrun] at hx
  · rw [run_bind, hrun]
    cases hx with
    | refused fault _ hrows hrecords hrow => exact .refused fault v hrows hrecords hrow
  · obtain ⟨b, hb, hcount'⟩ := hf a v hrun
    rw [run_bind_of_ok hrun, hb]
    cases hx with
    | none _ _ hcount hlive hrows hrecords hrow =>
      exact .none b v (hcount'.trans hcount) hlive hrows hrecords hrow
    | one _ _ hcount hlive hrecords hrow hrows =>
      exact .one b v (hcount'.trans hcount) hlive hrecords hrow hrows

section Keyed

variable {t : Sql.Table} {r : Request} {ps : List (String × Sql.Bound)}
  {P : Sql.Contents k.cells → Sql.Contents k.cells → Prop} {count : Reply → Int}
  (hs : schema.Sound) (hh : h.Storable s.config.dialect schema) (hk : h.entity.key? = some key)
  (ht : Sql.Table.ofEntity s.config.dialect schema h.entity.name h.entity = .ok t)
  (hl : k.live w.server)

/-- The column with the key of a handle. -/
def keyColumn (h : Handle) (key : Field) : Sql.ColumnRef :=
  ⟨.table h.entity.name, key.name, key.type⟩

/-- The condition that a row has the key of a handle. -/
def keyTest (h : Handle) (key : Field) : Sql.Condition :=
  .test (Sql.holding (keyColumn h key) h.key)

/-- The values that a saved record is written with: all but its key. -/
def unkeyed (h : Handle) : Entries := Entries.erase h.keyName h.values

/-- The update that writes a saved record. -/
def revision (t : Sql.Table) (h : Handle) (key : Field) : Sql.Update where
  table := t.name
  assignments := Assignment.ofTable t (unkeyed h)
  condition := keyTest h key

/-- The selection of the key of a record, by the key. -/
def keySelection (t : Sql.Table) (h : Handle) (key : Field) : Sql.Select where
  outputs := [⟨keyColumn h key, none⟩]
  source := { table := t.name }
  condition := some (keyTest h key)

/-- Whether a condition on the key of a handle reaches a row. -/
def reachesKey (k : Database s.server s.config.dialect schema) (h : Handle) (key : Field)
    (st : σ) (row : Sql.Row k.cells) : Bool :=
  (keyTest h key).reaches (k.rows st) h.entity.name row

include hk

theorem get?_unkeyed (column : String) : Entries.get? column (unkeyed h) =
    if key.name = column then none else h.value? column := by
  rw [unkeyed, Entries.get?_erase, Handle.keyName_eq hk, Handle.value?]

include hh

theorem mem_unkeyed {column : String} :
    column ∈ (unkeyed h).map (·.1) ↔ column ∈ h.entity.columnNames ∧ column ≠ key.name := by
  rw [unkeyed, Entries.map_fst_erase, List.mem_filter, Handle.keyName_eq hk, decide_eq_true_iff,
    show h.values.map (·.1) = h.entity.columnNames from hh.fits.columns]

include hs ht

theorem column_revised {a : Assignment} (ha : a ∈ Assignment.ofTable t (unkeyed h)) :
    a.column ∈ h.entity.columnNames ∧ a.column ≠ key.name ∧
      Query.columnType? schema h.entity a.column = some a.type ∧
        h.value? a.column = some a.value := by
  obtain ⟨htype, hvalue⟩ := Sql.typed_assigned hs hh.known ht a ha
  rw [get?_unkeyed hk] at hvalue
  split at hvalue
  · cases hvalue
  case isFalse hc => exact ⟨Query.mem_columnNames htype, Ne.symm hc, htype, hvalue⟩

omit hs in
theorem exists_revised {column : String} (hin : column ∈ h.entity.columnNames)
    (hother : column ≠ key.name) : ∃ a ∈ Assignment.ofTable t (unkeyed h), a.column = column := by
  obtain ⟨x, hx, rfl⟩ := Sql.Table.exists_column ht hin
  obtain ⟨v, hv⟩ := hh.fits.exists_value hin
  refine ⟨⟨x.name, x.type, v⟩, Assignment.mem_ofTable.2 ⟨x, hx, ?_, rfl, rfl⟩, rfl⟩
  rw [get?_unkeyed hk, if_neg (Ne.symm hother), hv]

/-- An update is refused before it is sent if and only if a column has the name of its parameter. -/
theorem wellNamed_revision :
    (revision t h key).wellNamed s.config.dialect = true ↔ ¬h.Clashes := by
  have hadmitted := LogicalType.admitted_of_admits (hh.admits_key hs hk)
    ((hs.entities _ hh.known).key_comparable hk)
  rw [Sql.wellNamed_iff (c := keyColumn h key) rfl]
  constructor
  · rintro hnamed ⟨hnull, key', hk', hbool, column, hin, hother, hname⟩
    cases hk.symm.trans hk'
    rcases hnamed with (hnone | ⟨b, hb⟩) | hapart
    · exact hnull hnone
    · rw [hb] at hadmitted
      generalize htype : key.type = type at hadmitted
      cases hadmitted
      exact hbool htype
    · obtain ⟨a, ha, hcolumn⟩ := exists_revised hh hk ht hin hother
      exact hapart a ha (hcolumn.trans hname)
  · -- Null and truth values stand in the text, so there is no parameter that could clash.
    intro hclash
    by_cases hnull : h.key = .null
    · exact Or.inl (Or.inl hnull)
    by_cases hbool : key.type = .bool
    · rw [hbool] at hadmitted
      generalize hv : h.key = v at hadmitted
      cases hadmitted with
      | null => exact absurd hv hnull
      | bool b => exact Or.inl (Or.inr ⟨b, rfl⟩)
    · refine Or.inr fun a ha hname => hclash ?_
      obtain ⟨hin, hother, -⟩ := column_revised hs hh hk ht ha
      exact ⟨hnull, key, hk, hbool, _, hin, hother, hname⟩

theorem sent_revision (hclash : ¬h.Clashes) :
    ∃ ps, (Request.update (revision t h key)).Sent s.config.dialect ps := by
  have hkey := hh.admits_key hs hk
  refine Request.Proper.exists_sent (Request.proper_update hkey
    ((hs.entities _ hh.known).key_comparable hk) (Sql.columns_assigned ht _) hh.entity.apart
    (fun hbool hnull a ha => ?_) fun a ha => ?_)
  · obtain ⟨hin, hother, -⟩ := column_revised hs hh hk ht ha
    exact hh.entity.beside key hk _ hin fun hname =>
      hclash ⟨hnull, key, hk, hbool, _, hin, hother, hname⟩
  · obtain ⟨-, -, htype, hvalue⟩ := column_revised hs hh hk ht ha
    exact hh.admitted _ _ _ htype hvalue

include hl

omit ht in
theorem reached_execute (hsent : r.Sent s.config.dialect ps) (hr : r.concernsRows = true)
    (hok : (∀ row ∈ k.rows w.server h.entity.name, reachesKey k h key w.server row = false) →
      (s.server.answer r ps w.server).1.isOk = true)
    (hnone : (∀ row ∈ k.rows w.server h.entity.name, reachesKey k h key w.server row = false) →
      ∀ reply st, s.server.answer r ps w.server = (.ok reply, st) →
        count reply = 0 ∧ k.rows st = k.rows w.server)
    (hone : ∀ row others, (k.rows w.server h.entity.name).Perm (row :: others) →
      k.HasKey h.entity h.key row → reachesKey k h key w.server row = true →
        (∀ other ∈ others, reachesKey k h key w.server other = false) →
          ∀ reply st, s.server.answer r ps w.server = (.ok reply, st) →
            count reply = 1 ∧ P (k.rows w.server) (k.rows st)) :
    Reached k h P w count (run (execute c r) s w) := by
  have hcases := execute_cases (c := c) k hsent hr hl
  have hseeks : (Sql.holding (keyColumn h key) h.key).Seeks (keyColumn h key) h.key := Or.inr rfl
  rcases k.none_or_reached hh.known (hs.entities _ hh.known) hk (hh.admits_key hs hk) hseeks
      w.server with
    ⟨hno, hnot⟩ | ⟨row, others, hperm, hhas, hp, hothers⟩
  · -- A write that reaches no row is not refused.
    rcases hcases with ⟨_, _, -, hrefused, -⟩ | ⟨reply, v, hexecute, hanswer, hlive, hrecords⟩
    · rw [hok hno] at hrefused
      cases hrefused
    · obtain ⟨hcount, hrows⟩ := hnone hno reply _ hanswer
      rw [hexecute]
      exact .none reply v hcount hlive hrows hrecords hnot
  · have hrow : ∃ row ∈ k.rows w.server h.entity.name, k.HasKey h.entity h.key row :=
      ⟨row, hperm.mem_iff.2 List.mem_cons_self, hhas⟩
    rcases hcases with ⟨fault, v, hexecute, -, hrows, hrecords⟩ |
      ⟨reply, v, hexecute, hanswer, hlive, hrecords⟩ <;> rw [hexecute]
    · exact .refused fault v hrows hrecords hrow
    · obtain ⟨hcount, hP⟩ := hone row others hperm hhas hp hothers reply _ hanswer
      exact .one reply v hcount hlive hrecords hrow hP

theorem reached_update (hclash : ¬h.Clashes) : Reached k h (k.Overwrites h) w (·.changed)
    (run (execute c (.update (revision t h key))) s w) := by
  have hsound := hs.entities _ hh.known
  have htyped : ∀ a ∈ Assignment.ofTable t (unkeyed h),
      Query.columnType? schema h.entity a.column = some a.type ∧
        Entries.get? a.column (unkeyed h) = some a.value := Sql.typed_assigned hs hh.known ht
  obtain ⟨ps, hsent⟩ := sent_revision hs hh hk ht hclash
  rw [revision, (Sql.Table.ofEntity_of_eq_ok hs ht).name] at hsent ⊢
  obtain ⟨hok, heffect⟩ := k.update h.entity hh.known _ (hsound.seeks_key hk
    (hh.admits_key hs hk) (Or.inr rfl)) (Assignment.ofTable t (unkeyed h))
    (fun a ha => (htyped a ha).1) ps w.server hsent
  refine reached_execute hs hh hk hl hsent rfl (fun hno => (hok hl hno).1)
    (fun hno reply st hanswer => ⟨?_, ?_⟩)
    fun row others hperm hhas hp hothers reply st hanswer => ?_
  · exact (heffect st reply hanswer).2.2.trans
      (congrArg _ (List.countP_eq_zero.2 fun row hrow => Bool.eq_false_iff.1 (hno row hrow)))
  · exact (congrArg (k.rows ·.2) hanswer).symm.trans (hok hl hno).2
  · obtain ⟨hafter, hothers', hchanged⟩ := heffect st reply hanswer
    refine ⟨hchanged.trans (congrArg _ (Sql.countP_single hperm hp hothers)), row, _,
      ⟨⟨others, hperm, hafter.trans (Sql.map_single hperm hp hothers)⟩, hothers'⟩, hhas, ?_,
      fun column type htype hc => ?_⟩
    · rw [Handle.keyName_eq hk, Sql.write_assigned hs hh.known ht _ row (Entity.key_column hk)
        (hsound.columnType_key hk), get?_unkeyed hk, if_pos rfl]
    · have hin := Query.mem_columnNames htype
      rw [Handle.keyName_eq hk] at hc
      obtain ⟨v, hv⟩ := hh.fits.exists_value hin
      rw [Sql.write_assigned hs hh.known ht _ row hin htype, get?_unkeyed hk, if_neg (Ne.symm hc),
        hv]
      exact ⟨v, rfl, k.holds_literal (hh.admitted column type v htype hv)⟩

omit hl in
theorem answer_keySelection (st : σ) :
    ∃ ps, (Request.select (keySelection t h key)).Sent s.config.dialect ps ∧
      (k.live st → (s.server.answer (.select (keySelection t h key)) ps st).1.isOk = true) ∧
      ∀ reply, (s.server.answer (.select (keySelection t h key)) ps st).1 = .ok reply →
        reply.rows.Perm (((k.rows st h.entity.name).filter (reachesKey k h key st)).map fun row =>
          [k.shown (row key.name)]) := by
  have hsound := hs.entities _ hh.known
  have hkey := hh.admits_key hs hk
  have houtputs : ∀ o ∈ [Sql.Output.mk (keyColumn h key) none],
      o.column.source = .table h.entity.name ∧ o.column.column ∈ h.entity.columnNames :=
    List.forall_mem_singleton.2 ⟨rfl, Entity.key_column hk⟩
  rw [keySelection, (Sql.Table.ofEntity_of_eq_ok hs ht).name]
  obtain ⟨ps, hsent⟩ := Request.Proper.exists_sent (d := s.config.dialect) (Request.proper_select
    (c := keyColumn h key) hkey (hsound.key_comparable hk))
  obtain ⟨hok, hrows⟩ := k.select h.entity hh.known _ (hsound.seeks_key hk hkey (Or.inr rfl)) _
    houtputs ps st hsent
  refine ⟨ps, hsent, hok, fun reply hreply => ?_⟩
  have hperm := hrows reply hreply
  rw [Sql.rows_single _ _ fun o ho => (houtputs o ho).1, List.map_map] at hperm
  exact hperm

/-- A record that has nothing but a key is only looked for. -/
theorem reached_select (honly : unkeyed h = []) : Reached k h (k.Overwrites h) w id
    (run (do
      let reply ← execute c (.select (keySelection t h key))
      let rows ← ofResult (reply.rows.mapM (Sql.Binding.readRow s.config.dialect [key.type]))
      pure (rows.length : Int)) s w) := by
  have hsound := hs.entities _ hh.known
  obtain ⟨ps, hsent, hok, hrows⟩ := answer_keySelection hs hh hk ht (k := k) w.server
  have hsame : ∀ reply st, s.server.answer (.select (keySelection t h key)) ps w.server =
      (.ok reply, st) → k.rows st = k.rows w.server := by
    intro reply st hanswer
    rw [← k.looked (keySelection t h key) ps w.server, hanswer]
  have hcount : ∀ reply st, s.server.answer (.select (keySelection t h key)) ps w.server =
      (.ok reply, st) → reply.rows.length =
        (k.rows w.server h.entity.name).countP (reachesKey k h key w.server) := by
    intro reply st hanswer
    rw [(hrows reply (congrArg Prod.fst hanswer)).length_eq, List.length_map,
      List.countP_eq_length_filter]
  have hreached : Reached k h (k.Overwrites h) w (fun reply => (reply.rows.length : Int))
      (run (execute c (.select (keySelection t h key))) s w) := by
    refine reached_execute hs hh hk hl hsent rfl (fun _ => hok hl)
      (fun hno reply st hanswer => ⟨?_, hsame reply st hanswer⟩)
      fun row others hperm hhas hp hothers reply st hanswer => ⟨?_, row, row, ?_, hhas, rfl, ?_⟩
    · exact congrArg _ ((hcount reply st hanswer).trans
        (List.countP_eq_zero.2 fun row hrow => Bool.eq_false_iff.1 (hno row hrow)))
    · exact congrArg _ ((hcount reply st hanswer).trans (Sql.countP_single hperm hp hothers))
    · rw [hsame reply st hanswer]
      exact ⟨⟨others, hperm, hperm⟩, fun _ _ => rfl⟩
    · intro column type htype hc
      have hin := (mem_unkeyed hh hk).2
        ⟨Query.mem_columnNames htype, Handle.keyName_eq hk ▸ hc⟩
      rw [honly] at hin
      cases hin
  refine hreached.bind fun reply v hexecute => ?_
  rw [run_execute_of_sent hsent] at hexecute
  have hreply := (Outcome.mapError_eq_ok _ _ _).1 (congrArg Prod.fst hexecute)
  obtain ⟨values, hvalues⟩ : ∃ values,
      reply.rows.mapM (Sql.Binding.readRow s.config.dialect [key.type]) = .ok values := by
    refine Outcome.exists_mapM fun cells hcells => ?_
    obtain ⟨row, hrow, rfl⟩ := List.mem_map.1 ((hrows reply hreply).mem_iff.1 hcells)
    obtain ⟨u, hu⟩ := k.exists_read hh.known (List.mem_filter.1 hrow).1
      (hsound.columnType_key hk)
    exact ⟨[u], by rw [Sql.Binding.readRow, hu]; rfl⟩
  have hlength : values.length = reply.rows.length := by
    have hmap := Outcome.map_of_mapM (g := fun _ => ()) (k := fun _ => ()) (fun _ _ _ => rfl) hvalues
    simpa using congrArg List.length hmap
  exact ⟨values.length, by rw [hvalues, run_bind_of_ok (run_ofResult _), run_pure],
    congrArg Int.ofNat hlength⟩

omit hl in
theorem run_overwrite : run (overwrite t h c) s w = run (
    if (unkeyed h).isEmpty then do
      let reply ← execute c (.select (keySelection t h key))
      let rows ← ofResult (reply.rows.mapM (Sql.Binding.readRow s.config.dialect [key.type]))
      pure (rows.length : Int)
    else if (revision t h key).wellNamed s.config.dialect then do
      let reply ← execute c (.update (revision t h key))
      pure reply.changed
    else throw (.defect .statement "")) s w := by
  have hin : ∀ column ∈ (unkeyed h).map (·.1), column ∈ h.entity.columnNames := fun column hc =>
    ((mem_unkeyed hh hk).1 hc).1
  rw [overwrite, run_bind_of_ok run_dialect, Sql.keyCondition_eq_ok hs hh.known ht rfl hk,
    run_bind_of_ok (run_ofResult _)]
  dsimp only
  rw [← unkeyed]
  split
  · rfl
  · rw [Sql.assign_eq_ok ht hin, run_bind_of_ok (run_ofResult _)]
    rfl

omit hl in
/-- No record is written whose column takes the name of the parameter for its key. -/
theorem run_overwrite_of_clash (hclash : h.Clashes) :
    run (overwrite t h c) s w = (.error (.defect .statement ""), w) := by
  obtain ⟨-, key', hk', -, column, hin, hother, -⟩ := id hclash
  cases hk.symm.trans hk'
  have hsome : ¬(unkeyed h).isEmpty = true := by
    have hcolumn := (mem_unkeyed hh hk).2 ⟨hin, hother⟩
    intro hempty
    rw [List.isEmpty_iff.1 hempty] at hcolumn
    cases hcolumn
  rw [run_overwrite hs hh hk ht, if_neg hsome,
    if_neg (mt (wellNamed_revision hs hh hk ht).1 (not_not.2 hclash))]
  rfl

theorem reached_overwrite (hclash : ¬h.Clashes) :
    Reached k h (k.Overwrites h) w id (run (overwrite t h c) s w) := by
  rw [run_overwrite hs hh hk ht]
  split
  case isTrue honly => exact reached_select hs hh hk ht hl (List.isEmpty_iff.1 honly)
  case isFalse hsome =>
    rw [if_pos ((wellNamed_revision hs hh hk ht).2 hclash)]
    exact (reached_update hs hh hk ht hl hclash).bind fun reply v _ => ⟨_, rfl, rfl⟩

end Keyed

/-! ## Records that are there or gone -/

theorem Reached.ends {α : Type} {P : Sql.Contents k.cells → Sql.Contents k.cells → Prop}
    {x : Session σ α} {count : α → Int} {f : Handle → Handle} {rest : α → Session σ Unit}
    (hx : Reached k h P w count (run x s w)) (hn : w.records[n]? = some h)
    (hzero : ∀ a v, count a = 0 →
      run (rest a) s v = (.error (.record (.notFound h.key h.entity.name)), v))
    (hsome : ∀ a v, count a ≠ 0 → run (rest a) s v = run (update n f) s v) :
    Ends k (k.Rewrites n h f P (k.rows w.server) w.records) (k.rows w.server)
      (run (x >>= rest) s w) := by
  rcases hrun : run x s w with ⟨e | a, v⟩ <;> rw [hrun] at hx
  · rw [run_bind, hrun]
    cases hx with
    | refused fault _ hrows hrecords hrow =>
      obtain ⟨row, hin, hhas⟩ := hrow
      exact ⟨⟨⟨nofun, fun _ => ⟨hrows, hrecords⟩⟩, nofun, fun hno => absurd hhas (hno row hin)⟩,
        nofun, fun _ => hrows⟩
  · rw [run_bind_of_ok hrun]
    cases hx with
    | none _ _ hcount hlive hrows hrecords hno =>
      rw [hzero a v hcount]
      exact ⟨⟨⟨nofun, fun _ => ⟨hrows, hrecords⟩⟩, fun _ => hno, fun _ => rfl⟩, nofun,
        fun _ => hrows⟩
    | one _ _ hcount hlive hrecords hrow hP =>
      obtain ⟨row, hin, hhas⟩ := hrow
      rw [hsome a v (by rw [hcount]; decide)]
      have hends : Ends k (k.Writes n (fun h' after => h' = f h ∧ P (k.rows w.server) after)
          (k.rows w.server) w.records) (k.rows w.server) (run (update n f) s v) :=
        ends_update hn hlive hrecords ⟨rfl, hP⟩
      obtain ⟨houtcome, hlive, hundone⟩ := hends
      exact ⟨⟨houtcome, nofun, fun hno => absurd hhas (hno row hin)⟩, hlive, hundone⟩

section Saved

variable (hs : schema.Sound) (hh : h.Storable s.config.dialect schema)
  (hn : w.records[n]? = some h)

include hs hh hn

theorem ends_saveChanges (hl : k.live w.server) (hclash : ¬h.Clashes) :
    Ends k (k.Rewrites n h (·.persisted) (k.Overwrites h) (k.rows w.server) w.records)
      (k.rows w.server) (run (saveChanges ⟨schema, k.tables⟩ n c) s w) := by
  obtain ⟨key, hk⟩ := (hs.entities _ hh.known).exists_key
  obtain ⟨t, htable, ht⟩ := Sql.Tables.exists_ofEntity hs k.built hh.known
  rw [saveChanges, run_bind_of_ok (run_handle_of_some hn), htable, run_bind_of_ok (run_ofResult _)]
  refine (reached_overwrite hs hh hk ht hl hclash).ends hn
    (fun count v (hzero : count = 0) => ?_) fun count v (hsome : count ≠ 0) => ?_
  · rw [if_pos hzero]
    rfl
  · rw [if_neg hsome]

theorem run_saveChanges_of_clash (k : Database s.server s.config.dialect schema)
    (hclash : h.Clashes) :
    run (saveChanges ⟨schema, k.tables⟩ n c) s w = (.error (.defect .statement ""), w) := by
  obtain ⟨key, hk⟩ := (hs.entities _ hh.known).exists_key
  obtain ⟨t, htable, ht⟩ := Sql.Tables.exists_ofEntity hs k.built hh.known
  rw [saveChanges, run_bind_of_ok (run_handle_of_some hn), htable, run_bind_of_ok (run_ofResult _),
    run_bind, run_overwrite_of_clash hs hh hk ht hclash]

end Saved

end Session

end SchemaLedger
