import SchemaLedger.Proofs.Record.Handle
import SchemaLedger.Proofs.Session.Application
import SchemaLedger.Proofs.Session.Saving

set_option autoImplicit false

/-!
# Calls of a program

A program makes records, assigns their columns and hands them to stores. Each call of a store runs on
a transaction that the store joins, or in one of its own; all that is done around it neither changes
a handle nor writes a row.
-/
namespace SchemaLedger

/-- Whether a request writes rows of tables. -/
def Request.changesRows : Request → Bool
  | .insert _ | .update _ | .delete _ => true
  | _ => false

theorem Request.changesRows_of_passive {r : Request} (h : r.passive = true) :
    r.changesRows = false := by
  cases r <;> first | rfl | cases h

def Event.changesRows : Event → Bool
  | .sent r _ _ => r.changesRows
  | _ => false

theorem Event.changesRows_of_routine {e : Event} (h : e.routine = true) :
    e.changesRows = false := by
  cases e with
  | sent r text parameters =>
    exact Request.changesRows_of_passive (Request.passive_of_preparatory h)
  | _ => rfl

namespace Session

variable {σ α : Type} {s : Setting σ} {c n : Nat} {u v w w' : World σ} {h : Handle}

/-- What a program does with records. -/
inductive Act where
  | new (entity : String) (values : Entries)
  | assign (n : Nat) (column : String) (v : Value)
  | load (entity : String) (key : Value)
  | find (plan : Query.Plan)
  | save (n : Nat)
  | delete (n : Nat)
  | related (n : Nat) (name : String)
  | link (n : Nat) (name : String) (target : Nat)
  | unlink (n : Nat) (name : String) (target : Nat)

/-- The record that is saved, if the act is to save one. -/
def Act.saves (a : Act) (n : Nat) : Prop := a = .save n

/-- Whether a record takes part in an act. -/
def Act.Involves : Act → Nat → Prop
  | .new _ _, _ | .load _ _, _ | .find _, _ => False
  | .assign m _ _, n | .save m, n | .delete m, n | .related m _, n => m = n
  | .link m _ target, n | .unlink m _ target, n => m = n ∨ target = n

/-- What a call gives back. -/
inductive Answer where
  | done
  | records (found : Related)
  | changed (any : Bool)

/-- An act by means of a store, which has a schema and may be bound to an open transaction. -/
structure Call where
  schema : Schema
  joined : Option Nat
  act : Act

namespace Call

/-- A call of the store on a connection. -/
def stored (call : Call) (body : Store → Nat → Session σ α) : Session σ α := do
  let st ← store call.schema
  within call.joined (body st)

def perform (call : Call) : Session σ Answer :=
  match call.act with
  | .new entity values => do
    let e ← ofResult (liftSchema (call.schema.entity entity))
    let h ← ofResult (Handle.make e values)
    pure (.records (.one (← register h)))
  | .assign n column v => do
    let h ← ofResult ((← handle n).set column v)
    update n fun _ => h
    pure .done
  | .load entity key => do
    match ← within call.joined (load call.schema entity key) with
    | some h => pure (.records (.one (← register h)))
    | none => pure (.records .nothing)
  | .find plan => do
    let found ← within call.joined (find call.schema plan)
    pure (.records (.many (← found.mapM register)))
  | .save n => do
    call.stored fun st => save st n
    pure .done
  | .delete n => do
    call.stored fun st => delete st n
    pure .done
  | .related n name => do pure (.records (← within call.joined (related call.schema n name)))
  | .link n name target => do pure (.changed (← call.stored fun st => link st n name target))
  | .unlink n name target => do pure (.changed (← call.stored fun st => unlink st n name target))

end Call

/-- A program goes on after a call that fails. -/
def play (calls : List Call) : Session σ Unit :=
  calls.forM fun call => discard (attempt call.perform)

/-- The world after the calls of a program. -/
def after (s : Setting σ) (calls : List Call) (w : World σ) : World σ := (run (play calls) s w).2

theorem after_cons (call : Call) (rest : List Call) (w : World σ) :
    after s (call :: rest) w = after s rest (run call.perform s w).2 := by
  have hcall : run (discard (attempt call.perform)) s w = (.ok ⟨⟩, (run call.perform s w).2) := by
    rw [run_discard, run_attempt]
    rfl
  change (run (discard (attempt call.perform) >>= fun _ => play rest) s w).2 = _
  rw [run_bind_of_ok hcall]
  rfl

theorem after_append (calls more : List Call) (w : World σ) :
    after s (calls ++ more) w = after s more (after s calls w) := by
  induction calls generalizing w with
  | nil => rfl
  | cons call rest ih => rw [List.cons_append, after_cons, ih, after_cons]

/-- What holds of each call and those before it, call by call. -/
theorem forall_split {calls : List Call} {P : List Call → Call → Prop}
    (h : ∀ i : Fin calls.length, P (calls.take i) calls[i]) :
    ∀ before call rest, calls = before ++ call :: rest → P before call := by
  rintro before call rest rfl
  simpa using h ⟨before.length, by simp⟩

/-! ## Around a call -/

/-- All that happens on the connections has a property. -/
def Frame.saying (P : Event → Prop) : Frame σ where
  rel w w' := ∃ es, w'.log = w.log ++ es ∧ ∀ e ∈ es, P e
  refl w := ⟨[], (List.append_nil _).symm, List.forall_mem_nil _⟩
  trans := fun ⟨es, hl, hn⟩ ⟨es', hl', hn'⟩ =>
    ⟨es ++ es', by rw [hl', hl, List.append_assoc], List.forall_mem_append.2 ⟨hn, hn'⟩⟩

theorem Frame.saying_send {P : Event → Prop} {r : Request}
    (h : ∀ ps, (r.prepare s.config.dialect).bind s.config.dialect = .ok ps →
      P (.sent r (r.prepare s.config.dialect).text ps)) : (Frame.saying P).Keeps s (send c r) :=
  Frame.keeps_send_of_bind fun ps _ hps =>
    ⟨_, log_answered r ps, List.forall_mem_singleton.2 (h ps hps)⟩

/-- No handle changes, and all that happens on the connections has a property. -/
def Frame.telling (P : Event → Prop) : Frame σ where
  rel w w' := w'.records = w.records ∧ (Frame.saying P).rel w w'
  refl w := ⟨rfl, (Frame.saying P).refl w⟩
  trans := fun ⟨hr, hs⟩ ⟨hr', hs'⟩ => ⟨hr'.trans hr, (Frame.saying P).trans hs hs'⟩

theorem Frame.telling_of_still {P : Event → Prop} (hlog : w'.log = w.log)
    (hrecords : w'.records = w.records) : (Frame.telling P).rel w w' :=
  ⟨hrecords, [], hlog.trans (List.append_nil _).symm, List.forall_mem_nil _⟩

theorem Frame.telling_surrounds {P : Event → Prop} (hP : ∀ e, e.routine = true → P e)
    (s : Setting σ) : (Frame.telling P).Surrounds s :=
  Frame.surrounds_of_events (fun _ _ hlog _ hsame => Frame.telling_of_still hlog hsame.records)
    fun e _ _ he hlog _ hsame =>
      ⟨hsame.records, [e], hlog, List.forall_mem_singleton.2 (hP e he)⟩

/-- Nothing is written. -/
def Frame.silent : Frame σ := Frame.saying fun e => e.changesRows = false

/-- No handle changes, and nothing is written. -/
def Frame.unwritten : Frame σ := Frame.telling fun e => e.changesRows = false

theorem Frame.unwritten_surrounds (s : Setting σ) : Frame.unwritten.Surrounds s :=
  Frame.telling_surrounds (fun _ => Event.changesRows_of_routine) s

theorem Frame.unwritten_select (c : Nat) (q : Sql.Select) :
    Frame.unwritten.Keeps s (send c (.select q)) :=
  Frame.keeps_send fun ps _ => ⟨records_answered _ ps, _, log_answered _ ps,
    List.forall_mem_singleton.2 rfl⟩

/-- No transaction can be begun: no connection can be lent, or BEGIN is refused on the one that is. -/
def Unbegun (s : Setting σ) (w : World σ) : Prop :=
  ∀ c u, run checkout s w = (.ok c, u) → (run (begin c false) s u).1.isOk = false

theorem transaction_begun {R : Frame σ} (hR : R.Surrounds s) (body : Nat → Session σ α)
    (w : World σ) :
    (Unbegun s w ∧ (run (transaction body) s w).1.isOk = false ∧
      R.rel w (run (transaction body) s w).2) ∨
    ∃ c u, R.rel w u ∧ R.rel (run (body c) s u).2 (run (transaction body) s w).2 ∧
      ∀ a, (run (transaction body) s w).1 = .ok a → (run (body c) s u).1 = .ok a := by
  have hcheckout := hR.keeps_checkout w
  rw [transaction, run_withConnection]
  rcases hlent : run checkout s w with ⟨e | c, u⟩ <;> rw [hlent] at hcheckout
  · refine Or.inl ⟨fun c u hrun => ?_, rfl, hcheckout⟩
    cases hlent.symm.trans hrun
  dsimp only
  have hbegin := hR.keeps_begin c false u
  rw [inside, run_bind, run_classifying]
  rcases hbegun : run (begin c false) s u with ⟨e | ⟨⟩, v⟩ <;> rw [hbegun] at hbegin
  · refine Or.inl ⟨fun c' u' hrun => ?_, rfl, R.trans (R.trans hcheckout hbegin) (hR.returned c v)⟩
    cases hlent.symm.trans hrun
    rw [hbegun]
    rfl
  refine Or.inr ⟨c, v, R.trans hcheckout hbegin, ?_⟩
  dsimp only [Except.mapError]
  rw [run_bind_of_ok (run_attempt (body c))]
  rcases run (body c) s v with ⟨e | a, v'⟩
  · dsimp only
    rw [run_bind_of_ok run_rollback, run_throw]
    exact ⟨R.trans (hR.ended c v') (hR.returned c _), fun _ h => by cases h⟩
  · have hcommit := hR.commit c v'
    dsimp only
    rw [run_bind, run_classifying]
    rcases hrun : run (commit c) s v' with ⟨e | ⟨⟩, v''⟩ <;> rw [hrun] at hcommit
    · exact ⟨R.trans hcommit (hR.returned c _), fun _ h => by cases h⟩
    · exact ⟨R.trans hcommit (hR.returned c _), fun _ => id⟩

theorem within_cases {R : Frame σ} (hR : R.Surrounds s) (joined : Option Nat)
    (body : Nat → Session σ α) (w : World σ) :
    ((run (within joined body) s w).1.isOk = false ∧ R.rel w (run (within joined body) s w).2) ∨
    ∃ c u, R.rel w u ∧ R.rel (run (body c) s u).2 (run (within joined body) s w).2 ∧
      ∀ a, (run (within joined body) s w).1 = .ok a → (run (body c) s u).1 = .ok a := by
  cases joined with
  | none => exact (transaction_begun hR body w).imp And.right id
  | some c => exact Or.inr ⟨c, w, R.refl w, R.refl _, fun _ => id⟩

theorem run_stored_of_ok {call : Call} {tables : Sql.Tables}
    (h : Sql.Tables.ofSchema s.config.dialect call.schema = .ok tables)
    (body : Store → Nat → Session σ α) :
    run (call.stored body) s w = run (within call.joined (body ⟨call.schema, tables⟩)) s w := by
  rw [Call.stored, store, bind_assoc, run_bind_of_ok run_dialect, bind_assoc, run_bind,
    run_ofResult, h]
  rfl

theorem run_stored_of_error {call : Call} {e : Error}
    (h : Sql.Tables.ofSchema s.config.dialect call.schema = .error e)
    (body : Store → Nat → Session σ α) : run (call.stored body) s w = (.error e, w) := by
  rw [Call.stored, store, bind_assoc, run_bind_of_ok run_dialect, bind_assoc, run_bind,
    run_ofResult, h]

/-- A call of a store fails before its body, or runs it with the tables of its schema. -/
theorem stored_cases {R : Frame σ} (hR : R.Surrounds s) (call : Call)
    (body : Store → Nat → Session σ α) (w : World σ) :
    ((run (call.stored body) s w).1.isOk = false ∧ R.rel w (run (call.stored body) s w).2) ∨
    ∃ tables c u, Sql.Tables.ofSchema s.config.dialect call.schema = .ok tables ∧ R.rel w u ∧
      R.rel (run (body ⟨call.schema, tables⟩ c) s u).2 (run (call.stored body) s w).2 ∧
      ∀ a, (run (call.stored body) s w).1 = .ok a →
        (run (body ⟨call.schema, tables⟩ c) s u).1 = .ok a := by
  cases htables : Sql.Tables.ofSchema s.config.dialect call.schema with
  | error e =>
    rw [run_stored_of_error htables]
    exact Or.inl ⟨rfl, R.refl w⟩
  | ok tables =>
    rw [run_stored_of_ok htables]
    refine (within_cases hR call.joined _ w).imp id ?_
    rintro ⟨c, u, hu, hbody⟩
    exact ⟨tables, c, u, rfl, hu, hbody⟩

/-! ## What the operations of a store do -/

theorem run_ofResult_bind_eq_ok {β : Type} (r : Result α) (f : α → Session σ β) (b : β) :
    run (ofResult r >>= f) s w = (.ok b, w') ↔
      ∃ a, r = .ok a ∧ run (f a) s w = (.ok b, w') := by
  rw [run_bind, run_ofResult]
  cases r <;> simp

theorem run_handle_of_some (hn : w.records[n]? = some h) : run (handle n) s w = (.ok h, w) := by
  rw [handle, run_bind_of_ok run_get, hn]
  rfl

theorem run_handle_of_none (hn : w.records[n]? = none) :
    run (handle n : Session σ Handle) s w = (.error (.defect .key ""), w) := by
  rw [handle, run_bind_of_ok run_get, hn]
  rfl

theorem exists_handle {f : Handle → Session σ α} {a : α}
    (hrun : run (handle n >>= f) s w = (.ok a, w')) :
    ∃ h, w.records[n]? = some h ∧ run (f h) s w = (.ok a, w') := by
  cases hn : w.records[n]? with
  | some h =>
    rw [run_bind_of_ok (run_handle_of_some hn)] at hrun
    exact ⟨h, rfl, hrun⟩
  | none =>
    rw [run_bind, run_handle_of_none hn] at hrun
    cases hrun

theorem run_register (h : Handle) : run (register h : Session σ Nat) s w =
    (.ok w.records.length, { w with records := w.records ++ [h] }) := rfl

theorem made_of_load {schema : Schema} {entity : String} {key : Value}
    (hrun : run (load schema entity key c) s w = (.ok (some h), w')) :
    ∃ e values, schema.entity entity = .ok e ∧ Handle.make e values .persisted = .ok h := by
  obtain ⟨e, he, hrun⟩ := (run_ofResult_bind_eq_ok _ _ _).1 hrun
  obtain ⟨row, v', -, hmake⟩ := (run_bind_eq_ok _ _ _).1 hrun
  rw [run_ofResult] at hmake
  cases row with
  | none => cases hmake
  | some values =>
    have hmade := congrArg Prod.fst hmake
    rw [Option.mapM_some, map_eq_pure_bind, Outcome.bind_eq_ok] at hmade
    obtain ⟨g, hg, hgiven⟩ := hmade
    cases hgiven
    exact ⟨e, values, (liftSchema_eq_ok _ _).1 he, hg⟩

theorem begins_of_load {schema : Schema} {entity : String} {key : Value}
    (hrun : run (load schema entity key c) s w = (.ok (some h), w')) :
    ∃ e, schema.entity entity = .ok e ∧ h.Begins e .persisted := by
  obtain ⟨e, values, he, hmake⟩ := made_of_load hrun
  exact ⟨e, he, Handle.begins_make hmake⟩

theorem begins_of_find {schema : Schema} {plan : Query.Plan} {found : List Handle}
    (hrun : run (find schema plan c) s w = (.ok found, w')) :
    ∃ e, schema.entity plan.entity = .ok e ∧ ∀ h ∈ found, h.Begins e .persisted := by
  obtain ⟨e, he, hrun⟩ := (run_ofResult_bind_eq_ok _ _ _).1 hrun
  obtain ⟨rows, v', -, hmake⟩ := (run_bind_eq_ok _ _ _).1 hrun
  rw [run_ofResult] at hmake
  exact ⟨e, (liftSchema_eq_ok _ _).1 he,
    Outcome.forall_of_mapM (fun _ _ => Handle.begins_make) (congrArg Prod.fst hmake)⟩

theorem reload_eq_ok {schema : Schema} {entity : String} {key : Value} {stored : Entries} :
    run (reload schema entity key c) s w = (.ok stored, w') ↔
      ∃ h, run (load schema entity key c) s w = (.ok (some h), w') ∧ h.values = stored := by
  rw [reload, run_bind_eq_ok]
  constructor
  · rintro ⟨_ | h, v, hload, hrun⟩
    · cases hrun
    · cases hrun
      exact ⟨h, hload, rfl⟩
  · rintro ⟨h, hload, rfl⟩
    exact ⟨some h, w', hload, rfl⟩

/-- The values that a record has once it is inserted, with the key that the database chose. -/
def settled (d : Dialect) (h : Handle) (i : Insertion) (reply : Reply) : Entries :=
  if (Entries.get? h.keyName i.values).isNone then
    Entries.put h.keyName (countedKey d reply) i.values
  else i.values

theorem nodup_settled {d : Dialect} {h : Handle} {i : Insertion} {reply : Reply}
    (hnames : (i.values.map (·.1)).Nodup) : ((settled d h i reply).map (·.1)).Nodup := by
  rw [settled]
  split
  · exact Entries.nodup_put hnames
  · exact hnames

theorem mem_columns_of_settled {d : Dialect} {h : Handle} {i : Insertion} {reply : Reply}
    {fresh : Uuid} {column : String} (hf : h.Fits) (hi : h.insertion fresh = .ok i)
    (hc : column ∈ (settled d h i reply).map (·.1)) : column ∈ h.columns := by
  obtain ⟨hkey, hvalues⟩ := Handle.mem_columns_of_insertion hf hi
  rw [settled] at hc
  split at hc
  · rcases Entries.mem_map_fst_put.1 hc with rfl | hc
    · exact hkey
    · exact hvalues column hc
  · exact hvalues column hc

/-- The insertion of a record. -/
def insertRequest (t : Sql.Table) (h : Handle) (i : Insertion) (assignments : List Sql.Assignment) :
    Request :=
  .insert
    { table := t.name, assignments,
      counted := if (Entries.get? h.keyName i.values).isNone then some h.keyName else none }

/-- The insertion of a record with the identifier that is drawn for it. -/
def insertAs (st : Store) (n : Nat) (h : Handle) (fresh : Uuid) (c : Nat) : Session σ Unit := do
  let d ← dialect
  let i ← ofResult (h.insertion fresh)
  let t ← ofResult (st.tables.ofEntity st.schema h.entity.name)
  let assignments ← ofResult (t.assign i.values)
  let reply ← execute c (insertRequest t h i assignments)
  let values := settled d h i reply
  if i.defaulted.isEmpty then update n (·.persisted values)
  else
    let stored ← reload st.schema h.entity.name ((Entries.get? h.keyName values).getD .null) c
    update n (·.persisted stored)

/-- An insertion draws the next identifier if its record needs one. -/
theorem run_insert_next (s : Setting σ) (st : Store) (c : Nat) (hn : w.records[n]? = some h) :
    ∃ ids, run (insert st n c) s w =
      run (insertAs st n h (w.identifiers.head?.getD .zero) c) s { w with identifiers := ids } := by
  have hany : h.needsIdentifier = false → ∀ fresh, h.insertion fresh = h.insertion .zero := by
    intro hneeds fresh
    rw [Handle.insertion, Handle.insertion, Handle.keyed, Handle.keyed, hneeds]
    rfl
  simp only [insertAs, run_bind_of_ok run_dialect, insertRequest, settled]
  rw [insert, run_bind_of_ok run_dialect, run_bind_of_ok (run_handle_of_some hn)]
  extract_lets rest
  split
  case isTrue hneeds => exact ⟨w.identifiers.tail, rfl⟩
  case isFalse hneeds =>
    rw [hany (Bool.eq_false_iff.2 hneeds)]
    exact ⟨w.identifiers, rfl⟩

theorem run_insert (s : Setting σ) (st : Store) (c : Nat) (hn : w.records[n]? = some h) :
    ∃ fresh ids,
    run (insert st n c) s w = run (insertAs st n h fresh c) s { w with identifiers := ids } :=
  ⟨_, run_insert_next s st c hn⟩

theorem insert_eq_ok {st : Store} (hn : w.records[n]? = some h)
    (hrun : run (insert st n c) s w = (.ok (), w')) :
    ∃ fresh ids i t assignments reply v stored u, h.insertion fresh = .ok i ∧
      st.tables.ofEntity st.schema h.entity.name = .ok t ∧ t.assign i.values = .ok assignments ∧
      run (execute c (insertRequest t h i assignments)) s { w with identifiers := ids } =
        (.ok reply, v) ∧
      ((i.defaulted = [] ∧ stored = settled s.config.dialect h i reply ∧ u = v) ∨
        (i.defaulted ≠ [] ∧ run (reload st.schema h.entity.name
          ((Entries.get? h.keyName (settled s.config.dialect h i reply)).getD .null) c) s v =
            (.ok stored, u))) ∧
      w' = { u with records := u.records.modify n (·.persisted stored) } := by
  obtain ⟨fresh, ids, hinsert⟩ := run_insert s st c hn
  rw [hinsert, insertAs, run_bind_of_ok run_dialect] at hrun
  obtain ⟨i, hi, hrun⟩ := (run_ofResult_bind_eq_ok _ _ _).1 hrun
  obtain ⟨t, ht, hrun⟩ := (run_ofResult_bind_eq_ok _ _ _).1 hrun
  obtain ⟨assignments, ha, hrun⟩ := (run_ofResult_bind_eq_ok _ _ _).1 hrun
  obtain ⟨reply, v, hexecute, hrun⟩ := (run_bind_eq_ok _ _ _).1 hrun
  dsimp only at hrun
  split at hrun
  case isTrue hempty =>
    cases hrun
    exact ⟨fresh, ids, i, t, assignments, reply, v, _, v, hi, ht, ha, hexecute,
      Or.inl ⟨List.isEmpty_iff.1 hempty, rfl, rfl⟩, rfl⟩
  case isFalse hsome =>
    obtain ⟨stored, u, hreload, hrun⟩ := (run_bind_eq_ok _ _ _).1 hrun
    cases hrun
    exact ⟨fresh, ids, i, t, assignments, reply, v, stored, u, hi, ht, ha, hexecute,
      Or.inr ⟨fun hnil => hsome (by rw [hnil]; rfl), hreload⟩, rfl⟩

theorem saveChanges_eq_ok {st : Store} (hn : w.records[n]? = some h)
    (hrun : run (saveChanges st n c) s w = (.ok (), w')) :
    ∃ t count u, st.tables.ofEntity st.schema h.entity.name = .ok t ∧
      run (overwrite t h c) s w = (.ok count, u) ∧ count ≠ 0 ∧
      w' = { u with records := u.records.modify n (·.persisted) } := by
  rw [saveChanges, run_bind_of_ok (run_handle_of_some hn)] at hrun
  obtain ⟨t, ht, hrun⟩ := (run_ofResult_bind_eq_ok _ _ _).1 hrun
  obtain ⟨count, u, hcount, hrun⟩ := (run_bind_eq_ok _ _ _).1 hrun
  refine ⟨t, count, u, ht, hcount, ?_⟩
  split at hrun
  case isTrue hzero =>
    obtain ⟨⟨⟩, v', hthrow, -⟩ := (run_bind_eq_ok _ _ _).1 hrun
    cases hthrow
  case isFalse hsome =>
    cases hrun
    exact ⟨hsome, rfl⟩

theorem run_save (st : Store) (hn : w.records[n]? = some h) : run (save st n c) s w =
    match h.state with
    | .new => run (insert st n c) s w
    | .persisted => run (saveChanges st n c) s w
    | .deleted => (.error (.record (.deleted h.entity.name h.key)), w) := by
  rw [save, run_bind_of_ok (run_handle_of_some hn), run_bind, run_ofResult, Handle.ensureWritable]
  cases h.state <;> rfl

theorem delete_eq_ok {st : Store} (hn : w.records[n]? = some h)
    (hrun : run (delete st n c) s w = (.ok (), w')) :
    ∃ t key condition reply u, h.state = .persisted ∧
      st.tables.ofEntity st.schema h.entity.name = .ok t ∧
      keyCondition t h = .ok (key, condition) ∧
      run (execute c (.delete { table := t.name, condition })) s w = (.ok reply, u) ∧
      reply.changed ≠ 0 ∧ w' = { u with records := u.records.modify n (·.deleted) } := by
  rw [delete, run_bind_of_ok (run_handle_of_some hn)] at hrun
  split at hrun
  case isTrue hstate =>
    obtain ⟨⟨⟩, v', hthrow, -⟩ := (run_bind_eq_ok _ _ _).1 hrun
    cases hthrow
  case isFalse hstate =>
    obtain ⟨t, ht, hrun⟩ := (run_ofResult_bind_eq_ok _ _ _).1 hrun
    obtain ⟨⟨key, condition⟩, hkey, hrun⟩ := (run_ofResult_bind_eq_ok _ _ _).1 hrun
    obtain ⟨reply, u, hexecute, hrun⟩ := (run_bind_eq_ok _ _ _).1 hrun
    refine ⟨t, key, condition, reply, u, not_not.1 hstate, ht, hkey, hexecute, ?_⟩
    split at hrun
    case isTrue hzero =>
      obtain ⟨⟨⟩, v', hthrow, -⟩ := (run_bind_eq_ok _ _ _).1 hrun
      cases hthrow
    case isFalse hsome =>
      cases hrun
      exact ⟨hsome, rfl⟩

end Session

end SchemaLedger
