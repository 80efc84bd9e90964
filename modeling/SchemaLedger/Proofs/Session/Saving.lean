import SchemaLedger.Calendar
import SchemaLedger.Proofs.Session.Exchange
import SchemaLedger.Proofs.Session.Transaction
import SchemaLedger.Session.Record

set_option autoImplicit false

/-!
# Calls of a store that fail

A record is saved or deleted in a transaction of its own. Its handle changes last of all that is
done inside, but before the transaction ends: a call that fails has kept nothing and left all handles
alone, unless it fails because COMMIT is refused.
-/
namespace SchemaLedger

/-- Whether a request is about the rows of tables. -/
def Request.concernsRows : Request → Bool
  | .select _ | .insert _ | .update _ | .delete _ => true
  | _ => false

namespace Session

variable {σ α : Type} {s : Setting σ} {c n : Nat} {e : Error} {u v w w' : World σ}
  {t t' : List Exchange} {change : (Handle → Handle) → Prop}

/-- The calls of a store that write a record. -/
inductive Write where
  | save
  | delete

namespace Write

def perform : Write → Store → Nat → Nat → Session σ Unit
  | save => Session.save
  | delete => Session.delete

/-- What the call makes of the handle that it writes. -/
def Marks : Write → (Handle → Handle) → Prop
  | save, f => ∃ values, f = (·.persisted values)
  | delete, f => f = Handle.deleted

/-- The call of a store that is bound to a database. -/
def call (o : Write) (schema : Schema) (n : Nat) : Session σ Unit := do
  let st ← store schema
  transaction (o.perform st n)

end Write

/-! ## Handles that stay -/

/-- No handle changes, and no transaction ends but by being given up. -/
def Frame.unkept (s : Setting σ) : Frame σ where
  rel w w' := w'.records = w.records ∧ ∃ t, Heard s t w w' ∧ ∀ x ∈ t, x.event ≠ .commit
  refl w := ⟨rfl, [], Heard.refl w, List.forall_mem_nil _⟩
  trans := fun ⟨hr, t, h, hn⟩ ⟨hr', t', h', hn'⟩ =>
    ⟨hr'.trans hr, t ++ t', h.append h', List.forall_mem_append.2 ⟨hn, hn'⟩⟩

theorem Frame.unkept_of_still (hlog : w'.log = w.log) (hserver : w'.server = w.server)
    (hrecords : w'.records = w.records) : (Frame.unkept s).rel w w' :=
  ⟨hrecords, [], ⟨hlog.trans (List.append_nil _).symm, rfl, hserver⟩, List.forall_mem_nil _⟩

theorem Frame.unkept_of_event {e : Event} (he : e ≠ .commit) (hlog : w'.log = w.log ++ [e])
    (hserver : w'.server = (s.server.hear e w.server).2) (hrecords : w'.records = w.records) :
    (Frame.unkept s).rel w w' :=
  ⟨hrecords, _, Heard.single hlog hserver, List.forall_mem_singleton.2 he⟩

theorem Frame.unkept_send (c : Nat) (r : Request) : (Frame.unkept s).Keeps s (send c r) :=
  Frame.keeps_send fun ps _ => Frame.unkept_of_event
    (e := .sent r (r.prepare s.config.dialect).text ps) nofun (log_answered r ps)
    (server_answered r ps) (records_answered r ps)

theorem Frame.unkept_lends (s : Setting σ) : (Frame.unkept s).Lends s :=
  Frame.lends_of_events
    (fun _ _ hlog hserver hsame => Frame.unkept_of_still hlog hserver hsame.records)
    fun _ _ _ _ he hlog hserver hsame => Frame.unkept_of_event he hlog hserver hsame.records

section Lookups

variable {R : Frame σ}

theorem Frame.keeps_rows (hselect : ∀ q, R.Keeps s (send c (.select q))) (q : Query.Compiled) :
    R.Keeps s (rows c q) :=
  Frame.keeps_dialect (Frame.keeps_bind (Frame.keeps_execute (hselect _)) fun _ =>
    Frame.keeps_ofResult _)

theorem Frame.keeps_compile (schema : Schema) (p : Query.Plan) :
    R.Keeps s (compile schema p : Session σ _) := Frame.keeps_dialect (Frame.keeps_ofResult _)

theorem Frame.keeps_load (hselect : ∀ q, R.Keeps s (send c (.select q))) (schema : Schema)
    (entity : String) (key : Value) : R.Keeps s (load schema entity key c) := by
  refine Frame.keeps_bind (Frame.keeps_ofResult _) fun found => ?_
  refine Frame.keeps_bind ?_ fun row => Frame.keeps_ofResult _
  refine Frame.keeps_bind (Frame.keeps_compile schema _) fun q => ?_
  refine Frame.keeps_dialect ?_
  exact Frame.keeps_bind (Frame.keeps_execute (hselect _)) fun _ => Frame.keeps_ofResult _

theorem Frame.keeps_find (hselect : ∀ q, R.Keeps s (send c (.select q))) (schema : Schema)
    (p : Query.Plan) : R.Keeps s (find schema p c) := by
  refine Frame.keeps_bind (Frame.keeps_ofResult _) fun found => ?_
  refine Frame.keeps_bind ?_ fun row => Frame.keeps_ofResult _
  exact Frame.keeps_bind (Frame.keeps_compile schema _) fun q => Frame.keeps_rows hselect q

theorem Frame.keeps_reload (hselect : ∀ q, R.Keeps s (send c (.select q))) (schema : Schema)
    (entity : String) (key : Value) : R.Keeps s (reload schema entity key c) := by
  refine Frame.keeps_bind (Frame.keeps_load hselect schema entity key) fun found => ?_
  cases found with
  | some h => exact Frame.keeps_pure _
  | none => exact Frame.keeps_throw _

theorem Frame.keeps_overwrite (hsend : ∀ r, r.concernsRows = true → R.Keeps s (send c r))
    (table : Sql.Table) (h : Handle) : R.Keeps s (overwrite table h c) := by
  refine Frame.keeps_dialect (Frame.keeps_bind (Frame.keeps_ofResult _) fun key => ?_)
  dsimp only
  split
  · exact Frame.keeps_bind (Frame.keeps_execute (hsend _ rfl)) fun _ =>
      Frame.keeps_bind (Frame.keeps_ofResult _) fun _ => Frame.keeps_pure _
  · refine Frame.keeps_bind (Frame.keeps_ofResult _) fun assignments => ?_
    split
    · exact Frame.keeps_bind (Frame.keeps_execute (hsend _ rfl)) fun _ => Frame.keeps_pure _
    · exact Frame.keeps_throw _

end Lookups

theorem Frame.keeps_handle {R : Frame σ} (n : Nat) : R.Keeps s (handle n) :=
  Frame.keeps_of_still fun w => by
    rw [handle, run_bind_of_ok run_get]
    cases w.records[n]? <;> rfl

/-! ## Relationships -/

section Relationships

variable {R : Frame σ} (hrecords : ∀ w records, R.rel w { w with records })

include hrecords

theorem Frame.keeps_update (n : Nat) (f : Handle → Handle) : R.Keeps s (update n f) :=
  fun w => hrecords w _

theorem Frame.keeps_register (h : Handle) : R.Keeps s (register h) := fun w => hrecords w _

theorem Frame.keeps_prepareLink (st : Store) (n : Nat) (name : String) (m : Nat) :
    R.Keeps s (prepareLink st n name m) := by
  refine Frame.keeps_bind (Frame.keeps_handle n) fun h => ?_
  refine Frame.keeps_bind (Frame.keeps_handle m) fun g => ?_
  refine Frame.keeps_bind (Frame.keeps_ofResult _) fun row => ?_
  exact Frame.keeps_bind (Frame.keeps_update hrecords n _) fun _ => Frame.keeps_pure _

variable (hselect : ∀ q, R.Keeps s (send c (.select q)))

include hselect

theorem Frame.keeps_linked (schema : Schema) (h : Handle) (l : ManyLink) :
    R.Keeps s (linked schema h l c) := by
  refine Frame.keeps_bind (Frame.keeps_ofResult _) fun target => ?_
  split
  · exact Frame.keeps_pure _
  · refine Frame.keeps_dialect (Frame.keeps_bind (Frame.keeps_ofResult _) fun q => ?_)
    refine Frame.keeps_bind (Frame.keeps_rows hselect q) fun found => ?_
    refine Frame.keeps_bind (Frame.keeps_ofResult _) fun handles => ?_
    exact Frame.keeps_bind (Frame.keeps_mapM (Frame.keeps_register hrecords) handles) fun _ => Frame.keeps_pure _

theorem Frame.keeps_referenced (schema : Schema) (h : Handle) (r : Reference) :
    R.Keeps s (referenced schema h r c) := by
  refine Frame.keeps_bind (Frame.keeps_ofResult _) fun _ => ?_
  refine Frame.keeps_bind (Frame.keeps_ofResult _) fun key => ?_
  split
  · exact Frame.keeps_pure _
  · refine Frame.keeps_bind (Frame.keeps_load hselect schema r.target key) fun g => ?_
    cases g with
    | some g => exact Frame.keeps_bind (Frame.keeps_register hrecords g) fun _ => Frame.keeps_pure _
    | none => exact Frame.keeps_pure _

theorem Frame.keeps_related (schema : Schema) (n : Nat) (name : String) :
    R.Keeps s (related schema n name c) := by
  refine Frame.keeps_bind (Frame.keeps_handle n) fun h => ?_
  refine Frame.keeps_bind (Frame.keeps_ofResult _) fun r => ?_
  cases h.cached? name with
  | some known => exact Frame.keeps_pure _
  | none =>
    refine Frame.keeps_bind ?_ fun found =>
      Frame.keeps_bind (Frame.keeps_update hrecords n _) fun _ => Frame.keeps_pure _
    cases r with
    | many l => exact Frame.keeps_linked hrecords hselect schema h l
    | single r => exact Frame.keeps_referenced hrecords hselect schema h r

omit hselect

variable (hsend : ∀ r, r.concernsRows = true → R.Keeps s (send c r))

include hsend

theorem Frame.keeps_link (st : Store) (n : Nat) (name : String) (m : Nat) :
    R.Keeps s (link st n name m c) := by
  refine Frame.keeps_dialect (Frame.keeps_bind (Frame.keeps_prepareLink hrecords st n name m) ?_)
  intro row
  refine Frame.keeps_bind (Frame.keeps_ofResult _) fun owner => ?_
  refine Frame.keeps_bind (Frame.keeps_execute (hsend _ rfl)) fun reply => ?_
  cases reply.rows with
  | cons r rest => exact Frame.keeps_bind (Frame.keeps_ofResult _) fun _ => Frame.keeps_pure _
  | nil =>
    refine Frame.keeps_bind (Frame.keeps_ofResult _) fun assignments => ?_
    exact Frame.keeps_bind (Frame.keeps_execute (hsend _ rfl)) fun _ => Frame.keeps_pure _

theorem Frame.keeps_unlink (st : Store) (n : Nat) (name : String) (m : Nat) :
    R.Keeps s (unlink st n name m c) :=
  Frame.keeps_bind (Frame.keeps_prepareLink hrecords st n name m) fun _ =>
    Frame.keeps_bind (Frame.keeps_execute (hsend _ rfl)) fun _ => Frame.keeps_pure _

end Relationships

/-! ## Handles that change last -/

/-- If the operation succeeds, the last that it does is to change a handle. Until then, and if it
fails, it keeps the frame. -/
def MarksLast (R : Frame σ) (s : Setting σ) (n : Nat) (change : (Handle → Handle) → Prop)
    (x : Session σ Unit) : Prop :=
  ∀ w, (∃ e v, run x s w = (.error e, v) ∧ R.rel w v) ∨
    ∃ f u, change f ∧ R.rel w u ∧
      run x s w = (.ok (), { u with records := u.records.modify n f })

namespace MarksLast

variable {R : Frame σ}

theorem update {f : Handle → Handle} (h : change f) : MarksLast R s n change (update n f) :=
  fun w => Or.inr ⟨f, w, h, R.refl w, rfl⟩

theorem bind {x : Session σ α} {f : α → Session σ Unit} (hx : R.Keeps s x)
    (hf : ∀ a, MarksLast R s n change (f a)) : MarksLast R s n change (x >>= f) := by
  intro w
  have hbefore := hx w
  rw [run_bind]
  rcases hrun : run x s w with ⟨e | a, v⟩ <;> rw [hrun] at hbefore
  · exact Or.inl ⟨e, v, rfl, hbefore⟩
  · refine (hf a v).imp ?_ ?_
    · rintro ⟨e, v', hrest, hafter⟩
      exact ⟨e, v', hrest, R.trans hbefore hafter⟩
    · rintro ⟨g, u, hg, hafter, hrest⟩
      exact ⟨g, u, hg, R.trans hbefore hafter, hrest⟩

/-- What is done until a handle changes, and the change, keep a frame that does not look at
handles. -/
theorem keeps {x : Session σ Unit} (h : MarksLast R s n change x)
    (hrecords : ∀ w records, R.rel w { w with records }) : R.Keeps s x := by
  intro w
  rcases h w with ⟨e, v, hrun, hrel⟩ | ⟨f, u, -, hrel, hrun⟩ <;> rw [hrun]
  · exact hrel
  · exact R.trans hrel (hrecords u _)

theorem guarded {p : Prop} [Decidable p] {e : Error} {f : Unit → Session σ Unit}
    (h : MarksLast R s n change (f ())) :
    MarksLast R s n change (if p then MonadExcept.throw e >>= f else f ()) := by
  split
  · exact bind (Frame.keeps_throw e) fun _ => h
  · exact h

end MarksLast

/-- What a frame has to keep for the operations on records. -/
structure Frame.Stores (R : Frame σ) (s : Setting σ) (c : Nat) : Prop where
  send : ∀ r, r.concernsRows = true → R.Keeps s (send c r)
  identifiers : ∀ w identifiers, R.rel w { w with identifiers }

theorem Frame.unkept_stores (s : Setting σ) (c : Nat) : (Frame.unkept s).Stores s c :=
  ⟨fun r _ => Frame.unkept_send c r, fun _ _ => Frame.unkept_of_still rfl rfl rfl⟩

section Marking

variable {R : Frame σ} (hR : R.Stores s c)

include hR

theorem marksLast_insert (st : Store) (n : Nat) :
    MarksLast R s n Write.save.Marks (insert st n c) := by
  refine .bind (Frame.keeps_of_still fun _ => rfl) fun d => ?_
  refine .bind (Frame.keeps_handle n) fun h => ?_
  extract_lets rest
  have hrest : ∀ fresh, MarksLast R s n Write.save.Marks (rest fresh) := by
    intro fresh
    refine .bind (Frame.keeps_ofResult _) fun i => ?_
    refine .bind (Frame.keeps_ofResult _) fun table => ?_
    refine .bind (Frame.keeps_ofResult _) fun assignments => ?_
    refine .bind (Frame.keeps_execute (hR.send _ rfl)) fun reply => ?_
    dsimp only
    split
    · exact .update ⟨_, rfl⟩
    · exact .bind (Frame.keeps_reload (fun _ => hR.send _ rfl) _ _ _) fun stored =>
        .update ⟨stored, rfl⟩
  split
  · exact .bind (fun w => hR.identifiers w _) hrest
  · exact .bind (Frame.keeps_pure _) hrest

theorem marksLast_saveChanges (st : Store) (n : Nat) :
    MarksLast R s n Write.save.Marks (saveChanges st n c) := by
  refine .bind (Frame.keeps_handle n) fun h => ?_
  refine .bind (Frame.keeps_ofResult _) fun table => ?_
  refine .bind (Frame.keeps_overwrite hR.send table h) fun count => ?_
  exact .guarded (.update ⟨[], rfl⟩)

theorem marksLast_delete (st : Store) (n : Nat) :
    MarksLast R s n Write.delete.Marks (delete st n c) := by
  refine .bind (Frame.keeps_handle n) fun h => .guarded ?_
  refine .bind (Frame.keeps_ofResult _) fun table => ?_
  refine .bind (Frame.keeps_ofResult _) fun key => ?_
  refine .bind (Frame.keeps_execute (hR.send _ rfl)) fun reply => ?_
  exact .guarded (.update rfl)

theorem marksLast_save (st : Store) (n : Nat) :
    MarksLast R s n Write.save.Marks (save st n c) := by
  refine .bind (Frame.keeps_handle n) fun h => .bind (Frame.keeps_ofResult _) fun _ => ?_
  split
  · exact marksLast_insert hR st n
  · exact marksLast_saveChanges hR st n

end Marking

theorem marksLast_perform (o : Write) (st : Store) (n c : Nat) :
    MarksLast (Frame.unkept s) s n o.Marks (o.perform st n c) := by
  cases o with
  | save => exact marksLast_save (Frame.unkept_stores s c) st n
  | delete => exact marksLast_delete (Frame.unkept_stores s c) st n

/-! ## Transactions that fail -/

/-- A call that fails, by what was said: nothing is kept, and no handle has changed unless COMMIT
was refused. If it was, a handle has changed as if it had not been. -/
structure Failed (s : Setting σ) (n : Nat) (change : (Handle → Handle) → Prop) (t : List Exchange)
    (w w' : World σ) : Prop where
  heard : Heard s t w w'
  unkept : ∀ x ∈ t, x.event = .commit → x.accepted = false
  unchanged : (∀ x ∈ t, x.event ≠ .commit) → w'.records = w.records
  refused : ∀ x ∈ t, x.event = .commit → ∃ f, change f ∧ w'.records = w.records.modify n f

theorem Failed.of_unkept (h : (Frame.unkept s).rel w w') : ∃ t, Failed s n change t w w' := by
  obtain ⟨hrecords, t, hheard, hnone⟩ := h
  exact ⟨t, hheard, fun x hx he => absurd he (hnone x hx), fun _ => hrecords,
    fun x hx he => absurd he (hnone x hx)⟩

/-- What keeps nothing may come before a failure and after it. -/
theorem Failed.between (hu : (Frame.unkept s).rel u v) (h : ∃ t, Failed s n change t v w)
    (hw : (Frame.unkept s).rel w w') : ∃ t, Failed s n change t u w' := by
  obtain ⟨hrecords, t₁, hheard₁, hnone₁⟩ := hu
  obtain ⟨t, hf⟩ := h
  obtain ⟨hrecords', t₂, hheard₂, hnone₂⟩ := hw
  have hmem : ∀ x ∈ t₁ ++ t ++ t₂, x.event = .commit → x ∈ t := by
    intro x hx he
    rcases List.mem_append.1 hx with hx | hx
    · rcases List.mem_append.1 hx with hx | hx
      · exact absurd he (hnone₁ x hx)
      · exact hx
    · exact absurd he (hnone₂ x hx)
  refine ⟨t₁ ++ t ++ t₂, (hheard₁.append hf.heard).append hheard₂,
    fun x hx he => hf.unkept x (hmem x hx he) he, fun hnone => ?_, fun x hx he => ?_⟩
  · have hnone' : ∀ x ∈ t, x.event ≠ .commit := fun x hx =>
      hnone x (List.mem_append_left _ (List.mem_append_right _ hx))
    rw [hrecords', hf.unchanged hnone', hrecords]
  · rw [hrecords', ← hrecords]
    exact hf.refused x (hmem x hx he) he

theorem failed_commit {f : Handle → Handle} (hf : change f)
    (h : (run (commit c) s { w with records := w.records.modify n f }).1 = .error e) :
    ∃ t, Failed s n change t w
      (run (commit c) s { w with records := w.records.modify n f }).2 := by
  rw [run_commit] at h ⊢
  split at h
  case isFalse hbusy => cases h
  case isTrue hbusy =>
    rw [if_pos hbusy]
    cases hcommit : (s.server.commit w.server).1 with
    | ok a =>
      rw [hcommit] at h
      cases h
    | error refusal =>
      refine ⟨[⟨.commit, .error refusal⟩], ?_, List.forall_mem_singleton.2 fun _ => rfl,
        fun hnone => absurd rfl (hnone _ List.mem_cons_self),
        List.forall_mem_singleton.2 fun _ => ⟨f, hf, rfl⟩⟩
      have hreply : (s.server.hear .commit w.server).1 = .error refusal := by
        rw [Server.hear, hcommit]
        rfl
      rw [← hreply]
      exact Heard.single rfl rfl

theorem failed_inside {body : Session σ Unit} (hbody : MarksLast (Frame.unkept s) s n change body)
    (immediate : Bool) (h : (run (inside c immediate body) s w).1 = .error e) :
    ∃ t, Failed s n change t w (run (inside c immediate body) s w).2 := by
  have hbegin := (Frame.unkept_lends s).keeps_begin c immediate w
  rw [inside, run_bind, run_classifying] at h ⊢
  rcases hrun : run (begin c immediate) s w with ⟨e | ⟨⟩, u⟩ <;> rw [hrun] at hbegin h
  · exact Failed.of_unkept hbegin
  · dsimp only [Except.mapError] at h ⊢
    rw [run_bind_of_ok (run_attempt body)] at h ⊢
    rcases hbody u with ⟨e, v, hv, hrel⟩ | ⟨f, v, hf, hrel, hv⟩ <;> rw [hv] at h ⊢ <;>
      dsimp only at h ⊢
    · rw [run_bind_of_ok run_rollback, run_throw]
      exact Failed.of_unkept ((Frame.unkept s).trans ((Frame.unkept s).trans hbegin hrel)
        ((Frame.unkept_lends s).ended c v))
    · rw [run_bind, run_classifying] at h ⊢
      rcases hcommit : run (commit c) s { v with records := v.records.modify n f } with ⟨e | ⟨⟩, v'⟩
      · have hfailed := failed_commit (s := s) (c := c) (w := v) hf (congrArg Prod.fst hcommit)
        rw [hcommit] at hfailed
        exact Failed.between ((Frame.unkept s).trans hbegin hrel) hfailed ((Frame.unkept s).refl _)
      · rw [hcommit] at h
        cases h

theorem failed_transaction {body : Nat → Session σ Unit}
    (hbody : ∀ c, MarksLast (Frame.unkept s) s n change (body c))
    (h : (run (transaction body) s w).1 = .error e) :
    ∃ t, Failed s n change t w (run (transaction body) s w).2 := by
  have hcheckout := (Frame.unkept_lends s).keeps_checkout w
  rw [transaction, run_withConnection] at h ⊢
  rcases hrun : run checkout s w with ⟨e | c, u⟩ <;> rw [hrun] at hcheckout h
  · exact Failed.of_unkept hcheckout
  · exact Failed.between hcheckout (failed_inside (hbody c) false h)
      ((Frame.unkept_lends s).returned c _)

/-- A call that saves or deletes a record and fails has kept nothing, whatever the database answers.
All handles are what they were, unless it is COMMIT that was refused: then the record is taken for
written though it is not. -/
theorem failed_call (o : Write) (schema : Schema) (n : Nat) (w : World σ)
    (h : (run (o.call schema n) s w).1.isOk = false) :
    ∃ t, Failed s n o.Marks t w (run (o.call schema n) s w).2 := by
  rw [Write.call, store, bind_assoc, run_bind_of_ok run_dialect, bind_assoc, run_bind,
    run_ofResult] at h ⊢
  cases hst : Sql.Tables.ofSchema s.config.dialect schema with
  | error e => exact Failed.of_unkept ((Frame.unkept s).refl w)
  | ok tables =>
    simp only [hst, pure_bind] at h ⊢
    cases hrun : (run (transaction (o.perform ⟨schema, tables⟩ n)) s w).1 with
    | error e => exact failed_transaction (marksLast_perform o ⟨schema, tables⟩ n) hrun
    | ok a =>
      rw [hrun] at h
      cases h

/-- A database that takes everything but refuses to keep it. -/
def fleeting : Setting Unit where
  server :=
    { connect := fun _ => (.ok (), ())
      answer := fun _ _ _ => (.ok {}, ())
      commit := fun _ => (.error ⟨"OperationalError", "refused", []⟩, ())
      rollback := id }
  config := { dialect := .sqlite, target := "fleeting.db", acquireTimeout := .zero }
  now := .epoch

/-- A new record with one value. -/
def draft : Handle where
  entity := { name := "Note", fields := [
    { name := "id", type := .bigint, primaryKey := true, auto := true },
    { name := "text", type := .text }] }
  values := [("id", .null), ("text", .text "draft")]
  dirty := ["text"]

theorem failed_call_fleeting :
    let schema : Schema := { entities := [draft.entity] }
    let result := run (Write.save.call schema 0) fleeting { server := (), records := [draft] }
    result.1.isOk = false ∧ draft.state = .new ∧
      result.2.records.map (fun h => (h.state, h.dirty, h.display)) =
        [(.persisted, [], "<Note persisted pk=1>")] ∧
      ∃ t, Failed fleeting 0 Write.save.Marks t { server := (), records := [draft] } result.2 := by
  refine ⟨by decide +kernel, rfl, by decide +kernel, failed_call .save _ 0 _ (by decide +kernel)⟩

end Session

end SchemaLedger
