import SchemaLedger.Proofs.Record.Insertion
import SchemaLedger.Proofs.Session.Calls

set_option autoImplicit false

/-!
# The life of a handle

What one call makes of the handles of a session, and from it what a program does to them. A handle
moves from new to persisted to deleted; its key is fixed once it is persisted, and a deleted handle is
never written again. The columns of a handle are those of its entity as long as no store saves it
whose schema knows more columns of that entity.
-/
namespace SchemaLedger

/-- The schema knows no more columns of an entity than the entity has. -/
def Schema.AddsNothing (s : Schema) (e : Entity) : Prop :=
  ∀ e', s.entity e.name = .ok e' → ∀ c ∈ e'.columnNames, c ∈ e.columnNames

/-- A handle that a store of a schema has just given out. -/
structure Handle.Given (s : Schema) (h : Handle) : Prop where
  known : ∃ name, s.entity name = .ok h.entity
  begins : ∃ started, h.Begins h.entity started
  untouched : h.state = .new → h.Untouched

theorem Handle.Begins.given {s : Schema} {h : Handle} {e : Entity} {name : String}
    {started : RecordState} (he : s.entity name = .ok e) (hb : h.Begins e started)
    (hu : started = .new → h.Untouched) : h.Given s := by
  obtain rfl := hb.entity
  exact ⟨⟨name, he⟩, ⟨started, hb⟩, fun hn => hu (hb.state.symm.trans hn)⟩

namespace Session

variable {σ α : Type} {s : Setting σ} {c n : Nat} {u v w w' : World σ} {h h' : Handle}
  {call : Call}

/-- What a call may make of the handle of a number. -/
inductive Touched (call : Call) (n : Nat) (h : Handle) : Handle → Prop where
  | same : Touched call n h h
  | assigned (column : String) (value : Value) (h' : Handle) (hset : h.set column value = .ok h') :
    Touched call n h h'
  | saved (values : Entries) (hact : call.act = .save n) (hlive : h.state ≠ .deleted)
    (hold : h.state = .persisted → values = [])
    (hcolumns : h.Fits → call.schema.AddsNothing h.entity →
      ∀ c ∈ values.map (·.1), c ∈ h.columns) : Touched call n h (h.persisted values)
  | deleted (hstate : h.state = .persisted) : Touched call n h h.deleted
  | found (related : List (String × Related)) : Touched call n h { h with related }

namespace Touched

theorem later (ht : Touched call n h h') : h.Later h' := by
  cases ht with
  | same => exact .refl h
  | assigned column value _ hset => exact Handle.later_set hset
  | saved values hact hlive hold => exact Handle.later_persisted hlive hold
  | deleted hstate => exact Handle.later_deleted h
  | found related => exact .of_values rfl (le_refl _) rfl

theorem rank_le (ht : Touched call n h h') : h'.state.rank ≤ h.state.rank + 1 := by
  cases ht with
  | same => omega
  | assigned column value _ hset =>
    obtain ⟨-, -, -, rfl⟩ := Handle.set_eq_ok.1 hset
    exact Nat.le_succ _
  | saved values hact hlive hold => exact Nat.le_add_left _ _
  | deleted hstate => rw [hstate]; exact le_refl _
  | found related => exact Nat.le_succ _

theorem fits (ht : Touched call n h h') (hf : h.Fits)
    (hadds : call.act = .save n → call.schema.AddsNothing h.entity) : h'.Fits := by
  cases ht with
  | same => exact hf
  | assigned column value _ hset => exact Handle.fits_set hf hset
  | saved values hact hlive hold hcolumns =>
    exact Handle.fits_persisted hf (hcolumns hf (hadds hact))
  | deleted hstate => exact Handle.fits_deleted hf
  | found related => exact ⟨hf.columns, hf.dirty⟩

end Touched

/-- What a call does to the handles: it touches those that there are, and gives out more. -/
structure Turn (call : Call) (w w' : World σ) : Prop where
  touched : ∀ n h, w.records[n]? = some h → ∃ h', w'.records[n]? = some h' ∧ Touched call n h h'
  given : ∀ n h, w.records.length ≤ n → w'.records[n]? = some h → h.Given call.schema

namespace Turn

theorem of_given {given : List Handle} (hr : w'.records = w.records ++ given)
    (hg : ∀ g ∈ given, g.Given call.schema) : Turn call w w' where
  touched n h hn := by
    obtain ⟨hlt, -⟩ := List.getElem?_eq_some_iff.1 hn
    exact ⟨h, by rw [hr, List.getElem?_append_left hlt, hn], .same⟩
  given n h hle hn := by
    rw [hr, List.getElem?_append_right hle] at hn
    exact hg h (List.mem_of_getElem? hn)

theorem of_same (hr : w'.records = w.records) : Turn call w w' :=
  of_given (hr.trans (List.append_nil _).symm) (List.forall_mem_nil _)

theorem modify {m : Nat} {g : Handle} {f : Handle → Handle} (ht : Turn call w u)
    (hm : w.records[m]? = some g) (hu : u.records[m]? = some g) (hf : Touched call m g (f g))
    (hr : w'.records = u.records.modify m f) : Turn call w w' where
  touched n h hn := by
    by_cases heq : m = n
    · subst heq
      obtain rfl := Option.some.inj (hm.symm.trans hn)
      exact ⟨f g, by rw [hr, List.getElem?_modify_eq, hu]; rfl, hf⟩
    · obtain ⟨h', hh', htouched⟩ := ht.touched n h hn
      exact ⟨h', by rw [hr, List.getElem?_modify_ne _ _ heq, hh'], htouched⟩
  given n h hle hn := by
    obtain ⟨hlt, -⟩ := List.getElem?_eq_some_iff.1 hm
    rw [hr, List.getElem?_modify_ne _ _ (by omega)] at hn
    exact ht.given n h hle hn

theorem around (hu : u.records = w.records) (ht : Turn call u v) (hv : w'.records = v.records) :
    Turn call w w' where
  touched n h hn := by
    rw [hv]
    exact ht.touched n h (hu ▸ hn)
  given n h hle hn := ht.given n h (hu ▸ hle) (hv ▸ hn)

end Turn

/-! ## Handles in the course of a call -/

/-- The handles stay as they are. -/
def Frame.held : Frame σ where
  rel w w' := w'.records = w.records
  refl _ := rfl
  trans h h' := h'.trans h

theorem Frame.held_send (c : Nat) (r : Request) : (Frame.held (σ := σ)).Keeps s (send c r) :=
  Frame.keeps_send fun ps _ => records_answered r ps

theorem records_of_reload {schema : Schema} {entity : String} {key : Value} {stored : Entries}
    (hrun : run (reload schema entity key c) s w = (.ok stored, w')) : w'.records = w.records := by
  have hkeep := Frame.keeps_reload (fun _ => Frame.held_send (s := s) c _) schema entity key w
  rw [hrun] at hkeep
  exact hkeep

theorem records_of_execute {r : Request} {reply : Reply}
    (hrun : run (execute c r) s w = (.ok reply, w')) : w'.records = w.records := by
  have hkeep := Frame.keeps_execute (Frame.held_send (s := s) c r) w
  rw [hrun] at hkeep
  exact hkeep

theorem records_of_overwrite {t : Sql.Table} {count : Int}
    (hrun : run (overwrite t h c) s w = (.ok count, w')) : w'.records = w.records := by
  have hkeep := Frame.keeps_overwrite (fun r _ => Frame.held_send (s := s) c r) t h w
  rw [hrun] at hkeep
  exact hkeep

theorem records_of_insert {st : Store} (hn : w.records[n]? = some h)
    (hrun : run (insert st n c) s w = (.ok (), w')) :
    ∃ values, (h.Fits → st.schema.AddsNothing h.entity →
        ∀ column ∈ values.map (·.1), column ∈ h.columns) ∧
      w'.records = w.records.modify n (·.persisted values) := by
  obtain ⟨fresh, ids, i, t, assignments, reply, v, stored, u, hi, -, -, hexecute, hlast, rfl⟩ :=
    insert_eq_ok hn hrun
  have hv : v.records = w.records := records_of_execute (w := { w with identifiers := ids }) hexecute
  refine ⟨stored, fun hf hadds column hc => ?_, ?_⟩
  · rcases hlast with ⟨-, rfl, -⟩ | ⟨-, hreload⟩
    · exact mem_columns_of_settled hf hi hc
    · obtain ⟨g, hload, rfl⟩ := reload_eq_ok.1 hreload
      obtain ⟨e, he, hbegins⟩ := begins_of_load hload
      rw [hf.columns]
      refine hadds e he column ?_
      rw [← hbegins.entity, ← hbegins.fits.columns]
      exact hc
  · rcases hlast with ⟨-, -, rfl⟩ | ⟨-, hreload⟩
    · rw [← hv]
    · rw [← hv, ← records_of_reload hreload]

theorem records_of_saveChanges {st : Store} (hn : w.records[n]? = some h)
    (hrun : run (saveChanges st n c) s w = (.ok (), w')) :
    w'.records = w.records.modify n (·.persisted) := by
  obtain ⟨t, count, u, -, hoverwrite, -, rfl⟩ := saveChanges_eq_ok hn hrun
  rw [← records_of_overwrite hoverwrite]

theorem records_of_delete {st : Store} (hn : w.records[n]? = some h)
    (hrun : run (delete st n c) s w = (.ok (), w')) :
    h.state = .persisted ∧ w'.records = w.records.modify n (·.deleted) := by
  obtain ⟨t, key, condition, reply, u, hstate, -, -, hexecute, -, rfl⟩ := delete_eq_ok hn hrun
  exact ⟨hstate, by rw [← records_of_execute hexecute]⟩

theorem records_of_save {st : Store} (hn : w.records[n]? = some h)
    (hrun : run (save st n c) s w = (.ok (), w')) :
    ∃ values, h.state ≠ .deleted ∧ (h.state = .persisted → values = []) ∧
      (h.Fits → st.schema.AddsNothing h.entity →
        ∀ column ∈ values.map (·.1), column ∈ h.columns) ∧
      w'.records = w.records.modify n (·.persisted values) := by
  rw [run_save st hn] at hrun
  cases hstate : h.state with
  | new =>
    rw [hstate] at hrun
    obtain ⟨values, hcolumns, hrecords⟩ := records_of_insert hn hrun
    exact ⟨values, nofun, nofun, hcolumns, hrecords⟩
  | persisted =>
    rw [hstate] at hrun
    exact ⟨[], nofun, fun _ => rfl, fun _ _ => List.forall_mem_nil _,
      records_of_saveChanges hn hrun⟩
  | deleted =>
    rw [hstate] at hrun
    cases hrun

theorem turn_save {st : Store} (hact : call.act = .save n) (hst : st.schema = call.schema)
    (w : World σ) : Turn call w (run (save st n c) s w).2 := by
  rcases marksLast_save (Frame.unkept_stores s c) st n w with ⟨e, v, hrun, hrel⟩ | ⟨f, u, -, -, hrun⟩
  · rw [hrun]
    exact .of_same hrel.1
  · obtain ⟨h, hn, -⟩ := exists_handle hrun
    obtain ⟨values, hlive, hold, hcolumns, hrecords⟩ := records_of_save hn hrun
    rw [hrun]
    exact (Turn.of_same rfl).modify hn hn (.saved values hact hlive hold (hst ▸ hcolumns)) hrecords

theorem turn_delete {st : Store} (w : World σ) : Turn call w (run (delete st n c) s w).2 := by
  rcases marksLast_delete (Frame.unkept_stores s c) st n w with ⟨e, v, hrun, hrel⟩ | ⟨f, u, -, -, hrun⟩
  · rw [hrun]
    exact .of_same hrel.1
  · obtain ⟨h, hn, -⟩ := exists_handle hrun
    obtain ⟨hstate, hrecords⟩ := records_of_delete hn hrun
    rw [hrun]
    exact (Turn.of_same rfl).modify hn hn (.deleted hstate) hrecords

/-! ## Relationships -/

theorem run_mapM_register (handles : List Handle) (w : World σ) :
    ∃ ns, run (handles.mapM register) s w = (.ok ns, { w with records := w.records ++ handles }) ∧
      List.Forall₂ (fun n h => w.records.length ≤ n ∧ (w.records ++ handles)[n]? = some h) ns
        handles := by
  induction handles generalizing w with
  | nil => exact ⟨[], by rw [List.append_nil]; rfl, .nil⟩
  | cons g rest ih =>
    obtain ⟨ns, hrest, hnumbers⟩ := ih { w with records := w.records ++ [g] }
    rw [List.append_assoc, List.singleton_append] at hrest hnumbers
    refine ⟨w.records.length :: ns, ?_, .cons ⟨le_refl _, by simp⟩ (hnumbers.imp ?_)⟩
    · rw [List.mapM_cons, run_bind_of_ok (run_register g), run_bind_of_ok hrest, run_pure]
    · rintro n h ⟨hle, hn⟩
      rw [List.length_append] at hle
      exact ⟨(Nat.le_add_right _ _).trans hle, hn⟩

/-- Following a relationship writes nothing and changes no handle, but gives out those it finds. -/
def Finds (x : Session σ α) (schema : Schema) (s : Setting σ) (w : World σ) : Prop :=
  ∃ found v, Frame.unwritten.rel w v ∧ (∀ g ∈ found, g.Given schema) ∧
    (run x s w).2 = { v with records := v.records ++ found }

theorem Finds.of_unwritten {schema : Schema} {x : Session σ α}
    (hx : Frame.unwritten.rel w (run x s w).2) : Finds x schema s w := by
  refine ⟨[], _, hx, List.forall_mem_nil _, ?_⟩
  rw [List.append_nil]

theorem Finds.bind {schema : Schema} {β : Type} {x : Session σ α} {f : α → Session σ β}
    (hx : Frame.unwritten.rel w (run x s w).2)
    (hf : ∀ a v, run x s w = (.ok a, v) → Finds (f a) schema s v) : Finds (x >>= f) schema s w := by
  rcases hrun : run x s w with ⟨e | a, v⟩ <;> rw [hrun] at hx
  · refine .of_unwritten ?_
    rw [run_bind, hrun]
    exact hx
  · obtain ⟨found, v', hrel, hfound, hlast⟩ := hf a v hrun
    refine ⟨found, v', Frame.unwritten.trans hx hrel, hfound, ?_⟩
    rw [run_bind_of_ok hrun, hlast]

theorem finds_linked (schema : Schema) (h : Handle) (l : ManyLink) (c : Nat) (w : World σ) :
    Finds (linked schema h l c) schema s w := by
  refine .bind (Frame.keeps_ofResult _ w) fun target v hentity => ?_
  rw [run_ofResult] at hentity
  have htarget := (liftSchema_eq_ok _ _).1 (congrArg Prod.fst hentity)
  split
  · exact .of_unwritten (Frame.keeps_pure _ v)
  refine .bind (Frame.keeps_of_still (fun _ => rfl) v) fun d v _ => ?_
  refine .bind (Frame.keeps_ofResult _ v) fun q v _ => ?_
  refine .bind (Frame.keeps_rows (Frame.unwritten_select c) q v) fun found v _ => ?_
  refine .bind (Frame.keeps_ofResult _ v) fun handles v' hhandles => ?_
  obtain ⟨ns, hregister, -⟩ := run_mapM_register (s := s) handles v'
  rw [run_ofResult] at hhandles
  refine ⟨handles, v', Frame.unwritten.refl v', ?_, ?_⟩
  · have hgiven : ∀ values g, Handle.make target values .persisted = .ok g → g.Given schema :=
      fun _ _ hmake => (Handle.begins_make hmake).given htarget nofun
    exact Outcome.forall_of_mapM hgiven (congrArg Prod.fst hhandles)
  · rw [run_bind_of_ok hregister, run_pure]

theorem finds_referenced (schema : Schema) (h : Handle) (r : Reference) (c : Nat) (w : World σ) :
    Finds (referenced schema h r c) schema s w := by
  refine .bind (Frame.keeps_ofResult _ w) fun _ v _ => ?_
  refine .bind (Frame.keeps_ofResult _ v) fun key v _ => ?_
  split
  · exact .of_unwritten (Frame.keeps_pure _ v)
  refine .bind (Frame.keeps_load (Frame.unwritten_select c) schema r.target key v)
    fun found v' hload => ?_
  cases found with
  | none => exact .of_unwritten (Frame.keeps_pure _ v')
  | some g =>
    obtain ⟨e, he, hbegins⟩ := begins_of_load hload
    exact ⟨[g], v', Frame.unwritten.refl v', List.forall_mem_singleton.2 (hbegins.given he nofun),
      rfl⟩

theorem finds_follow (schema : Schema) (h : Handle) (r : Relationship) (c : Nat) (w : World σ) :
    Finds (follow schema h r c) schema s w := by
  cases r with
  | many l => exact finds_linked schema h l c w
  | single r => exact finds_referenced schema h r c w

theorem turn_related (m : Nat) (name : String) (c : Nat) (w : World σ) :
    Turn call w (run (related call.schema m name c) s w).2 := by
  cases hm : w.records[m]? with
  | none =>
    rw [related, run_bind, run_handle_of_none hm]
    exact .of_same rfl
  | some h =>
    rw [related, run_bind_of_ok (run_handle_of_some hm), run_bind, run_ofResult]
    cases hr : relationshipOf h name with
    | error e => exact .of_same rfl
    | ok r =>
      dsimp only
      cases h.cached? name with
      | some known => exact .of_same rfl
      | none =>
        obtain ⟨found, v, ⟨hv, -⟩, hfound, hlast⟩ := finds_follow (s := s) call.schema h r c w
        have hgiven : Turn call w (run (follow call.schema h r c) s w).2 :=
          .of_given (by rw [hlast, hv]) hfound
        dsimp only
        rw [run_bind]
        rcases hrun : run (follow call.schema h r c) s w with ⟨e | answer, u⟩ <;> rw [hrun] at hgiven
        · exact hgiven
        · have hu : u.records[m]? = some h := by
            have hrecords : u.records = w.records ++ found := by
              rw [← hv]
              exact congrArg World.records ((congrArg Prod.snd hrun).symm.trans hlast)
            rw [hrecords, List.getElem?_append_left (List.getElem?_eq_some_iff.1 hm).1, hm]
          exact hgiven.modify hm hu (.found _) rfl

theorem linkRow_eq_ok {st : Store} {name : String} {target : Handle}
    {row : Sql.Table × Sql.Condition} (hrow : linkRow st h name target = .ok row) :
    h.state = .persisted ∧ target.state = .persisted := by
  rw [linkRow, Outcome.bind_eq_ok] at hrow
  obtain ⟨r, -, hrow⟩ := hrow
  cases r with
  | single r => cases hrow
  | many l =>
    dsimp only at hrow
    split at hrow
    · cases hrow
    split at hrow
    case h_1 => cases hrow
    case h_2 hnone => simpa using hnone

/-- The preparation of a link fails and does nothing, or the link has a row. -/
theorem prepareLink_cases (st : Store) (m : Nat) (name : String) (target : Nat) (w : World σ) :
    (∃ e, run (prepareLink st m name target) s w = (.error e, w)) ∨
    ∃ row h g, run (prepareLink st m name target) s w =
        (.ok (row.1, row.2, h, g), { w with records := w.records.modify m (·.forget name) }) ∧
      w.records[m]? = some h ∧ w.records[target]? = some g ∧ linkRow st h name g = .ok row := by
  cases hm : w.records[m]? with
  | none => exact Or.inl ⟨_, by rw [prepareLink, run_bind, run_handle_of_none hm]⟩
  | some h =>
  cases ht : w.records[target]? with
  | none =>
    refine Or.inl ⟨.defect .key "", ?_⟩
    rw [prepareLink, run_bind_of_ok (run_handle_of_some hm), run_bind, run_handle_of_none ht]
  | some g =>
  cases hrow : linkRow st h name g with
  | error e =>
    refine Or.inl ⟨e, ?_⟩
    rw [prepareLink, run_bind_of_ok (run_handle_of_some hm), run_bind_of_ok (run_handle_of_some ht),
      run_bind, run_ofResult, hrow]
  | ok row =>
    refine Or.inr ⟨row, h, g, ?_, rfl, rfl, hrow⟩
    rw [prepareLink, run_bind_of_ok (run_handle_of_some hm), run_bind_of_ok (run_handle_of_some ht),
      run_bind, run_ofResult, hrow]
    rfl

/-- What is done with a link changes its owner's memory and no other handle. -/
theorem turn_prepared {st : Store} {m : Nat} {name : String} {target : Nat}
    {f : Sql.Table × Sql.Condition × Handle × Handle → Session σ α}
    (hf : ∀ row, Frame.held.Keeps s (f row)) (w : World σ) :
    Turn call w (run (prepareLink st m name target >>= f) s w).2 := by
  rcases prepareLink_cases (s := s) st m name target w with
    ⟨e, he⟩ | ⟨row, h, g, hok, hm, -, -⟩
  · rw [run_bind, he]
    exact .of_same rfl
  · rw [run_bind_of_ok hok]
    exact (Turn.of_same (w := w) rfl).modify hm hm (.found _) (hf _ _)

theorem turn_link (st : Store) (m : Nat) (name : String) (target c : Nat) (w : World σ) :
    Turn call w (run (link st m name target c) s w).2 := by
  rw [link, run_bind_of_ok run_dialect]
  refine turn_prepared (fun row => ?_) w
  refine Frame.keeps_bind (Frame.keeps_ofResult _) fun owner => ?_
  refine Frame.keeps_bind (Frame.keeps_execute (Frame.held_send c _)) fun reply => ?_
  cases reply.rows with
  | cons r rest => exact Frame.keeps_bind (Frame.keeps_ofResult _) fun _ => Frame.keeps_pure _
  | nil =>
    refine Frame.keeps_bind (Frame.keeps_ofResult _) fun assignments => ?_
    exact Frame.keeps_bind (Frame.keeps_execute (Frame.held_send c _)) fun _ => Frame.keeps_pure _

theorem turn_unlink (st : Store) (m : Nat) (name : String) (target c : Nat) (w : World σ) :
    Turn call w (run (unlink st m name target c) s w).2 :=
  turn_prepared (fun _ => Frame.keeps_bind (Frame.keeps_execute (Frame.held_send c _)) fun _ =>
    Frame.keeps_pure _) w

/-! ## Calls -/

theorem turn_bind {β : Type} {x : Session σ α} {f : α → Session σ β}
    (hx : Turn call w (run x s w).2) (hf : ∀ a, Frame.held.Keeps s (f a)) :
    Turn call w (run (x >>= f) s w).2 := by
  rw [run_bind]
  rcases hrun : run x s w with ⟨e | a, v⟩ <;> rw [hrun] at hx
  · exact hx
  · exact .around rfl hx (hf a v)

theorem turn_within {body : Nat → Session σ α} (joined : Option Nat)
    (hbody : ∀ c u, Turn call u (run (body c) s u).2) (w : World σ) :
    Turn call w (run (within joined body) s w).2 := by
  rcases within_cases (Frame.unwritten_surrounds s) joined body w with ⟨-, hrel⟩ |
    ⟨c, u, hu, hv, -⟩
  · exact .of_same hrel.1
  · exact .around hu.1 (hbody c u) hv.1

theorem turn_stored {body : Store → Nat → Session σ α}
    (hbody : ∀ st, st.schema = call.schema → ∀ c u, Turn call u (run (body st c) s u).2)
    (w : World σ) : Turn call w (run (call.stored body) s w).2 := by
  rcases stored_cases (Frame.unwritten_surrounds s) call body w with ⟨-, hrel⟩ |
    ⟨tables, c, u, -, hu, hv, -⟩
  · exact .of_same hrel.1
  · exact .around hu.1 (hbody _ rfl c u) hv.1

theorem looked_up {body : Nat → Session σ α} {joined : Option Nat} {a : α}
    (hrun : run (within joined body) s w = (.ok a, v)) :
    ∃ c u u', run (body c) s u = (.ok a, u') := by
  have hcases := within_cases (Frame.unwritten_surrounds s) joined body w
  rw [hrun] at hcases
  rcases hcases with ⟨hfailed, -⟩ | ⟨c, u, -, -, hok⟩
  · cases hfailed
  · exact ⟨c, u, _, Prod.ext (hok a rfl) rfl⟩

theorem records_of_within {body : Nat → Session σ α} (joined : Option Nat)
    (hbody : ∀ c, Frame.unwritten.Keeps s (body c)) (w : World σ) :
    (run (within joined body) s w).2.records = w.records := by
  rcases within_cases (Frame.unwritten_surrounds s) joined body w with ⟨-, hrel⟩ |
    ⟨c, u, hu, hv, -⟩
  · exact hrel.1
  · rw [hv.1, (hbody c u).1, hu.1]

theorem turn_perform (call : Call) (w : World σ) : Turn call w (run call.perform s w).2 := by
  obtain ⟨schema, joined, act⟩ := call
  cases act with
  | new entity values =>
    rw [Call.perform, run_bind, run_ofResult]
    cases hentity : liftSchema (schema.entity entity) with
    | error e => exact .of_same rfl
    | ok e =>
      dsimp only
      rw [run_bind, run_ofResult]
      cases hmake : Handle.make e values with
      | error e => exact .of_same rfl
      | ok h =>
        exact .of_given rfl (List.forall_mem_singleton.2 ((Handle.begins_make hmake).given
          ((liftSchema_eq_ok _ _).1 hentity) fun _ => Handle.untouched_make hmake))
  | assign m column v =>
    rw [Call.perform]
    cases hm : w.records[m]? with
    | none =>
      rw [run_bind, run_handle_of_none hm]
      exact .of_same rfl
    | some h =>
      rw [run_bind_of_ok (run_handle_of_some hm), run_bind, run_ofResult]
      cases hset : h.set column v with
      | error e => exact .of_same rfl
      | ok h' =>
        exact (Turn.of_same (w := w) rfl).modify hm hm (.assigned column v h' hset) rfl
  | load entity key =>
    have hkeeps : ∀ c, Frame.unwritten.Keeps s (load schema entity key c) :=
      fun c => Frame.keeps_load (Frame.unwritten_select c) schema entity key
    have hsame := records_of_within joined hkeeps w
    rw [Call.perform, run_bind]
    rcases hrun : run (within joined (load schema entity key)) s w with ⟨e | found, v⟩ <;>
      rw [hrun] at hsame
    · exact .of_same hsame
    cases found with
    | none => exact .of_same hsame
    | some h =>
      obtain ⟨c, u, u', hload⟩ := looked_up hrun
      obtain ⟨e, he, hbegins⟩ := begins_of_load hload
      exact .of_given (by rw [← hsame]; rfl) (List.forall_mem_singleton.2 (hbegins.given he nofun))
  | find plan =>
    have hkeeps : ∀ c, Frame.unwritten.Keeps s (find schema plan c) :=
      fun c => Frame.keeps_find (Frame.unwritten_select c) schema plan
    have hsame := records_of_within joined hkeeps w
    rw [Call.perform, run_bind]
    rcases hrun : run (within joined (find schema plan)) s w with ⟨e | found, v⟩ <;>
      rw [hrun] at hsame
    · exact .of_same hsame
    obtain ⟨c, u, u', hfind⟩ := looked_up hrun
    obtain ⟨e, he, hbegins⟩ := begins_of_find hfind
    obtain ⟨ns, hregister, -⟩ := run_mapM_register (s := s) found v
    dsimp only
    rw [run_bind_of_ok hregister]
    exact .of_given (by rw [← hsame]; rfl) fun g hg => (hbegins g hg).given he nofun
  | save m =>
    exact turn_bind (turn_stored (fun st hst c u => turn_save rfl hst u) w) fun _ =>
      Frame.keeps_pure _
  | delete m =>
    exact turn_bind (turn_stored (fun st hst c u => turn_delete u) w) fun _ => Frame.keeps_pure _
  | related m name =>
    exact turn_bind (turn_within joined (fun c u => turn_related m name c u) w) fun _ =>
      Frame.keeps_pure _
  | link m name target =>
    exact turn_bind (turn_stored (fun st _ c u => turn_link st m name target c u) w) fun _ =>
      Frame.keeps_pure _
  | unlink m name target =>
    exact turn_bind (turn_stored (fun st _ c u => turn_unlink st m name target c u) w) fun _ =>
      Frame.keeps_pure _

/-! ## Calls that end well -/

theorem stored_eq_ok {body : Store → Nat → Session σ α} {a : α}
    (hrun : run (call.stored body) s w = (.ok a, v)) :
    ∃ st c u u', st.schema = call.schema ∧ u.records = w.records ∧
      run (body st c) s u = (.ok a, u') ∧ v.records = u'.records := by
  have hcases := stored_cases (Frame.unwritten_surrounds s) call body w
  rw [hrun] at hcases
  rcases hcases with ⟨hfailed, -⟩ | ⟨tables, c, u, -, hu, hv, hok⟩
  · cases hfailed
  · exact ⟨_, c, u, _, rfl, hu.1, Prod.ext (hok a rfl) rfl, hv.1⟩

/-- A call that saves a record and succeeds leaves its handle persisted, without changes to save. -/
theorem saved_of_perform (hact : call.act = .save n)
    (hok : (run call.perform s w).1.isOk = true) :
    ∃ h values, w.records[n]? = some h ∧
      (run call.perform s w).2.records = w.records.modify n (·.persisted values) := by
  rw [Call.perform, hact] at hok ⊢
  dsimp only at hok ⊢
  rw [run_bind] at hok ⊢
  rcases hrun : run (call.stored fun st => save st n) s w with ⟨e | ⟨⟩, v⟩ <;> rw [hrun] at hok
  · cases hok
  obtain ⟨st, c, u, u', -, hu, hsave, hv⟩ := stored_eq_ok hrun
  obtain ⟨h, hn, -⟩ := exists_handle hsave
  obtain ⟨values, -, -, -, hrecords⟩ := records_of_save hn hsave
  exact ⟨h, values, hu ▸ hn, by rw [← hu, ← hrecords, ← hv]; rfl⟩

theorem deleted_of_perform (hact : call.act = .delete n)
    (hok : (run call.perform s w).1.isOk = true) :
    ∃ h, w.records[n]? = some h ∧
      (run call.perform s w).2.records = w.records.modify n (·.deleted) := by
  rw [Call.perform, hact] at hok ⊢
  dsimp only at hok ⊢
  rw [run_bind] at hok ⊢
  rcases hrun : run (call.stored fun st => delete st n) s w with ⟨e | ⟨⟩, v⟩ <;> rw [hrun] at hok
  · cases hok
  obtain ⟨st, c, u, u', -, hu, hdelete, hv⟩ := stored_eq_ok hrun
  obtain ⟨h, hn, -⟩ := exists_handle hdelete
  obtain ⟨-, hrecords⟩ := records_of_delete hn hdelete
  exact ⟨h, hu ▸ hn, by rw [← hu, ← hrecords, ← hv]; rfl⟩

/-! ## Deleted records -/

/-- A call of a store sends nothing that changes rows if its body sends nothing of the kind. -/
theorem silent_stored {body : Store → Nat → Session σ α}
    (hbody : ∀ st c u, u.records = w.records → Frame.silent.rel u (run (body st c) s u).2) :
    Frame.silent.rel w (run (call.stored body) s w).2 := by
  rcases stored_cases (Frame.unwritten_surrounds s) call body w with ⟨-, hrel⟩ |
    ⟨tables, c, u, -, hu, hv, -⟩
  · exact hrel.2
  · exact Frame.silent.trans (Frame.silent.trans hu.2 (hbody _ c u hu.1)) hv.2

theorem silent_related (schema : Schema) (m : Nat) (name : String) (c : Nat) (w : World σ) :
    Frame.silent.rel w (run (related schema m name c) s w).2 :=
  Frame.keeps_related (R := Frame.silent) (fun w _ => Frame.silent.refl w)
    (fun q w => (Frame.unwritten_select c q w).2) schema m name w

theorem silent_prepared {st : Store} {m : Nat} {name : String} {target : Nat}
    {f : Sql.Table × Sql.Condition × Handle × Handle → Session σ α}
    (hn : w.records[n]? = some h) (hd : h.state = .deleted) (hi : m = n ∨ target = n) :
    Frame.silent.rel w (run (prepareLink st m name target >>= f) s w).2 := by
  rcases prepareLink_cases (s := s) st m name target w with
    ⟨e, he⟩ | ⟨row, g, g', -, hm, ht, hrow⟩
  · rw [run_bind, he]
    exact Frame.silent.refl w
  · obtain ⟨hg, hg'⟩ := linkRow_eq_ok hrow
    rcases hi with rfl | rfl
    · rw [hm] at hn
      cases hn
      rw [hd] at hg
      cases hg
    · rw [ht] at hn
      cases hn
      rw [hd] at hg'
      cases hg'

/-- A call in which a deleted record takes part changes no rows. -/
theorem silent_perform (call : Call) (hn : w.records[n]? = some h) (hd : h.state = .deleted)
    (hi : call.act.Involves n) : Frame.silent.rel w (run call.perform s w).2 := by
  have hthen : ∀ {β : Type} (x : Session σ β) (f : β → Answer),
      Frame.silent.rel w (run x s w).2 →
        Frame.silent.rel w (run (do let a ← x; pure (f a)) s w).2 := by
    intro β x f hx
    rw [run_bind]
    rcases hrun : run x s w with ⟨e | a, v⟩ <;> rw [hrun] at hx <;> exact hx
  obtain ⟨schema, joined, act⟩ := call
  cases act with
  | new entity values => cases hi
  | load entity key => cases hi
  | find plan => cases hi
  | assign m column v =>
    obtain rfl : m = n := hi
    rw [Call.perform, run_bind_of_ok (run_handle_of_some hn), run_bind, run_ofResult, Handle.set,
      Handle.ensureWritable, if_pos hd]
    exact Frame.silent.refl w
  | save m =>
    obtain rfl : m = n := hi
    refine hthen _ (fun _ => .done) (silent_stored fun st c u hu => ?_)
    rw [run_save st (hu ▸ hn), hd]
    exact Frame.silent.refl u
  | delete m =>
    obtain rfl : m = n := hi
    refine hthen _ (fun _ => .done) (silent_stored fun st c u hu => ?_)
    rw [delete, run_bind_of_ok (run_handle_of_some (hu ▸ hn)), if_pos (by rw [hd]; decide)]
    exact Frame.silent.refl u
  | related m name =>
    refine hthen _ _ ?_
    rcases within_cases (Frame.unwritten_surrounds s) joined (related schema m name) w with
      ⟨-, hrel⟩ | ⟨c, u, hu, hv, -⟩
    · exact hrel.2
    · exact Frame.silent.trans (Frame.silent.trans hu.2 (silent_related schema m name c u)) hv.2
  | link m name target =>
    refine hthen _ _ (silent_stored fun st c u hu => ?_)
    rw [link, run_bind_of_ok run_dialect]
    exact silent_prepared (hu ▸ hn) hd hi
  | unlink m name target =>
    exact hthen _ _ (silent_stored fun st c u hu => silent_prepared (hu ▸ hn) hd hi)

/-! ## Programs -/

theorem later_after (calls : List Call) (hn : w.records[n]? = some h) :
    ∃ h', (after s calls w).records[n]? = some h' ∧ h.Later h' := by
  induction calls generalizing w h with
  | nil => exact ⟨h, hn, .refl h⟩
  | cons call rest ih =>
    obtain ⟨g, hg, htouched⟩ := (turn_perform (s := s) call w).touched n h hn
    obtain ⟨h', hh', hlater⟩ := ih hg
    exact ⟨h', by rw [after_cons, hh'], htouched.later.trans hlater⟩

/-- A handle has the columns of its entity as long as the stores that save it know no others. -/
theorem fits_after (calls : List Call) (hn : w.records[n]? = some h) (hf : h.Fits)
    (hadds : ∀ call ∈ calls, call.act = .save n → call.schema.AddsNothing h.entity) :
    ∃ h', (after s calls w).records[n]? = some h' ∧ h'.Fits := by
  induction calls generalizing w h with
  | nil => exact ⟨h, hn, hf⟩
  | cons call rest ih =>
    obtain ⟨g, hg, htouched⟩ := (turn_perform (s := s) call w).touched n h hn
    have hentity := htouched.later.entity
    obtain ⟨h', hh', hfits⟩ := ih hg (htouched.fits hf (hadds call List.mem_cons_self))
      fun call hc hsave => by
        rw [hentity]
        exact hadds call (List.mem_cons_of_mem _ hc) hsave
    exact ⟨h', by rw [after_cons, hh'], hfits⟩

theorem exists_beginning (calls : List Call) (hle : w.records.length ≤ n)
    (hn : (after s calls w).records[n]? = some h) :
    ∃ before call rest g e started, calls = before ++ call :: rest ∧
      (after s (before ++ [call]) w).records[n]? = some g ∧ g.Begins e started := by
  induction calls generalizing w with
  | nil =>
    have hnone : (after s [] w).records[n]? = none := List.getElem?_eq_none hle
    rw [hnone] at hn
    cases hn
  | cons call rest ih =>
    rw [after_cons] at hn
    cases hg : (run call.perform s w).2.records[n]? with
    | some g =>
      obtain ⟨started, hbegins⟩ := ((turn_perform (s := s) call w).given n g hle hg).begins
      refine ⟨[], call, rest, g, _, started, rfl, ?_, hbegins⟩
      rw [List.nil_append, after_cons]
      exact hg
    | none =>
      obtain ⟨before, call', rest', g, e, started, rfl, hfound, hbegins⟩ :=
        ih (List.getElem?_eq_none_iff.1 hg) hn
      exact ⟨call :: before, call', rest', g, e, started, rfl,
        by rw [List.cons_append, after_cons]; exact hfound, hbegins⟩

/-- The life of a handle that a program was given, whatever the database answers. Its columns begin
with those of its entity, in their order, and are no others, as only these are ever dirty, unless a
store that knows more columns of the entity has saved it. Whatever the program does later, the state
only moves on, the key of a persisted record is fixed and a deleted record keeps its values. One call
moves the state by one at most; if it saves or deletes the record and succeeds, nothing is left to
save; and if the record is deleted, a call in which it takes part changes no rows. -/
theorem lifecycle (calls : List Call) (hw : w.records = [])
    (hn : (after s calls w).records[n]? = some h) :
    h.entity.columnNames <+: h.columns ∧
    ((∀ call ∈ calls, call.act = .save n → call.schema.AddsNothing h.entity) →
      h.columns = h.entity.columnNames ∧ ∀ c ∈ h.dirty, c ∈ h.entity.columnNames) ∧
    (∀ more, ∃ h', (after s (calls ++ more) w).records[n]? = some h' ∧ h.Later h') ∧
    ∀ call, ∃ h', (after s (calls ++ [call]) w).records[n]? = some h' ∧
      h'.state.rank ≤ h.state.rank + 1 ∧
      ((run call.perform s (after s calls w)).1.isOk = true →
        (call.act = .save n → h'.state = .persisted ∧ h'.dirty = []) ∧
        (call.act = .delete n → h'.state = .deleted ∧ h'.dirty = [])) ∧
      (h.state = .deleted → call.act.Involves n →
        ∃ es, (after s (calls ++ [call]) w).log = (after s calls w).log ++ es ∧
          ∀ e ∈ es, e.changesRows = false) := by
  obtain ⟨before, birth, rest, g, e, started, rfl, hg, hbegins⟩ :=
    exists_beginning calls (by rw [hw]; exact Nat.zero_le n) hn
  have hsplit : after s (before ++ birth :: rest) w =
      after s rest (after s (before ++ [birth]) w) := by
    rw [← after_append, List.append_assoc, List.singleton_append]
  obtain ⟨h', hh', hlater⟩ := later_after (s := s) rest hg
  obtain rfl : h' = h := Option.some.inj (hh'.symm.trans (hsplit ▸ hn))
  refine ⟨?_, fun hadds => ?_, fun more => ?_, fun call => ?_⟩
  · rw [hlater.entity, ← hbegins.fits.columns]
    exact hlater.columns
  · obtain ⟨h'', hh'', hfits⟩ := fits_after (s := s) rest hg hbegins.fits fun call hc hsave => by
      rw [← hlater.entity]
      exact hadds call (List.mem_append_right _ (List.mem_cons_of_mem _ hc)) hsave
    obtain rfl : h'' = h' := Option.some.inj (hh''.symm.trans hh')
    exact ⟨hfits.columns, hfits.dirty⟩
  · rw [after_append]
    exact later_after more hn
  · have hcall : after s ((before ++ birth :: rest) ++ [call]) w =
        (run call.perform s (after s (before ++ birth :: rest) w)).2 := by
      rw [after_append, after_cons]
      rfl
    rw [hcall]
    obtain ⟨h'', hh'', htouched⟩ := (turn_perform (s := s) call _).touched n h' hn
    refine ⟨h'', hh'', htouched.rank_le, fun hok => ⟨fun hact => ?_, fun hact => ?_⟩,
      fun hd hi => silent_perform call hn hd hi⟩
    · obtain ⟨g', values, hg', hrecords⟩ := saved_of_perform hact hok
      rw [hrecords, List.getElem?_modify_eq, hg'] at hh''
      obtain rfl := Option.some.inj hh''
      exact ⟨rfl, rfl⟩
    · obtain ⟨g', hg', hrecords⟩ := deleted_of_perform hact hok
      rw [hrecords, List.getElem?_modify_eq, hg'] at hh''
      obtain rfl := Option.some.inj hh''
      exact ⟨rfl, rfl⟩

/-- A database that takes everything and has one row to show. -/
def obliging : Setting Unit where
  server :=
    { connect := fun _ => (.ok (), ())
      answer := fun r _ _ =>
        (.ok { rows := if r matches .select _ then [[.int 1, .int 0, .text "kept"]] else [] }, ())
      commit := fun _ => (.ok (), ())
      rollback := id }
  config := { dialect := .sqlite, target := "obliging.db", acquireTimeout := .zero }
  now := .epoch

/-- A schema of one entity whose records count something. -/
def counting (more : List Field) : Schema where
  entities := [{ name := "Note", fields := [
    { name := "id", type := .bigint, primaryKey := true, auto := true },
    { name := "likes", type := .int, default := .int 0 }] ++ more }]

/-- A record is made, saved and deleted. -/
def noteCalls : List Call :=
  [⟨counting [], none, .new "Note" [("likes", .int 2)]⟩, ⟨counting [], none, .save 0⟩,
    ⟨counting [], none, .delete 0⟩]

theorem lifecycle_noteCalls :
    ∃ h, (after obliging noteCalls { server := () }).records[0]? = some h ∧ h.state = .deleted ∧
      h.columns = h.entity.columnNames ∧
      ∃ h', (after obliging (noteCalls ++ [⟨counting [], none, .save 0⟩])
        { server := () }).records[0]? = some h' ∧ h.Later h' := by
  have hstate : (after obliging noteCalls { server := () }).records[0]?.map (·.state) =
      some .deleted := by decide +kernel
  obtain ⟨h, hn, hdeleted⟩ := Option.map_eq_some_iff.1 hstate
  obtain ⟨-, hcolumns, hlater, -⟩ := lifecycle noteCalls rfl hn
  have hadds : ∀ call ∈ noteCalls, call.act = .save 0 → call.schema.AddsNothing h.entity := by
    have hentity : (after obliging noteCalls { server := () }).records[0]?.map
        (fun h => (h.entity.name, h.entity.columnNames)) = some ("Note", ["id", "likes"]) := by
      decide +kernel
    rw [hn, Option.map_some, Option.some.injEq, Prod.mk.injEq] at hentity
    intro call hc _ e he column hin
    have hschema : call.schema = counting [] := by
      simp only [noteCalls, List.mem_cons, List.not_mem_nil, or_false] at hc
      rcases hc with rfl | rfl | rfl <;> rfl
    rw [hschema, hentity.1] at he
    cases he
    rw [hentity.2]
    exact hin
  exact ⟨h, hn, hdeleted, (hcolumns hadds).1, hlater _⟩

/-- A store that knows one column more gives it to the record that it saves: the default of another
column makes it read the row. -/
theorem columns_of_other_schema :
    let calls : List Call := [⟨counting [], none, .new "Note" []⟩,
      ⟨counting [{ name := "memo", type := .text, nullable := true }], none, .save 0⟩]
    (after obliging calls { server := () }).records.map
      (fun h => (h.state, h.columns, h.entity.columnNames)) =
        [(.persisted, ["id", "likes", "memo"], ["id", "likes"])] := by
  decide +kernel

end Session

end SchemaLedger
