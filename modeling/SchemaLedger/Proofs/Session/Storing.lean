import SchemaLedger.Proofs.Session.Memory
import SchemaLedger.Proofs.Session.Overwriting

set_option autoImplicit false

/-!
# A store as a map from keys to rows

What a program does by means of a store, on a database that keeps rows: saving a new record adds a row
under a key of its own, saving it again replaces the row of its key, deleting takes that row away, and
loading finds it. All else leaves the rows alone. One lemma for each act, and the run by induction.
-/
namespace SchemaLedger

open Sql (Exchanged)

/-- A handle as the stores of a schema give it out. -/
structure Handle.Regular (s : Schema) (h : Handle) : Prop where
  known : h.entity ∈ s.entities
  fits : h.Fits
  untouched : h.state = .new → h.Untouched

namespace Database

variable {σ α : Type} {server : Server σ} {d : Dialect} {s : Schema} (k : Database server d s)

/-- What saving makes of a handle and of the rows. -/
def Saves (h h' : Handle) (before after : Sql.Contents k.cells) : Prop :=
  match h.state with
  | .new => k.Inserts h h' before after
  | .persisted => h' = h.persisted ∧ k.Overwrites h before after
  | .deleted => False

/-- What comes of a call that saves a record. A saved record is not found if and only if no row has
its key; but if a column has the name of the parameter for the key, it is not even looked for. -/
structure Saved (n : Nat) (h : Handle) (before : Sql.Contents k.cells) (records : List Handle)
    (r : Except Error α) (after : Sql.Contents k.cells) (records' : List Handle) : Prop extends
    k.Writes n (fun h' after => k.Saves h h' before after) before records r after records' where
  gone : h.state = .persisted → ¬h.Clashes →
    (r = .error (.record (.notFound h.key h.entity.name)) ↔
      ∀ row ∈ before h.entity.name, ¬k.HasKey h.entity h.key row)
  refused : h.state = .persisted → h.Clashes → r = .error (.defect .statement "")

/-- What comes of a call that deletes a record. -/
structure Deleted (n : Nat) (h : Handle) (before : Sql.Contents k.cells) (records : List Handle)
    (r : Except Error α) (after : Sql.Contents k.cells) (records' : List Handle) : Prop extends
    k.Writes n (fun h' after => h.state = .persisted ∧ h' = h.deleted ∧ k.Removes h before after)
      before records r after records' where
  gone : h.state = .persisted → (r = .error (.record (.notFound h.key h.entity.name)) ↔
    ∀ row ∈ before h.entity.name, ¬k.HasKey h.entity h.key row)

/-- What comes of a call that loads the record of a key: nothing if no row has the key, and otherwise
a new handle with the values of the row. -/
def Loaded (e : Entity) (v : Value) (rows : Sql.Contents k.cells) (records : List Handle)
    (r : Except Error Session.Answer) (records' : List Handle) : Prop :=
  (r = .ok (.records .nothing) ∧ records' = records ∧ ∀ row ∈ rows e.name, ¬k.HasKey e v row) ∨
    ∃ h, r = .ok (.records (.one records.length)) ∧ records' = records ++ [h] ∧
      k.Finds e v rows (some h)

/-- How an act refines the rows as a map from keys. -/
def Refines (act : Session.Act) (before : Sql.Contents k.cells) (records : List Handle)
    (r : Except Error Session.Answer) (after : Sql.Contents k.cells) (records' : List Handle) :
    Prop :=
  match act with
  | .save n => ∀ h, records[n]? = some h → k.Saved n h before records r after records'
  | .delete n => ∀ h, records[n]? = some h → k.Deleted n h before records r after records'
  | .load entity v => after = before ∧ ∀ e ∈ s.entities, e.name = entity →
      k.Loaded e v before records r records'
  | _ => after = before

variable {k} {n : Nat} {h : Handle} {before after : Sql.Contents k.cells}
  {records records' : List Handle} {β : Type} {r : Except Error α}

theorem Writes.map {Q : Handle → Sql.Contents k.cells → Prop} (f : α → β)
    (hw : k.Writes n Q before records r after records') :
    k.Writes n Q before records (r.map f) after records' := by
  cases r with
  | error e => exact ⟨nofun, fun _ => hw.undone rfl⟩
  | ok a => exact ⟨fun _ => hw.done rfl, nofun⟩

theorem Saved.map (f : α → β) (hs : k.Saved n h before records r after records') :
    k.Saved n h before records (r.map f) after records' where
  toWrites := hs.toWrites.map f
  gone hstate hclash := (Outcome.map_eq_error _ f _).trans (hs.gone hstate hclash)
  refused hstate hclash := (Outcome.map_eq_error _ f _).2 (hs.refused hstate hclash)

theorem Deleted.map (f : α → β) (hd : k.Deleted n h before records r after records') :
    k.Deleted n h before records (r.map f) after records' where
  toWrites := hd.toWrites.map f
  gone hstate := (Outcome.map_eq_error _ f _).trans (hd.gone hstate)

end Database

namespace Session

variable {σ α : Type} {s : Setting σ} {schema : Schema} {w v : World σ} {c n : Nat}
  {k : Database s.server s.config.dialect schema} {h h' : Handle} {joined : Option Nat} {act : Act}

/-- The acts on single records. -/
def Act.Single : Act → Prop
  | .related .. | .link .. | .unlink .. => False
  | _ => True

/-- What an act hands to the database are values of their columns, of an entity whose records can be
written and looked up. -/
def Act.Admitted (d : Dialect) (schema : Schema) (w : World σ) : Act → Prop
  | .save n | .delete n => ∀ h, w.records[n]? = some h → h.entity.Storable d ∧ h.Admitted schema
  | .load entity v => ∀ e ∈ schema.entities, e.name = entity →
      e.Storable d ∧ ∀ key, e.key? = some key → key.type.admits v = true
  | _ => True

instance Act.decidableAdmitted (d : Dialect) (schema : Schema) (w : World σ) (act : Act) :
    Decidable (act.Admitted d schema w) :=
  match act with
  | .save n | .delete n => inferInstanceAs (Decidable (∀ h ∈ w.records[n]?,
      h.entity.Storable d ∧ h.Admitted schema))
  | .load entity v => inferInstanceAs (Decidable (∀ e ∈ schema.entities, e.name = entity →
      e.Storable d ∧ ∀ key ∈ e.key?, key.type.admits v = true))
  | .new .. | .assign .. | .find .. | .related .. | .link .. | .unlink .. => isTrue trivial

/-- A call that the database can be relied on to carry out: it is on single records of the schema, with
values of their columns, and the transaction that it joins is open. -/
structure Call.Proper (k : Database s.server s.config.dialect schema) (joined : Option Nat)
    (call : Call) (w : World σ) : Prop where
  knows : call.schema = schema
  joins : call.joined = joined
  single : call.act.Single
  admitted : call.act.Admitted s.config.dialect schema w
  live : joined ≠ none → k.live w.server

/-! ## Bodies of calls -/

theorem Frame.inTransaction_stores (k : Database s.server s.config.dialect schema) (c : Nat) :
    (Frame.inTransaction k c).Stores s c where
  send _ hr := Frame.inTransaction_send k c hr
  identifiers _ _ := ⟨⟨rfl, rfl, fun _ _ hp => hp, fun _ he => he⟩, rfl, fun ⟨hp, ho⟩ => ⟨hp, ho⟩⟩

theorem MarksLast.inTransaction {change : (Handle → Handle) → Prop} {x : Session σ Unit}
    (hx : MarksLast (Frame.inTransaction k c) s n change x) :
    (Frame.inTransaction k c).Keeps s x :=
  hx.keeps (Frame.inTransaction_records k c)

theorem Ends.imp {Q Q' : Except Error α → Sql.Contents k.cells → List Handle → Prop}
    {before : Sql.Contents k.cells} {r : Except Error α × World σ} (h : Ends k Q before r)
    (hQ : ∀ o after records, Q o after records → Q' o after records) : Ends k Q' before r :=
  ⟨hQ _ _ _ h.outcome, h.live, h.undone⟩

/-- An operation that only looks at rows. -/
def Looks (k : Database s.server s.config.dialect schema) (x : Session σ α) : Prop :=
  ∀ w, k.live w.server → Ends k (fun _ after records => after = k.rows w.server ∧
    records = w.records) (k.rows w.server) (run x s w)

theorem looks_ofResult (r : Result α) : Looks k (ofResult r) := fun w hl => by
  rw [run_ofResult]
  exact ⟨⟨rfl, rfl⟩, fun _ => hl, fun _ => rfl⟩

theorem Looks.bind {β : Type} {x : Session σ α} {f : α → Session σ β} (hx : Looks k x)
    (hf : ∀ a, Looks k (f a)) : Looks k (x >>= f) := by
  intro w hl
  obtain ⟨⟨hrows, hrecords⟩, hlive, hundone⟩ := hx w hl
  rw [run_bind]
  rcases hrun : run x s w with ⟨e | a, v⟩ <;> rw [hrun] at hrows hrecords hlive hundone
  · exact ⟨⟨hrows, hrecords⟩, nofun, fun _ => hrows⟩
  · have hrest := hf a v (hlive rfl)
    dsimp only at hrows hrecords ⊢
    rw [hrows, hrecords] at hrest
    exact hrest

theorem looks_dialect {f : Dialect → Session σ α} (hf : Looks k (f s.config.dialect)) :
    Looks k (dialect >>= f) := fun w hl => by
  rw [run_bind_of_ok run_dialect]
  exact hf w hl

theorem looks_select (c : Nat) (q : Sql.Select) : Looks k (execute c (.select q)) := by
  refine looks_dialect fun w hl => ?_
  rw [run_classifying, run_send]
  cases (Request.prepare s.config.dialect (.select q)).bind s.config.dialect with
  | error e => exact ⟨⟨rfl, rfl⟩, nofun, fun _ => rfl⟩
  | ok ps =>
    have hserver := server_answered (s := s) (c := c) (w := w) (.select q) ps
    have hrecords := records_answered (s := s) (c := c) (w := w) (.select q) ps
    have hlive := k.live_answer (.select q) ps w.server rfl hl
    have hrows := k.looked q ps w.server
    rw [← hserver] at hlive hrows
    dsimp only
    cases hanswer : (s.server.answer (.select q) ps w.server).1 with
    | error e => exact ⟨⟨hrows, hrecords⟩, nofun, fun _ => hrows⟩
    | ok reply => exact ⟨⟨hrows, hrecords⟩, fun _ => hlive (by rw [hanswer]; rfl), nofun⟩

theorem looks_load (entity : String) (v : Value) (c : Nat) :
    Looks k (load schema entity v c) := by
  refine (looks_ofResult _).bind fun e => .bind ?_ fun row => looks_ofResult _
  refine .bind (looks_dialect (looks_ofResult _)) fun q => looks_dialect ?_
  exact (looks_select c _).bind fun reply => looks_ofResult _

theorem Touched.regular {call : Call} (ht : Touched call n h h') (hs : call.schema.Sound)
    (hr : h.Regular call.schema) : h'.Regular call.schema := by
  have hadds : call.schema.AddsNothing h.entity := by
    intro e he column hc
    obtain ⟨hin, hname⟩ := (Schema.entity_eq_ok_iff hs.distinct _ e).1 he
    rwa [List.inj_on_of_nodup_map hs.distinct hin hr.known hname] at hc
  refine ⟨ht.later.entity ▸ hr.known, ht.fits hr.fits fun _ => hadds, fun hnew => ?_⟩
  cases ht with
  | same => exact hr.untouched hnew
  | found related => exact hr.untouched hnew
  | saved => cases hnew
  | deleted => cases hnew
  | assigned column value _ hset =>
    obtain ⟨-, -, -, heq⟩ := Handle.set_eq_ok.1 hset
    refine Handle.untouched_set (hr.untouched ?_) hset
    rw [heq] at hnew
    exact hnew

theorem regular_perform {call : Call} (hs : call.schema.Sound)
    (hw : ∀ h ∈ w.records, h.Regular call.schema) :
    ∀ h ∈ (run call.perform s w).2.records, h.Regular call.schema := by
  have hturn := turn_perform (s := s) call w
  intro h' hin
  obtain ⟨n, hn⟩ := List.mem_iff_getElem?.1 hin
  rcases lt_or_ge n w.records.length with hlt | hle
  · obtain ⟨g, hg, htouched⟩ := hturn.touched n _ (List.getElem?_eq_getElem hlt)
    cases hn.symm.trans hg
    exact htouched.regular hs (hw _ (List.getElem_mem hlt))
  · obtain ⟨⟨name, hname⟩, ⟨started, hbegins⟩, hu⟩ := hturn.given n h' hle hn
    exact ⟨((Schema.entity_eq_ok_iff hs.distinct _ _).1 hname).1, hbegins.fits, hu⟩

/-! ## Calls -/

/-- How a call ends. -/
structure Concludes (k : Database s.server s.config.dialect schema) (joined : Option Nat)
    (Q : Except Error α → Sql.Contents k.cells → List Handle → Prop)
    (r : Except Error α × World σ) : Prop where
  outcome : Q r.1 (k.rows r.2.server) r.2.records
  atRest : joined = none → k.AtRest r.2

section Concluding

variable {β : Type} {Q : Except Error α → Sql.Contents k.cells → List Handle → Prop}
  {Q' : Except Error β → Sql.Contents k.cells → List Handle → Prop}

theorem concludes_within {body : Nat → Session σ α} (hw : k.Ready joined w)
    (hbody : ∀ c, (Frame.inTransaction k c).Keeps s (body c))
    (hends : ∀ c u, k.live u.server → k.rows u.server = k.rows w.server → u.records = w.records →
      Ends k Q (k.rows u.server) (run (body c) s u)) :
    Concludes k joined Q (run (within joined body) s w) := by
  obtain ⟨houtcome, hrest⟩ := ends_within (Q := Q) joined hw hbody fun c u hl hr hrec =>
    hr ▸ hends c u hl hr hrec
  exact ⟨houtcome, hrest⟩

/-- What a call gives back is made of what its operation gives. -/
theorem Concludes.bind {x : Session σ α} {f : α → Session σ β}
    (hx : Concludes k joined Q (run x s w))
    (herror : ∀ e after records, Q (.error e) after records → Q' (.error e) after records)
    (hok : ∀ a v, Q (.ok a) (k.rows v.server) v.records → ∃ b records,
      run (f a) s v = (.ok b, { v with records }) ∧ Q' (.ok b) (k.rows v.server) records) :
    Concludes k joined Q' (run (x >>= f) s w) := by
  rw [run_bind]
  rcases hrun : run x s w with ⟨e | a, v⟩ <;> rw [hrun] at hx
  · exact ⟨herror _ _ _ hx.outcome, hx.atRest⟩
  · obtain ⟨b, records, hb, hQ'⟩ := hok a v hx.outcome
    dsimp only
    rw [hb]
    exact ⟨hQ', fun hj => ⟨(hx.atRest hj).tidy, (hx.atRest hj).available, (hx.atRest hj).quiet⟩⟩

end Concluding

section Written

variable (hs : schema.Sound) (hh : h.Storable s.config.dialect schema) (hn : w.records[n]? = some h)
  (hl : k.live w.server)

include hs hh hn hl

theorem ends_save (hu : h.state = .new → h.Untouched) :
    Ends k (k.Saved n h (k.rows w.server) w.records) (k.rows w.server)
      (run (save ⟨schema, k.tables⟩ n c) s w) := by
  rw [run_save _ hn]
  cases hstate : h.state with
  | new =>
    refine (ends_insert hs hh (hu hstate) hn hl).imp fun _ _ _ hwrites => ?_
    refine ⟨⟨fun hok => ?_, hwrites.undone⟩, ?_, ?_⟩
    · obtain ⟨h', hrecords, hinserts⟩ := hwrites.done hok
      exact ⟨h', hrecords, by rw [Database.Saves, hstate]; exact hinserts⟩
    all_goals rw [hstate]; nofun
  | persisted =>
    by_cases hclash : h.Clashes
    · rw [run_saveChanges_of_clash hs hh hn k hclash]
      exact ⟨⟨⟨nofun, fun _ => ⟨rfl, rfl⟩⟩, fun _ hnot => absurd hclash hnot, fun _ _ => rfl⟩, nofun,
        fun _ => rfl⟩
    · refine (ends_saveChanges hs hh hn hl hclash).imp fun _ _ _ hrewrites => ?_
      refine ⟨⟨fun hok => ?_, hrewrites.undone⟩, fun _ _ => hrewrites.gone,
        fun _ hyes => absurd hyes hclash⟩
      obtain ⟨h', hrecords, heffect⟩ := hrewrites.done hok
      exact ⟨h', hrecords, by rw [Database.Saves, hstate]; exact heffect⟩
  | deleted =>
    refine ⟨⟨⟨nofun, fun _ => ⟨rfl, rfl⟩⟩, ?_, ?_⟩, nofun, fun _ => rfl⟩
    all_goals rw [hstate]; nofun

end Written

section Acts

variable (hs : schema.Sound) (hw : k.Ready joined w)

include hw

/-- A call that writes the record of a number. If there is none, nothing is done. -/
theorem concludes_written {op : Store → Nat → Session σ Unit} {call : Call}
    (hknows : call.schema = schema) (hjoins : call.joined = joined)
    (hkeeps : ∀ c, (Frame.inTransaction k c).Keeps s (op ⟨schema, k.tables⟩ c))
    (hnone : w.records[n]? = none → ∀ c u, u.records = w.records →
      run (op ⟨schema, k.tables⟩ c) s u = (.error (.defect .key ""), u))
    {Q : Handle → Except Error Answer → Sql.Contents k.cells → List Handle → Prop}
    (hends : ∀ h c u, w.records[n]? = some h → k.live u.server →
      k.rows u.server = k.rows w.server → u.records = w.records →
        Ends k (fun r => Q h (r.map fun _ => .done)) (k.rows u.server)
          (run (op ⟨schema, k.tables⟩ c) s u)) :
    Concludes k joined (fun r after records => ∀ h, w.records[n]? = some h → Q h r after records)
      (run (do call.stored op; pure .done) s w) := by
  subst hknows hjoins
  have hwithin : Concludes k call.joined (fun r after records => ∀ h, w.records[n]? = some h →
      Q h (r.map fun _ => .done) after records) (run (call.stored op) s w) := by
    rw [run_stored_of_ok k.built]
    refine concludes_within hw hkeeps fun c u hl hr hrecords => ?_
    cases hn : w.records[n]? with
    | none =>
      rw [hnone hn c u hrecords]
      exact ⟨nofun, nofun, fun _ => rfl⟩
    | some h =>
      refine (hends h c u hn hl hr hrecords).imp fun _ _ _ hQ h' hn' => ?_
      cases hn'
      exact hQ
  exact hwithin.bind (fun _ _ _ => id) fun _ v hQ => ⟨.done, v.records, rfl, hQ⟩

include hs

theorem concludes_save (hregular : ∀ h, w.records[n]? = some h → h.Regular schema)
    (hadmitted : Act.Admitted s.config.dialect schema w (.save n)) :
    Concludes k joined (k.Refines (.save n) (k.rows w.server) w.records)
      (run (Call.perform ⟨schema, joined, .save n⟩) s w) := by
  refine concludes_written hw rfl rfl
    (fun c => (marksLast_save (Frame.inTransaction_stores k c) _ n).inTransaction)
    (fun hn c u hrecords => ?_) fun h c u hn hl hr hrecords => ?_
  · rw [save, run_bind, run_handle_of_none (hrecords ▸ hn)]
  · obtain ⟨hstorable, hvalues⟩ := hadmitted h hn
    obtain ⟨hknown, hfits, hu⟩ := hregular h hn
    rw [← hr, ← hrecords]
    exact (ends_save hs ⟨hknown, hstorable, hfits, hvalues⟩ (hrecords ▸ hn) hl hu).imp
      fun _ _ _ hsaved => hsaved.map _

end Acts

/-! ## Programs -/

/-- A schema of one entity, with counted keys and a default. -/
def notes : Schema where
  entities := [{ name := "Note", fields := [
    { name := "id", type := .bigint, primaryKey := true, auto := true },
    { name := "likes", type := .int, default := .int 0 },
    { name := "text", type := .text }] }]

theorem valid_notes : notes.Valid := by decide +kernel

def notesSetting : Setting (Memory notes) where
  server := Memory.server notes
  config := { dialect := .sqlite, target := "notes.db", acquireTimeout := .zero }
  now := .epoch

def notesDatabase : Database notesSetting.server notesSetting.config.dialect notes :=
  Memory.database ((Schema.valid_iff_sound _).1 valid_notes) rfl (by decide +kernel)

/-- No record, no connection and no row. -/
def notesWorld : World (Memory notes) where
  server := ⟨⟨fun _ => [], by decide +kernel⟩, ⟨fun _ => [], by decide +kernel⟩, false, fun _ => rfl⟩

end Session

end SchemaLedger
