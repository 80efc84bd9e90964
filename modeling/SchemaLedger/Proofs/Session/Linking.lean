import SchemaLedger.Proofs.Session.LinkMemory
import SchemaLedger.Proofs.Session.Storing

set_option autoImplicit false

/-!
# A store as sets of links

What a program does with the links of stored records, on a database that keeps them: linking puts a
pair into the set of its relationship, unlinking takes it out, and following the relationship gives the
handles of exactly the targets that are in the set. A handle remembers where a relationship led; it
forgets it as soon as it links or unlinks along the relationship, and no other handle of its row does
so. What is remembered is therefore what the rows say.
-/
namespace SchemaLedger

open Sql (Table)

/-- A persisted handle with a key. -/
structure Handle.Stored (h : Handle) : Prop where
  persisted : h.state = .persisted
  admitted : ∀ key, h.entity.key? = some key → key.type.admits h.key = true
  present : h.key ≠ .null

instance Handle.decidableStored (h : Handle) : Decidable h.Stored :=
  decidable_of_iff (h.state = .persisted ∧ (∀ key ∈ h.entity.key?, key.type.admits h.key = true) ∧
      ¬h.key.isNull = true)
    ⟨fun ⟨hp, ha, hn⟩ => ⟨hp, ha, mt Value.isNull_iff.2 hn⟩,
      fun ⟨hp, ha, hn⟩ => ⟨hp, ha, mt Value.isNull_iff.1 hn⟩⟩

/-- A number is that of a handle, whatever the handle remembers. -/
def Session.Stands (records : List Handle) (n : Nat) (h : Handle) : Prop :=
  ∃ related, records[n]? = some { h with related }

/-- No two of the handles denote one row. -/
def Session.Apart (owners : List Nat) (records : List Handle) : Prop :=
  ∀ n ∈ owners, ∀ m ∈ owners, n ≠ m → ∀ h ∈ records[n]?, ∀ g ∈ records[m]?,
    h.entity.name = g.entity.name → h.key.same g.key = false

instance Session.decidableApart (owners : List Nat) (records : List Handle) :
    Decidable (Apart owners records) :=
  inferInstanceAs (Decidable (∀ n ∈ owners, ∀ m ∈ owners, n ≠ m → ∀ h ∈ records[n]?,
    ∀ g ∈ records[m]?, h.entity.name = g.entity.name → h.key.same g.key = false))

namespace Database

open Session (Stands Apart Act)

variable {σ : Type} {server : Server σ} {d : Dialect} {s : Schema} (k : Database server d s)

/-- A relationship has led to handles of exactly the targets of an owner. -/
def LeadsTo (j : s.Linkage) (v : Value) (rows : Sql.Contents k.cells) (records : List Handle)
    (found : Related) : Prop :=
  ∃ ns targets, found = .many ns ∧ List.Forall₂ (Stands records) ns targets ∧
    k.Targets j v rows targets

/-- Where relationships have led is where they still lead. -/
def Recalls (owners : List Nat) (rows : Sql.Contents k.cells) (records : List Handle) : Prop :=
  ∀ n ∈ owners, ∀ h, records[n]? = some h → ∀ j : s.Linkage, j.owner = h.entity →
    ∀ found, h.cached? j.link.name = some found → k.LeadsTo j h.key rows records found

/-- Nothing but links of one owner has changed, along one relationship. -/
structure Spares (j : s.Linkage) (v : Value) (before after : Sql.Contents k.cells) : Prop where
  links : ∀ (i : s.Linkage) x y, ¬(i = j ∧ v.same x = true) →
    (k.Linked i x y after ↔ k.Linked i x y before)
  entities : ∀ e ∈ s.entities, after e.name = before e.name

/-- What comes of a call that puts the pair of two records into a set of links or takes it out. -/
structure Edits (effect : s.Linkage → Value → Value → Bool → Sql.Contents k.cells →
      Sql.Contents k.cells → Prop)
    (n : Nat) (name : String) (m : Nat) (before : Sql.Contents k.cells) (records : List Handle)
    (r : Except Error Session.Answer) (after : Sql.Contents k.cells) : Prop where
  undone : ∀ e, r = .error e → after = before
  done : ∀ answer, r = .ok answer → ∃ j h g b, answer = .changed b ∧ records[n]? = some h ∧
    records[m]? = some g ∧ j.owner = h.entity ∧ j.link.name = name ∧ j.target = g.entity ∧
      effect j h.key g.key b before after

/-- How it comes to that: the call is refused before anything is done, or the owner forgets where the
relationship has led, whether or not the set is changed then. -/
inductive Reworks (effect : s.Linkage → Value → Value → Bool → Sql.Contents k.cells →
      Sql.Contents k.cells → Prop)
    (n : Nat) (name : String) (m : Nat) (before : Sql.Contents k.cells) (records : List Handle) :
    Except Error Session.Answer → Sql.Contents k.cells → List Handle → Prop
  | refused (e : Error) : Reworks effect n name m before records (.error e) before records
  | failed (e : Error) (j : s.Linkage) (h : Handle) (hn : records[n]? = some h)
      (hj : j.owner = h.entity) (hname : j.link.name = name) :
      Reworks effect n name m before records (.error e) before (records.modify n (·.forget name))
  | done (b : Bool) (after : Sql.Contents k.cells) (j : s.Linkage) (h g : Handle)
      (hn : records[n]? = some h) (hm : records[m]? = some g) (hj : j.owner = h.entity)
      (hname : j.link.name = name) (hg : j.target = g.entity)
      (heffect : effect j h.key g.key b before after) :
      Reworks effect n name m before records (.ok (.changed b)) after
        (records.modify n (·.forget name))

/-- How an act relates to the sets of links. -/
def Relates (act : Act) (before : Sql.Contents k.cells) (records : List Handle)
    (r : Except Error Session.Answer) (after : Sql.Contents k.cells) (records' : List Handle) :
    Prop :=
  match act with
  | .link n name m => k.Edits k.Adds n name m before records r after
  | .unlink n name m => k.Edits k.Drops n name m before records r after
  | .related n name => after = before ∧ ∀ answer, r = .ok answer → ∀ h, records[n]? = some h →
      ∀ j : s.Linkage, j.owner = h.entity → j.link.name = name →
        ∃ found, answer = .records found ∧ k.LeadsTo j h.key after records' found
  | _ => after = before

variable {k} {i j : s.Linkage} {v x : Value} {rows before after : Sql.Contents k.cells}
  {owners : List Nat} {records given : List Handle} {n : Nat} {h : Handle} {found : Related}

/-! ## What handles remember -/

theorem Spares.refl (j : s.Linkage) (v : Value) (rows : Sql.Contents k.cells) :
    k.Spares j v rows rows := ⟨fun _ _ _ _ => Iff.rfl, fun _ _ => rfl⟩

theorem Adds.spares (hs : s.Sound) {u : Value} {b : Bool} (h : k.Adds j v u b before after) :
    k.Spares j v before after := by
  refine ⟨fun i x y hne => (h.linked i x y).trans (or_iff_left fun ⟨hij, hx, _⟩ => hne ⟨hij, hx⟩),
    fun e he => ?_⟩
  obtain ⟨new, -, -, hex⟩ := h.rows
  exact hex.others _ (j.table_ne hs he)

theorem Drops.spares (hs : s.Sound) {u : Value} {b : Bool} (h : k.Drops j v u b before after) :
    k.Spares j v before after := by
  refine ⟨fun i x y hne => (h.linked i x y).trans
    (and_iff_left fun ⟨hij, hx, _⟩ => hne ⟨hij, hx⟩), fun e he => ?_⟩
  obtain ⟨old, -, -, hex⟩ := h.rows
  exact hex.others _ (j.table_ne hs he)

theorem Targets.spared {targets : List Handle} (ht : k.Targets i x before targets)
    (hspares : k.Spares j v before after) (hne : ¬(i = j ∧ v.same x = true)) :
    k.Targets i x after targets where
  present g hg := by
    have hrows := hspares.entities _ i.target_mem
    obtain ⟨hbegins, row, hrow, hkey, hshows⟩ := ht.present g hg
    exact ⟨hbegins, row, hrows ▸ hrow, hkey, hshows⟩
  linked u := (ht.linked u).trans (hspares.links i x u hne).symm
  sorted := ht.sorted

end Database

namespace Session

variable {records : List Handle} {n : Nat} {h : Handle}

theorem Stands.append (hn : Stands records n h) (given : List Handle) :
    Stands (records ++ given) n h := by
  obtain ⟨related, hn⟩ := hn
  exact ⟨related, by rw [List.getElem?_append_left (List.getElem?_eq_some_iff.1 hn).1, hn]⟩

theorem Stands.modify (hn : Stands records n h) (m : Nat) {f : Handle → Handle}
    (hf : ∀ g, ∃ related, f g = { g with related }) : Stands (records.modify m f) n h := by
  obtain ⟨related, hn⟩ := hn
  by_cases hm : m = n
  · subst hm
    obtain ⟨related', hf⟩ := hf { h with related }
    exact ⟨related', by rw [List.getElem?_modify_eq, hn, Option.map_eq_map, Option.map_some, hf]⟩
  · exact ⟨related, by rw [List.getElem?_modify_ne _ _ hm, hn]⟩

end Session

namespace Database

open Session (Stands Apart)

variable {σ : Type} {server : Server σ} {d : Dialect} {s : Schema} {k : Database server d s}
  {i j : s.Linkage} {v x : Value} {rows before after : Sql.Contents k.cells}
  {owners : List Nat} {records records' given : List Handle} {n : Nat} {h : Handle} {name : String}
  {found : Related}

theorem LeadsTo.later (h : k.LeadsTo j v rows records found)
    (hstands : ∀ n g, Stands records n g → Stands records' n g) :
    k.LeadsTo j v rows records' found := by
  obtain ⟨ns, targets, hfound, hns, htargets⟩ := h
  exact ⟨ns, targets, hfound, hns.imp fun {n g} => hstands n g, htargets⟩

theorem LeadsTo.spared (h : k.LeadsTo i x before records found)
    (hspares : k.Spares j v before after) (hne : ¬(i = j ∧ v.same x = true)) :
    k.LeadsTo i x after records found := by
  obtain ⟨ns, targets, hfound, hns, htargets⟩ := h
  exact ⟨ns, targets, hfound, hns, htargets.spared hspares hne⟩

theorem recalls_of_related (h : ∀ g ∈ records, g.related = []) : k.Recalls owners rows records := by
  intro n _ g hg j _ found hfound
  rw [Handle.cached?, h g (List.mem_of_getElem? hg)] at hfound
  cases hfound

/-- A handle that is given out remembers nothing. -/
theorem Recalls.append (hr : k.Recalls owners rows records) (hgiven : ∀ g ∈ given, g.related = []) :
    k.Recalls owners rows (records ++ given) := by
  intro n hn h hh j hj found hfound
  rcases lt_or_ge n records.length with hlt | hle
  · rw [List.getElem?_append_left hlt] at hh
    exact (hr n hn h hh j hj found hfound).later fun n g hg => hg.append given
  · rw [List.getElem?_append_right hle] at hh
    rw [Handle.cached?, hgiven h (List.mem_of_getElem? hh)] at hfound
    cases hfound

theorem Recalls.cache (hr : k.Recalls owners rows records) (hn : records[n]? = some h)
    (hleads : ∀ j : s.Linkage, j.owner = h.entity → j.link.name = name →
      k.LeadsTo j h.key rows records found) :
    k.Recalls owners rows (records.modify n (·.cache name found)) := by
  have hstands : ∀ m g, Stands records m g → Stands (records.modify n (·.cache name found)) m g :=
    fun m g hg => hg.modify n fun g => ⟨_, rfl⟩
  intro m hm g hg j hj known hknown
  by_cases hmn : n = m
  · subst hmn
    rw [List.getElem?_modify_eq, hn] at hg
    obtain rfl := Option.some.inj hg
    change Entries.get? j.link.name (Entries.put name found h.related) = some known at hknown
    rw [Entries.get?_put] at hknown
    split at hknown
    case isTrue hname =>
      obtain rfl := Option.some.inj hknown
      exact (hleads j hj hname.symm).later hstands
    case isFalse => exact (hr n hm h hn j hj known hknown).later hstands
  · rw [List.getElem?_modify_ne _ _ hmn] at hg
    exact (hr m hm g hg j hj known hknown).later hstands

/-- A handle that forgets where a relationship led may change what it leads to, since no other handle
of its row can remember it. -/
theorem Recalls.forget (hr : k.Recalls owners before records) (hapart : Apart owners records)
    (howner : n ∈ owners) (hn : records[n]? = some h) (hj : j.owner = h.entity)
    (hspares : k.Spares j h.key before after) :
    k.Recalls owners after (records.modify n (·.forget j.link.name)) := by
  have hstands : ∀ m g, Stands records m g →
      Stands (records.modify n (·.forget j.link.name)) m g :=
    fun m g hg => hg.modify n fun g => ⟨_, rfl⟩
  intro m hm g hg i hi known hknown
  by_cases hmn : n = m
  · subst hmn
    rw [List.getElem?_modify_eq, hn] at hg
    obtain rfl := Option.some.inj hg
    change Entries.get? i.link.name (Entries.erase j.link.name h.related) = some known at hknown
    rw [Entries.get?_erase] at hknown
    split at hknown
    case isTrue => cases hknown
    case isFalse hname =>
      refine ((hr n hm h hn i hi known hknown).spared hspares fun ⟨hij, _⟩ => hname ?_).later hstands
      rw [hij]
  · rw [List.getElem?_modify_ne _ _ hmn] at hg
    refine ((hr m hm g hg i hi known hknown).spared hspares fun ⟨hij, hsame⟩ => ?_).later hstands
    have hname : h.entity.name = g.entity.name := by rw [← hj, ← hi, hij]
    rw [hapart n howner m hm hmn h hn g hg hname] at hsame
    cases hsame

namespace Reworks

variable {effect : s.Linkage → Value → Value → Bool → Sql.Contents k.cells →
      Sql.Contents k.cells → Prop} {m : Nat} {r : Except Error Session.Answer}

theorem edits (hr : k.Reworks effect n name m before records r after records') :
    k.Edits effect n name m before records r after := by
  cases hr with
  | refused e => exact ⟨fun _ _ => rfl, fun _ hno => by cases hno⟩
  | failed e j h hn hj hname => exact ⟨fun _ _ => rfl, fun _ hno => by cases hno⟩
  | done b _ j h g hn hm hj hname hg heffect =>
    refine ⟨fun _ hno => (by cases hno), fun answer hanswer => ?_⟩
    cases hanswer
    exact ⟨j, h, g, b, rfl, hn, hm, hj, hname, hg, heffect⟩

theorem recalls (hr : k.Reworks effect n name m before records r after records')
    (hspares : ∀ {j v u b before after}, effect j v u b before after → k.Spares j v before after)
    (hrecalls : k.Recalls owners before records) (hapart : Apart owners records)
    (howner : n ∈ owners) : k.Recalls owners after records' := by
  cases hr with
  | refused e => exact hrecalls
  | failed e j h hn hj hname => exact hname ▸ hrecalls.forget hapart howner hn hj (.refl j _ _)
  | done b _ j h g hn hm hj hname hg heffect =>
    exact hname ▸ hrecalls.forget hapart howner hn hj (hspares heffect)

end Reworks

end Database

/-! ## Rows of links -/

theorem Session.relationshipOf_eq_ok {h : Handle} {name : String} {r : Relationship} :
    relationshipOf h name = .ok r ↔ h.entity.relationship? name = some r := by
  rw [relationshipOf]
  cases h.entity.relationship? name <;> simp

theorem Session.persisted_of_linkRow {st : Session.Store} {h g : Handle} {name : String}
    {row : Table × Sql.Condition} (hrow : Session.linkRow st h name g = .ok row) :
    h.state = .persisted ∧ g.state = .persisted := by
  obtain ⟨r, -, hrow⟩ := (Outcome.bind_eq_ok _ _ _).1 hrow
  cases r with
  | single r => cases hrow
  | many l =>
    dsimp only at hrow
    split at hrow
    case isTrue => cases hrow
    case isFalse =>
      split at hrow
      case h_1 => cases hrow
      case h_2 hnone =>
        have hall := List.find?_eq_none.1 hnone
        simpa using hall

namespace Schema.Linkage

variable {s : Schema} {d : Dialect} {tables : Sql.Tables}

/-- The join table. -/
def joinTable (j : s.Linkage) : Table :=
  Table.linking j.owner.name j.link j.ownerKey j.targetKey

theorem targetKey_of_mem (hs : s.Sound) {e : Entity} (he : e ∈ s.entities) {key : Field}
    (hk : e.key? = some key) : Table.targetKey s e.name = .ok key := by
  rw [Table.targetKey, Schema.liftSchema_entity hs he]
  dsimp only [bind, Except.bind]
  rw [hk]

theorem find?_joinTable (hs : s.Sound) (j : s.Linkage)
    (htables : Sql.Tables.ofSchema d s = .ok tables) : tables.find? j.table = some j.joinTable := by
  have htarget : Table.targetKey s j.link.target = .ok j.targetKey :=
    j.target_name ▸ targetKey_of_mem hs j.target_mem j.targetKey_eq
  have hlink : Table.ofLink s j.owner j.link = .ok j.joinTable := by
    rw [Table.ofLink, targetKey_of_mem hs j.owner_mem j.ownerKey_eq, htarget]
    rfl
  obtain ⟨t, ht, htable⟩ := (Sql.exists_table htables j.owner_mem).2 j.link j.link_mem
  rw [hlink] at htable
  cases htable
  exact (Keyed.find?_eq_some (Sql.nodup_tableNames hs htables) _ _).2 ⟨ht, rfl⟩

theorem columnOf_owner (j : s.Linkage) : j.joinTable.columnOf "owner" = .ok j.ownerColumn := rfl

theorem assign_pair (j : s.Linkage) (v u : Value) :
    j.joinTable.assign [("owner", v), ("has", u)] = .ok (j.adding v u).assignments := rfl

/-- If there is a row for a link, it is that of the pair of two records along a relationship. -/
theorem exists_of_linkRow (hs : s.Sound) (htables : Sql.Tables.ofSchema d s = .ok tables)
    {h g : Handle} {name : String} {row : Table × Sql.Condition} (hh : h.entity ∈ s.entities)
    (hg : g.entity ∈ s.entities) (hrow : Session.linkRow ⟨s, tables⟩ h name g = .ok row) :
    ∃ j : s.Linkage, j.owner = h.entity ∧ j.link.name = name ∧ j.target = g.entity ∧
      row = (j.joinTable, j.pair h.key g.key) := by
  obtain ⟨r, hr, hrow⟩ := (Outcome.bind_eq_ok _ _ _).1 hrow
  have hfound := Session.relationshipOf_eq_ok.1 hr
  cases r with
  | single r => cases hrow
  | many l =>
    obtain ⟨j, howner, rfl⟩ := exists_of_relationship? hs hh hfound
    have hname := (Query.relationship?_mem hfound).2
    dsimp only at hrow
    split at hrow
    case isTrue => cases hrow
    case isFalse htarget =>
      split at hrow
      case h_1 => cases hrow
      case h_2 =>
        have hjoin : joinEntityName h.entity.name name = j.table := by
          rw [table, howner, ← hname]
          rfl
        rw [hjoin, j.find?_joinTable hs htables] at hrow
        refine ⟨j, howner, hname, ?_, (Except.ok.inj hrow).symm⟩
        exact Schema.eq_of_name_eq hs.distinct j.target_mem hg
          (j.target_name.trans (not_not.1 htarget).symm)

end Schema.Linkage

namespace Session

variable {σ α : Type} {s : Setting σ} {schema : Schema} {w v : World σ} {c n m : Nat} {name : String}
  {h : Handle} {joined : Option Nat} {owners : List Nat}
  {k : Database s.server s.config.dialect schema}

/-! ## Changes of links -/

/-- A selection is refused or answered, and changes no row. -/
theorem select_cases (k : Database s.server s.config.dialect schema) {q : Sql.Select}
    {ps : List (String × Sql.Bound)} (hsent : Request.Sent s.config.dialect (.select q) ps)
    (hl : k.live w.server) :
    (∃ e v, run (execute c (.select q)) s w = (.error e, v) ∧
        (s.server.answer (.select q) ps w.server).1.isOk = false ∧
        k.rows v.server = k.rows w.server ∧ v.records = w.records) ∨
      ∃ reply v, run (execute c (.select q)) s w = (.ok reply, v) ∧
        (s.server.answer (.select q) ps w.server).1 = .ok reply ∧ k.live v.server ∧
        k.rows v.server = k.rows w.server ∧ v.records = w.records := by
  rcases execute_cases (c := c) k hsent rfl hl with
    ⟨e, v, hrun, hrefused, hrows, hrecords⟩ | ⟨reply, v, hrun, hanswer, hlive, hrecords⟩
  · exact Or.inl ⟨_, v, hrun, hrefused, hrows, hrecords⟩
  · have hrows := k.looked q ps w.server
    rw [hanswer] at hrows
    exact Or.inr ⟨reply, v, hrun, congrArg Prod.fst hanswer, hlive, hrows, hrecords⟩

/-- What an act on links finds: handles of the schema, those that take part stored, no two of one row
among the owners, and nothing remembered that has ceased to be so. -/
structure Coherent (k : Database s.server s.config.dialect schema) (owners : List Nat) (act : Act)
    (rows : Sql.Contents k.cells) (records : List Handle) : Prop where
  regular : ∀ h ∈ records, h.Regular schema
  stored : ∀ n, act.Involves n → ∀ h, records[n]? = some h → h.Stored
  apart : Apart owners records
  recalls : k.Recalls owners rows records

/-- What is done with the row of a link, once it is known. -/
def Handles (k : Database s.server s.config.dialect schema)
    (effect : schema.Linkage → Value → Value → Bool → Sql.Contents k.cells →
      Sql.Contents k.cells → Prop)
    (f : Table × Sql.Condition × Handle × Handle → Session σ Bool) : Prop :=
  ∀ (j : schema.Linkage) h g (w : World σ), j.Admits h.key g.key → k.live w.server →
    Ends k (fun r after records => records = w.records ∧
        (∀ e, r = .error e → after = k.rows w.server) ∧
        ∀ b, r = .ok b → effect j h.key g.key b (k.rows w.server) after)
      (k.rows w.server) (run (f (j.joinTable, j.pair h.key g.key, h, g)) s w)

section Edited

variable (hs : schema.Sound)

include hs

theorem handles_link (hk : k.KeepsLinks) : Handles k k.Adds (fun (table, condition, h, g) => do
    let owner ← ofResult (table.columnOf "owner")
    let reply ← execute c (.select
      { outputs := [⟨owner, none⟩], source := { table := table.name }, condition := some condition })
    match reply.rows with
    | row :: _ => do
      let _ ← ofResult (Sql.Binding.readRow s.config.dialect [owner.type] row)
      pure false
    | [] => do
      let assignments ← ofResult (table.assign [("owner", h.key), ("has", g.key)])
      let _ ← execute c (.insert { table := table.name, assignments })
      pure true) := by
  intro j h g w hadmits hl
  obtain ⟨ps, hsent⟩ := (j.proper_looking hs hadmits).exists_sent (d := s.config.dialect)
  dsimp only
  rw [j.columnOf_owner, run_bind_of_ok (run_ofResult (.ok j.ownerColumn))]
  change Ends k _ _ (run (execute c (.select (j.looking h.key g.key)) >>= _) s w)
  rw [run_bind]
  rcases select_cases (c := c) k hsent hl with
    ⟨e, v, hrun, -, hrows, hrecords⟩ | ⟨reply, v, hrun, hanswer, hlive, hrows, hrecords⟩ <;>
    rw [hrun] <;> dsimp only
  · exact ⟨⟨hrecords, fun _ _ => hrows, nofun⟩, nofun, fun _ => hrows⟩
  have hlooked := hk.looked hs hadmits hsent hanswer
  cases hreply : reply.rows with
  | cons row rest =>
    have hlinked : k.Linked j h.key g.key (k.rows w.server) := by
      by_contra hnot
      rw [hreply] at hlooked
      exact List.cons_ne_nil _ _ (hlooked.2 hnot)
    dsimp only
    rw [run_bind, run_ofResult]
    cases Sql.Binding.readRow s.config.dialect [j.ownerColumn.type] row with
    | error e => exact ⟨⟨hrecords, fun _ _ => hrows, nofun⟩, nofun, fun _ => hrows⟩
    | ok cells =>
      refine ⟨⟨hrecords, nofun, fun b hb => ?_⟩, fun _ => hlive, nofun⟩
      cases hb
      change k.Adds j h.key g.key false (k.rows w.server) (k.rows v.server)
      rw [hrows]
      exact Database.adds_of_linked hs hadmits hlinked
  | nil =>
    obtain ⟨ps', hsent'⟩ := (j.proper_adding hadmits).exists_sent (d := s.config.dialect)
    dsimp only
    rw [j.assign_pair, run_bind_of_ok (run_ofResult (.ok (j.adding h.key g.key).assignments))]
    change Ends k _ _ (run (execute c (.insert (j.adding h.key g.key)) >>= _) s v)
    rw [run_bind]
    rcases execute_cases (c := c) k hsent' rfl hlive with
      ⟨e, u, hrun', -, hrows', hrecords'⟩ | ⟨reply', u, hrun', hanswer', hlive', hrecords'⟩ <;>
      rw [hrun'] <;> dsimp only
    · have hback := hrows'.trans hrows
      exact ⟨⟨hrecords'.trans hrecords, fun _ _ => hback, nofun⟩, nofun, fun _ => hback⟩
    · refine ⟨⟨hrecords'.trans hrecords, nofun, fun b hb => ?_⟩, fun _ => hlive', nofun⟩
      cases hb
      obtain ⟨base, hex⟩ := hk.insert j _ _ hadmits _ _ _ _ hsent' hanswer'
      rw [hrows] at hex
      exact Database.adds_of_inserted hs hadmits (hlooked.1 hreply) hex

theorem handles_unlink (hk : k.KeepsLinks) : Handles k k.Drops (fun (table, condition, _, _) => do
    let reply ← execute c (.delete { table := table.name, condition })
    pure (decide (0 < reply.changed))) := by
  intro j h g w hadmits hl
  obtain ⟨ps, hsent⟩ := (j.proper_removing hs hadmits).exists_sent (d := s.config.dialect)
  change Ends k _ _ (run (execute c (.delete (j.removing h.key g.key)) >>= _) s w)
  rw [run_bind]
  rcases execute_cases (c := c) k hsent rfl hl with
    ⟨e, v, hrun, -, hrows, hrecords⟩ | ⟨reply, v, hrun, hanswer, hlive, hrecords⟩ <;>
    rw [hrun] <;> dsimp only
  · exact ⟨⟨hrecords, fun _ _ => hrows, nofun⟩, nofun, fun _ => hrows⟩
  · refine ⟨⟨hrecords, nofun, fun b hb => ?_⟩, fun _ => hlive, nofun⟩
    cases hb
    exact hk.dropped hs hadmits hsent hanswer

/-- What is done about a link begins with the handles that it is between, and ends with its effect or
with none. -/
theorem ends_prepared {effect : schema.Linkage → Value → Value → Bool → Sql.Contents k.cells →
      Sql.Contents k.cells → Prop}
    {f : Table × Sql.Condition × Handle × Handle → Session σ Bool} (hf : Handles k effect f)
    (hknown : ∀ h ∈ w.records, h.entity ∈ schema.entities)
    (hstored : ∀ i, n = i ∨ m = i → ∀ h, w.records[i]? = some h → h.state = .persisted → h.Stored)
    (hl : k.live w.server) :
    Ends k (fun r => k.Reworks effect n name m (k.rows w.server) w.records (r.map .changed))
      (k.rows w.server) (run (prepareLink ⟨schema, k.tables⟩ n name m >>= f) s w) := by
  rcases prepareLink_cases (s := s) ⟨schema, k.tables⟩ n name m w with
    ⟨e, he⟩ | ⟨row, h, g, hok, hn, hm, hrow⟩
  · rw [run_bind, he]
    exact ⟨.refused e, fun hno => (by cases hno), fun _ => rfl⟩
  obtain ⟨hp, hp'⟩ := persisted_of_linkRow hrow
  obtain ⟨j, hj, rfl, hg, rfl⟩ := Schema.Linkage.exists_of_linkRow hs k.built
    (hknown h (List.mem_of_getElem? hn)) (hknown g (List.mem_of_getElem? hm)) hrow
  have hh := hstored n (Or.inl rfl) h hn hp
  have hg' := hstored m (Or.inr rfl) g hm hp'
  have hadmits : j.Admits h.key g.key := ⟨hh.admitted _ (hj ▸ j.ownerKey_eq),
    hg'.admitted _ (hg ▸ j.targetKey_eq), hh.present, hg'.present⟩
  have hends := hf j h g { w with records := w.records.modify n (·.forget j.link.name) } hadmits hl
  rw [run_bind_of_ok hok]
  refine ⟨?_, hends.live, hends.undone⟩
  obtain ⟨hrecords, herror, hdone⟩ := hends.outcome
  rw [hrecords]
  rcases hrun : run (f (j.joinTable, j.pair h.key g.key, h, g)) s
      { w with records := w.records.modify n (·.forget j.link.name) } with ⟨e | b, v⟩ <;>
    rw [hrun] at herror hdone <;> dsimp only at herror hdone ⊢
  · rw [herror e rfl]
    exact .failed e j h hn hj rfl
  · exact .done b _ j h g hn hm hj rfl hg (hdone b rfl)

theorem ends_edit {effect : schema.Linkage → Value → Value → Bool → Sql.Contents k.cells →
      Sql.Contents k.cells → Prop}
    {f : Table × Sql.Condition × Handle × Handle → Session σ Bool} (hf : Handles k effect f)
    (hspares : ∀ {j v u b before after}, effect j v u b before after → k.Spares j v before after)
    {act : Act} (hact : ∀ i, n = i ∨ m = i → act.Involves i) (howner : n ∈ owners)
    (hc : Coherent k owners act (k.rows w.server) w.records) (hl : k.live w.server) :
    Ends k (fun r after records =>
        k.Edits effect n name m (k.rows w.server) w.records (r.map .changed) after ∧
          k.Recalls owners after records)
      (k.rows w.server) (run (prepareLink ⟨schema, k.tables⟩ n name m >>= f) s w) := by
  refine (ends_prepared hs hf (fun h hh => (hc.regular h hh).known)
    (fun i hi h hh _ => hc.stored i (hact i hi) h hh) hl).imp fun r after records hreworks => ?_
  exact ⟨hreworks.edits, hreworks.recalls hspares hc.recalls hc.apart howner⟩

theorem ends_link (hk : k.KeepsLinks) (howner : n ∈ owners)
    (hc : Coherent k owners (.link n name m) (k.rows w.server) w.records) (hl : k.live w.server) :
    Ends k (fun r after records =>
        k.Edits k.Adds n name m (k.rows w.server) w.records (r.map .changed) after ∧
          k.Recalls owners after records)
      (k.rows w.server) (run (link ⟨schema, k.tables⟩ n name m c) s w) := by
  rw [link, run_bind_of_ok run_dialect]
  exact ends_edit hs (handles_link hs hk) (fun h => h.spares hs) (fun _ => id) howner hc hl

theorem ends_unlink (hk : k.KeepsLinks) (howner : n ∈ owners)
    (hc : Coherent k owners (.unlink n name m) (k.rows w.server) w.records) (hl : k.live w.server) :
    Ends k (fun r after records =>
        k.Edits k.Drops n name m (k.rows w.server) w.records (r.map .changed) after ∧
          k.Recalls owners after records)
      (k.rows w.server) (run (unlink ⟨schema, k.tables⟩ n name m c) s w) :=
  ends_edit hs (handles_unlink hs hk) (fun h => h.spares hs) (fun _ => id) howner hc hl

end Edited

/-! ## Relationships that are followed -/

section Followed

/-- What comes of following a relationship: no row has changed, and handles that remember nothing may
have been given out. -/
def Follows (k : Database s.server s.config.dialect schema) (h : Handle) (r : Relationship)
    (x : Session σ Related) : Prop :=
  ∀ w, k.live w.server → Ends k (fun o after records => after = k.rows w.server ∧ ∃ given,
    records = w.records ++ given ∧ (∀ g ∈ given, g.related = []) ∧
      ∀ found, o = .ok found → ∀ j : schema.Linkage, j.owner = h.entity → r = .many j.link →
        k.LeadsTo j h.key after records found) (k.rows w.server) (run x s w)

theorem follows_referenced (h : Handle) (r : Reference) :
    Follows k h (.single r) (referenced schema h r c) := by
  intro w hlive
  have hnothing : ∀ (o : Except Error Related) v, k.rows v.server = k.rows w.server →
      v.records = w.records → (o.isOk = true → k.live v.server) → Ends k (fun o after records =>
        after = k.rows w.server ∧ ∃ given, records = w.records ++ given ∧
          (∀ g ∈ given, g.related = []) ∧ ∀ found, o = .ok found → ∀ j : schema.Linkage,
            j.owner = h.entity → Relationship.single r = .many j.link →
              k.LeadsTo j h.key after records found) (k.rows w.server) (o, v) :=
    fun o v hrows hrecords hl => ⟨⟨hrows, [], by rw [hrecords, List.append_nil],
      List.forall_mem_nil _, fun _ _ _ _ hr => by cases hr⟩, hl, fun _ => hrows⟩
  rw [referenced, run_bind, run_ofResult]
  cases liftSchema (schema.entity r.target) with
  | error e => exact hnothing _ w rfl rfl nofun
  | ok e =>
    dsimp only
    rw [run_bind, run_ofResult]
    cases h.get r.name with
    | error e => exact hnothing _ w rfl rfl nofun
    | ok key =>
      dsimp only
      split
      · exact hnothing _ w rfl rfl fun _ => hlive
      · obtain ⟨⟨hrows, hrecords⟩, hlive', -⟩ := looks_load r.target key c w hlive
        rw [run_bind]
        rcases hload : run (load schema r.target key c) s w with ⟨e | _ | g, v⟩ <;>
          rw [hload] at hrows hrecords hlive' <;> dsimp only at hrows hrecords ⊢
        · exact hnothing _ v hrows hrecords nofun
        · exact hnothing _ v hrows hrecords hlive'
        · obtain ⟨e, values, -, hmake⟩ := made_of_load hload
          refine ⟨⟨hrows, [g], ?_, List.forall_mem_singleton.2 (Handle.related_make hmake),
            fun _ _ _ _ hr => by cases hr⟩, fun _ => hlive' rfl, nofun⟩
          rw [← hrecords]
          rfl

variable (hs : schema.Sound) (hk : k.KeepsLinks)

include hs hk

/-- Who is asked for the targets of a stored handle refuses, or gives out handles of them. -/
theorem linked_cases (hstored : h.Stored) {j : schema.Linkage} (hj : j.owner = h.entity)
    (hlive : k.live w.server) :
    ∃ ps, Request.Sent s.config.dialect (.select (Query.following j h.key)) ps ∧
      ((∃ e v, run (linked schema h j.link c) s w = (.error e, v) ∧
          (s.server.answer (.select (Query.following j h.key)) ps w.server).1.isOk = false ∧
          k.rows v.server = k.rows w.server ∧ v.records = w.records) ∨
        ∃ ns targets v, run (linked schema h j.link c) s w = (.ok (.many ns), v) ∧
          k.live v.server ∧ k.rows v.server = k.rows w.server ∧
          v.records = w.records ++ targets ∧ (∀ g ∈ targets, g.related = []) ∧
          List.Forall₂ (fun n g => w.records.length ≤ n ∧ v.records[n]? = some g) ns targets ∧
          k.Targets j h.key (k.rows v.server) targets) := by
  have hv := hstored.admitted _ (hj ▸ j.ownerKey_eq)
  obtain ⟨ps, hsent⟩ := (Query.proper_following j hv).exists_sent (d := s.config.dialect)
  have htarget : liftSchema (schema.entity j.link.target) = .ok j.target :=
    j.target_name ▸ Schema.liftSchema_entity hs j.target_mem
  have hcompiled := Query.compileRelated_eq hs j k.built h.key
  refine ⟨ps, hsent, ?_⟩
  rw [linked, htarget, run_bind_of_ok (run_ofResult (.ok j.target)), if_neg (by simp [hstored.persisted]),
    run_bind_of_ok run_dialect, ← hj, hcompiled, run_bind_of_ok (run_ofResult (.ok _)), run_bind]
  rcases select_cases (c := c) k hsent hlive with
    ⟨e, v, hrun, hrefused, hrows, hrecords⟩ | ⟨reply, v, hrun, hanswer, hlive', hrows, hrecords⟩
  · have hfailed : run (rows c ⟨Query.following j h.key, j.target.columnNames⟩) s w =
        (.error e, v) := by
      rw [rows, run_bind_of_ok run_dialect, run_bind, hrun]
    rw [hfailed]
    exact Or.inl ⟨e, v, rfl, hrefused, hrows, hrecords⟩
  · obtain ⟨values, targets, hread, hmake, htargets⟩ :=
      hk.targets hs hv hstored.present hsent hanswer
    have hanswered : run (rows c ⟨Query.following j h.key, j.target.columnNames⟩) s w =
        (.ok values, v) := by
      rw [rows, run_bind_of_ok run_dialect, run_bind_of_ok hrun, run_ofResult, hread]
    obtain ⟨ns, hregister, hnumbers⟩ := run_mapM_register (s := s) targets v
    have hgiven : ∀ g ∈ targets, g.related = [] :=
      Outcome.forall_of_mapM (fun _ _ => Handle.related_make) hmake
    rw [hanswered]
    dsimp only
    rw [hmake, run_bind_of_ok (run_ofResult (.ok targets)), run_bind_of_ok hregister, run_pure]
    rw [hrecords] at hnumbers ⊢
    exact Or.inr ⟨ns, targets, _, rfl, hlive', hrows, rfl, hgiven, hnumbers, hrows ▸ htargets⟩

theorem follows_linked (hknown : h.entity ∈ schema.entities) (hstored : h.Stored) {l : ManyLink}
    (hl : h.entity.relationship? name = some (.many l)) :
    Follows k h (.many l) (linked schema h l c) := by
  obtain ⟨j, hj, rfl⟩ := Schema.Linkage.exists_of_relationship? hs hknown hl
  intro w hlive
  obtain ⟨ps, -, hcases⟩ := linked_cases (c := c) hs hk hstored hj hlive
  rcases hcases with ⟨e, v, hrun, -, hrows, hrecords⟩ |
    ⟨ns, targets, v, hrun, hlive', hrows, hrecords, hgiven, hnumbers, htargets⟩ <;> rw [hrun]
  · exact ⟨⟨hrows, [], by rw [hrecords, List.append_nil], List.forall_mem_nil _, nofun⟩, nofun,
      fun _ => hrows⟩
  · refine ⟨⟨hrows, targets, hrecords, hgiven, fun found hfound i hi hlink => ?_⟩,
      fun _ => hlive', nofun⟩
    cases hfound
    obtain rfl := Schema.Linkage.eq_of_link hs (hi.trans hj.symm)
      (congrArg ManyLink.name (Relationship.many.inj hlink).symm)
    exact ⟨ns, targets, rfl, hnumbers.imp fun {n g} hn => ⟨g.related, hn.2⟩, htargets⟩

theorem follows_follow (hknown : h.entity ∈ schema.entities) (hstored : h.Stored) {r : Relationship}
    (hr : h.entity.relationship? name = some r) : Follows k h r (follow schema h r c) := by
  cases r with
  | many l => exact follows_linked hs hk hknown hstored hr
  | single r => exact follows_referenced h r

theorem ends_related (howner : n ∈ owners)
    (hc : Coherent k owners (.related n name) (k.rows w.server) w.records) (hl : k.live w.server) :
    Ends k (fun r after records =>
        k.Relates (.related n name) (k.rows w.server) w.records (r.map .records) after records ∧
          k.Recalls owners after records)
      (k.rows w.server) (run (related schema n name c) s w) := by
  have hfailed (e : Error) : Ends k (fun r after records =>
      k.Relates (.related n name) (k.rows w.server) w.records (r.map .records) after records ∧
        k.Recalls owners after records) (k.rows w.server) (.error e, w) := by
    refine ⟨⟨⟨rfl, fun _ hno => ?_⟩, hc.recalls⟩, fun hno => ?_, fun _ => rfl⟩ <;> cases hno
  cases hn : w.records[n]? with
  | none =>
    rw [related, run_bind, run_handle_of_none hn]
    exact hfailed _
  | some h =>
  rw [related, run_bind_of_ok (run_handle_of_some hn), run_bind, run_ofResult]
  cases hr : relationshipOf h name with
  | error e => exact hfailed e
  | ok r =>
  have hfound := relationshipOf_eq_ok.1 hr
  dsimp only
  cases hcached : h.cached? name with
  | some known =>
    refine ⟨⟨⟨rfl, fun answer hanswer g hg j hj hname => ⟨known, ?_, ?_⟩⟩, hc.recalls⟩, fun _ => hl,
      fun hno => by cases hno⟩
    · cases hanswer
      rfl
    · cases hn.symm.trans hg
      exact hc.recalls n howner h hn j hj known (hname ▸ hcached)
  | none =>
    have hknown := (hc.regular h (List.mem_of_getElem? hn)).known
    obtain ⟨⟨hrows, given, hrecords, hgiven, hleads⟩, hlive, hundone⟩ :=
      follows_follow (c := c) hs hk hknown (hc.stored n rfl h hn) hfound w hl
    have hmore := hc.recalls.append hgiven
    dsimp only
    rw [run_bind]
    rcases hrun : run (follow schema h r c) s w with ⟨e | found, v⟩ <;>
      rw [hrun] at hrows hrecords hleads hlive hundone <;>
      dsimp only at hrows hrecords hleads ⊢
    · refine ⟨⟨⟨hrows, fun _ hno => ?_⟩, ?_⟩, fun hno => ?_, fun _ => hrows⟩
      · cases hno
      · rw [hrows, hrecords]
        exact hmore
      · cases hno
    · have hn' : (w.records ++ given)[n]? = some h := by
        rw [List.getElem?_append_left (List.getElem?_eq_some_iff.1 hn).1, hn]
      have hled : ∀ j : schema.Linkage, j.owner = h.entity → j.link.name = name →
          k.LeadsTo j h.key (k.rows w.server) (w.records ++ given) found := by
        intro j hj hname
        have hlink := j.relationship?_link hs
        rw [hj, hname, hfound] at hlink
        have hleadsTo := hleads found rfl j hj (Option.some.inj hlink)
        rwa [hrows, hrecords] at hleadsTo
      change Ends k _ _ (.ok found, { v with records := v.records.modify n (·.cache name found) })
      refine ⟨⟨⟨hrows, fun answer hanswer g hg j hj hname => ⟨found, ?_, ?_⟩⟩, ?_⟩,
        fun _ => hlive rfl, fun hno => by cases hno⟩
      · cases hanswer
        rfl
      · cases hn.symm.trans hg
        dsimp only
        rw [hrows, hrecords]
        exact (hled j hj hname).later fun m g hg => hg.modify n fun g => ⟨_, rfl⟩
      · dsimp only
        rw [hrows, hrecords]
        exact hmore.cache hn' hled

end Followed

/-! ## Programs -/

/-- The record whose links an act is about. -/
def Act.owner? : Act → Option Nat
  | .related n _ | .link n _ _ | .unlink n _ _ => some n
  | _ => none

/-- A call on the links of a stored record, which one of the owners denotes and no other. -/
structure Call.Linking (k : Database s.server s.config.dialect schema) (joined : Option Nat)
    (owners : List Nat) (call : Call) (w : World σ) : Prop where
  knows : call.schema = schema
  joins : call.joined = joined
  owned : ∃ n ∈ owners, call.act.owner? = some n
  stored : ∀ n, call.act.Involves n → ∀ h, w.records[n]? = some h → h.Stored
  apart : Apart owners w.records
  live : joined ≠ none → k.live w.server

section Calls

variable (hw : k.Ready joined w)

include hw

theorem concludes_edit {call : Call} {op : Store → Nat → Session σ Bool}
    {Q : Except Error Answer → Sql.Contents k.cells → List Handle → Prop}
    (hknows : call.schema = schema) (hjoins : call.joined = joined)
    (hkeeps : ∀ c, (Frame.inTransaction k c).Keeps s (op ⟨schema, k.tables⟩ c))
    (hends : ∀ c u, k.live u.server → k.rows u.server = k.rows w.server → u.records = w.records →
      Ends k (fun r after records => Q (r.map .changed) after records) (k.rows u.server)
        (run (op ⟨schema, k.tables⟩ c) s u)) :
    Concludes k joined Q (run (do pure (.changed (← call.stored op))) s w) := by
  subst hknows hjoins
  have hstored : Concludes k call.joined (fun r after records => Q (r.map .changed) after records)
      (run (call.stored op) s w) := by
    rw [run_stored_of_ok k.built]
    exact concludes_within hw hkeeps hends
  exact hstored.bind (fun _ _ _ => id) fun b v hQ => ⟨.changed b, v.records, rfl, hQ⟩

theorem relates_perform (hs : schema.Sound) (hk : k.KeepsLinks)
    (hregular : ∀ h ∈ w.records, h.Regular schema)
    (hrecalls : k.Recalls owners (k.rows w.server) w.records) {call : Call}
    (hcall : call.Linking k joined owners w) :
    Concludes k joined (fun r after records =>
        k.Relates call.act (k.rows w.server) w.records r after records ∧
          k.Recalls owners after records) (run call.perform s w) := by
  obtain ⟨hknows, hjoins, ⟨n, howner, hact⟩, hstored, hapart, -⟩ := hcall
  have hc : Coherent k owners call.act (k.rows w.server) w.records :=
    ⟨hregular, hstored, hapart, hrecalls⟩
  have hsend := fun c r hr => Frame.inTransaction_send (r := r) k c hr
  obtain ⟨schema, joined, act⟩ := call
  subst hknows hjoins
  cases act with
  | related m name =>
    obtain rfl := Option.some.inj hact
    have hwithin : Concludes k joined (fun r after records =>
        k.Relates (.related m name) (k.rows w.server) w.records (r.map .records) after records ∧
          k.Recalls owners after records) (run (within joined (related schema m name)) s w) := by
      refine concludes_within hw
        (fun c => Frame.keeps_related (Frame.inTransaction_records k c) (fun _ => hsend c _ rfl) _ m name)
        fun c u hl hr hrecords => ?_
      rw [← hr, ← hrecords] at hc ⊢
      exact ends_related hs hk howner hc hl
    exact hwithin.bind (fun _ _ _ => id) fun found v hQ => ⟨_, v.records, rfl, hQ⟩
  | link l name m =>
    obtain rfl := Option.some.inj hact
    refine concludes_edit hw rfl rfl
      (fun c => Frame.keeps_link (Frame.inTransaction_records k c) (hsend c) _ l name m)
      fun c u hl hr hrecords => ?_
    rw [← hr, ← hrecords] at hc ⊢
    exact ends_link hs hk howner hc hl
  | unlink l name m =>
    obtain rfl := Option.some.inj hact
    refine concludes_edit hw rfl rfl
      (fun c => Frame.keeps_unlink (Frame.inTransaction_records k c) (hsend c) _ l name m)
      fun c u hl hr hrecords => ?_
    rw [← hr, ← hrecords] at hc ⊢
    exact ends_unlink hs hk howner hc hl
  | _ => cases hact

end Calls

/-- Relationships are finite sets of links, whatever is done with the links of stored records, and
however often. Linking tells whether the pair was not in the set of its relationship and puts it in,
unlinking tells whether it was and takes it out; all other sets, and all other pairs of the set, stay.
Following a relationship gives handles of exactly the targets of the owner, each once, in the order of
their keys, also where it is remembered. -/
theorem relates_after {calls : List Call} (hs : schema.Valid) (hk : k.KeepsLinks)
    (hregular : ∀ h ∈ w.records, h.Regular schema) (hrest : joined = none → k.AtRest w)
    (hrecalls : k.Recalls owners (k.rows w.server) w.records)
    (hcalls : ∀ before call rest, calls = before ++ call :: rest →
      call.Linking k joined owners (after s before w)) :
    ∀ before call rest, calls = before ++ call :: rest →
      let r := run call.perform s (after s before w)
      k.Relates call.act (k.rows (after s before w).server) (after s before w).records r.1
        (k.rows r.2.server) r.2.records := by
  rw [Schema.valid_iff_sound] at hs
  -- What handles remember is right before each call, and the call leaves it so.
  induction calls generalizing w with
  | nil =>
    intro before call rest hsplit
    cases before <;> cases hsplit
  | cons first calls ih =>
    have hfirst := hcalls [] first calls rfl
    have hready : k.Ready joined w := by
      cases joined with
      | none => exact hrest rfl
      | some c => exact hfirst.live nofun
    obtain ⟨⟨hrelates, hrecalls'⟩, hrest'⟩ :=
      relates_perform hready hs hk hregular hrecalls hfirst
    have hnext : ∀ h ∈ (run first.perform s w).2.records, h.Regular schema := by
      have hknows := hfirst.knows
      subst hknows
      exact regular_perform hs hregular
    intro before call rest hsplit
    cases before with
    | nil =>
      cases hsplit
      exact hrelates
    | cons _ before =>
      cases hsplit
      rw [after_cons]
      refine ih hnext hrest' hrecalls' (fun before' call' rest' heq => ?_) before call rest rfl
      rw [← after_cons]
      exact hcalls (first :: before') call' rest' (by rw [heq]; rfl)

/-- A schema with a relationship from an entity to itself, and one to another entity. -/
def circles : Schema where
  entities := [
    { name := "Person"
      fields := [{ name := "id", type := .bigint, primaryKey := true, auto := true },
        { name := "name", type := .text }]
      relationships := [.many { name := "friends", target := "Person" },
        .many { name := "reads", target := "Book" }] },
    { name := "Book"
      fields := [{ name := "id", type := .bigint, primaryKey := true, auto := true },
        { name := "title", type := .text }] }]

theorem valid_circles : circles.Valid := by decide +kernel

def circlesSetting : Setting (LinkMemory circles) where
  server := LinkMemory.server circles
  config := { dialect := .sqlite, target := "circles.db", acquireTimeout := .zero }
  now := .epoch

def circlesDatabase : Database circlesSetting.server circlesSetting.config.dialect circles :=
  LinkMemory.database ((Schema.valid_iff_sound _).1 valid_circles) rfl (by decide +kernel)

/-- Three people and a book. -/
def circleSheets : Memory.Sheets
  | "Person" => [[("id", .int 1), ("name", .text "Ada")], [("id", .int 2), ("name", .text "Ben")],
      [("id", .int 3), ("name", .text "Cleo")]]
  | "Book" => [[("id", .int 1), ("title", .text "Atlas")]]
  | _ => []

/-- A handle for each record, and no links. -/
def circlesWorld : World (LinkMemory circles) where
  server := ⟨⟨⟨circleSheets, by decide +kernel⟩, ⟨circleSheets, by decide +kernel⟩, false,
    fun _ => rfl⟩, [], [], by decide +kernel, by decide +kernel, fun _ => rfl⟩
  records := circles.entities.flatMap fun e => (circleSheets e.name).map fun values =>
    { entity := e, values, state := .persisted }

/-- Ada makes friends, herself among them, loses one and reads; Ben makes one. -/
def circleActs : List Act :=
  [.link 0 "friends" 2, .link 0 "friends" 1, .link 0 "friends" 2, .related 0 "friends",
    .link 0 "reads" 3, .unlink 0 "friends" 2, .link 1 "friends" 0, .unlink 1 "friends" 2,
    .link 0 "friends" 0, .related 0 "friends", .related 1 "friends"]

def circleProgram : List Call := circleActs.map (⟨circles, none, ·⟩)

theorem regular_circlesWorld : ∀ h ∈ circlesWorld.records, h.Regular circles := by
  have hcolumns : ∀ e ∈ circles.entities, ∀ values ∈ circleSheets e.name,
      values.map (·.1) = e.columnNames := by decide +kernel
  intro h hh
  obtain ⟨e, he, hh⟩ := List.mem_flatMap.1 hh
  obtain ⟨values, hvalues, rfl⟩ := List.mem_map.1 hh
  exact ⟨he, ⟨hcolumns e he values hvalues, List.forall_mem_nil _⟩, nofun⟩

theorem linking_circleProgram (before : List Call) (call : Call) (rest : List Call)
    (h : circleProgram = before ++ call :: rest) :
    call.Linking circlesDatabase none [0, 1] (after circlesSetting before circlesWorld) := by
  have howned : ∀ act ∈ circleActs, ∃ n ∈ [0, 1], act.owner? = some n := by
    simp [circleActs, Act.owner?]
  have hinvolved : ∀ act ∈ circleActs, ∀ n, act.Involves n → n ∈ [0, 1, 2, 3] := by
    simp [circleActs, Act.Involves, or_imp, forall_and]
  have hstored : ∀ i : Fin circleProgram.length, ∀ n ∈ [0, 1, 2, 3], ∀ h ∈
      (after circlesSetting (circleProgram.take i) circlesWorld).records[n]?, h.Stored := by
    decide +kernel
  have hapart : ∀ i : Fin circleProgram.length,
      Apart [0, 1] (after circlesSetting (circleProgram.take i) circlesWorld).records := by
    decide +kernel
  refine forall_split (P := fun before call => call.Linking circlesDatabase none [0, 1]
    (after circlesSetting before circlesWorld)) (fun i => ?_) before call rest h
  obtain ⟨act, hact, hcall⟩ := List.mem_map.1 (List.getElem_mem i.2)
  rw [Fin.getElem_fin, ← hcall]
  exact ⟨rfl, rfl, howned act hact, fun n hn => hstored i n (hinvolved act hact n hn), hapart i,
    fun hne => absurd rfl hne⟩

theorem relates_after_circleProgram :
    (∀ before call rest, circleProgram = before ++ call :: rest →
      let w := after circlesSetting before circlesWorld
      let r := run call.perform circlesSetting w
      circlesDatabase.Relates call.act (circlesDatabase.rows w.server) w.records r.1
        (circlesDatabase.rows r.2.server) r.2.records) ∧
    (after circlesSetting circleProgram circlesWorld).server.links =
      [("Person_friends_Many", 1, 2), ("Person_reads_Many", 1, 1), ("Person_friends_Many", 2, 1),
        ("Person_friends_Many", 1, 1)] ∧
    (after circlesSetting circleProgram circlesWorld).records.map (fun h => Memory.number h.key) =
      [1, 2, 3, 1] ++ [2, 3] ++ [1, 2] ++ [1] := by
  refine ⟨relates_after valid_circles (LinkMemory.keepsLinks _ _ _) regular_circlesWorld
    (fun _ => ?_) (Database.recalls_of_related ?_) linking_circleProgram, ?_, ?_⟩
  · exact ⟨List.forall_mem_nil _, Or.inr (by decide +kernel), rfl⟩
  · intro h hh
    obtain ⟨e, -, hh⟩ := List.mem_flatMap.1 hh
    obtain ⟨values, -, rfl⟩ := List.mem_map.1 hh
    rfl
  · decide +kernel
  · decide +kernel

end Session

end SchemaLedger
