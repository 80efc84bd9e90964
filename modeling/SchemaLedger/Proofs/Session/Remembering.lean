import SchemaLedger.Proofs.Session.Linking

set_option autoImplicit false

/-!
# What a handle remembers

A handle remembers where its relationships have led until it is assigned the reference, changes the
links or is deleted. Whatever else is done by means of it, what it remembers is what a lookup would
find now: a write changes no row but its own. Only of its own row, if a relationship has led there, it
may remember how that was before it was saved, or that it was not there.
-/
namespace SchemaLedger

open Sql (Exchanged)

/-- The record of a key is the handle's own. -/
def Handle.Owns (h : Handle) (e : Entity) (v : Value) : Prop :=
  h.state = .persisted ∧ h.entity = e ∧ h.key.same v = true

namespace Session

variable {records records' : List Handle} {n m : Nat} {g : Handle}

/-- A number is that of a handle other than the one that is asked. -/
def Other (records : List Handle) (n m : Nat) (g : Handle) : Prop := m ≠ n ∧ Stands records m g

/-- A reference has led to another handle, or to none. -/
inductive Gives (records : List Handle) (n : Nat) : Related → Option Handle → Prop
  | nothing : Gives records n .nothing none
  | one (m : Nat) (g : Handle) (hm : Other records n m g) : Gives records n (.one m) (some g)

theorem Other.set (hm : Other records n m g) (h : Handle) : Other (records.set n h) n m g := by
  obtain ⟨hne, related, hm⟩ := hm
  exact ⟨hne, related, by rw [List.getElem?_set_ne hne.symm, hm]⟩

theorem Other.modify (hm : Other records n m g) (f : Handle → Handle) :
    Other (records.modify n f) n m g := by
  obtain ⟨hne, related, hm⟩ := hm
  exact ⟨hne, related, by rw [List.getElem?_modify_ne _ _ hne.symm, hm]⟩

theorem Gives.later {found : Related} {g : Option Handle} (hg : Gives records n found g)
    (hothers : ∀ m g, Other records n m g → Other records' n m g) : Gives records' n found g := by
  cases hg with
  | nothing => exact .nothing
  | one m g hm => exact .one m g (hothers m g hm)

end Session

namespace Database

open Session (Stands Other Gives)

variable {σ : Type} {server : Server σ} {d : Dialect} {s : Schema} (k : Database server d s)

/-- What a handle knows of the record of a key is what a lookup finds, unless the record is its own. -/
structure Recollects (h : Handle) (e : Entity) (v : Value) (rows : Sql.Contents k.cells)
    (found : Option Handle) : Prop where
  kind : ∀ g, found = some g → g.Begins e .persisted ∧ g.key.same v = true
  current : ¬h.Owns e v → k.Finds e v rows found

/-- Handles of exactly the targets that a handle is linked to, each once, in the order of their keys.
There are none while it is not persisted. -/
structure Reaches (h : Handle) (j : s.Linkage) (rows : Sql.Contents k.cells)
    (targets : List Handle) : Prop where
  present : ∀ g ∈ targets, k.Recollects h j.target g.key rows (some g)
  linked : ∀ u, (∃ g ∈ targets, g.key.same u = true) ↔
    h.state = .persisted ∧ k.Linked j h.key u rows
  sorted : targets.Pairwise fun a b => k.Before j.targetKey.type a.key b.key

/-- Where a relationship of a handle leads: a reference to nothing if it is null, and otherwise to the
record with the key that it has now. -/
inductive Leads (n : Nat) (h : Handle) (rows : Sql.Contents k.cells) (records : List Handle) :
    Relationship → Related → Prop
  | null (q : Reference) (hv : h.value? q.name = some .null) :
      Leads n h rows records (.single q) .nothing
  | reference (q : Reference) (e : Entity) (v : Value) (found : Related) (g : Option Handle)
      (he : e ∈ s.entities) (hname : e.name = q.target) (hv : h.value? q.name = some v)
      (hne : v ≠ .null) (hgives : Gives records n found g)
      (hrecollects : k.Recollects h e v rows g) : Leads n h rows records (.single q) found
  | links (j : s.Linkage) (ns : List Nat) (targets : List Handle) (hj : j.owner = h.entity)
      (hns : List.Forall₂ (Other records n) ns targets) (hreaches : k.Reaches h j rows targets) :
      Leads n h rows records (.many j.link) (.many ns)

/-- Where the relationships of a handle have led is where they still lead. -/
structure Remembers (n : Nat) (h : Handle) (rows : Sql.Contents k.cells) (records : List Handle) :
    Prop where
  known : records[n]? = some h
  key : h.state = .persisted → h.key ≠ .null
  cached : ∀ name r found, h.entity.relationship? name = some r → h.cached? name = some found →
    k.Leads n h rows records r found

/-- No row has changed but that of a key. -/
structure Besides (e : Entity) (v : Value) (before after : Sql.Contents k.cells) : Prop where
  rows : ∀ row, ¬k.HasKey e v row → (row ∈ after e.name ↔ row ∈ before e.name)
  others : ∀ other ≠ e.name, after other = before other

/-- A handle remembers what is so, be it that what has been written stays or that it is taken back. -/
def Remembered (n : Nat) (before after : Sql.Contents k.cells) (records : List Handle) : Prop :=
  ∃ h, k.Remembers n h after records ∧ k.Remembers n h before records

/-- What a handle becomes by being saved, for its relationships: it is persisted with its references,
and no row has changed but its own. -/
structure Settles (h h' : Handle) (before after : Sql.Contents k.cells) : Prop where
  entity : h'.entity = h.entity
  state : h'.state = .persisted
  present : h'.key ≠ .null
  single : h'.key.isSingle = true
  kept : h.state = .persisted → h'.key = h.key
  besides : k.Besides h.entity h'.key before after
  references : ∀ q ∈ h.entity.references, h'.value? q.name = h.value? q.name
  unlinked : h.state ≠ .persisted → ∀ (j : s.Linkage) u, j.owner = h.entity →
    ¬k.Linked j h'.key u after

variable {k} {st st' : σ} {e : Entity} {v x : Value} {j : s.Linkage} {name : String}
  {before after rows : Sql.Contents k.cells} {old new : List (Sql.Row k.cells)}
  {records records' : List Handle} {n : Nat} {h h' : Handle} {found : Related}
  {g : Option Handle} {r : Relationship}

/-! ## Rows of other keys -/

/-- A lookup finds what it found as long as no row with the key comes or goes. -/
theorem Finds.later (hf : k.Finds e v before g)
    (hrows : ∀ row, k.HasKey e v row → (row ∈ after e.name ↔ row ∈ before e.name)) :
    k.Finds e v after g := by
  cases g with
  | none => exact fun row hrow hkey => hf row ((hrows row hkey).1 hrow) hkey
  | some g =>
    obtain ⟨hbegins, row, hrow, hkey, hshows⟩ := hf
    exact ⟨hbegins, row, (hrows row hkey).2 hrow, hkey, hshows⟩

theorem Finds.besides (hs : s.Sound) (hf : k.Finds e v before g) (he : e ∈ s.entities)
    {e' : Entity} (he' : e' ∈ s.entities) (hx : x.isSingle = true)
    (hbesides : k.Besides e' x before after) (hne : ¬(e' = e ∧ x.same v = true)) :
    k.Finds e v after g := by
  refine hf.later fun row hrow => ?_
  by_cases heq : e' = e
  · subst heq
    obtain ⟨key, hk⟩ := (hs.entities e' he').exists_key
    exact hbesides.rows row fun hrow' => hne ⟨rfl, hrow'.same hk hx hrow⟩
  · have hname : e.name ≠ e'.name := fun hname =>
      heq (Schema.eq_of_name_eq hs.distinct he' he hname.symm)
    rw [hbesides.others _ hname]

theorem Recollects.later (hr : k.Recollects h e v before g) (howns : h.Owns e v → h'.Owns e v)
    (hfinds : ¬h'.Owns e v → k.Finds e v before g → k.Finds e v after g) :
    k.Recollects h' e v after g :=
  ⟨hr.kind, fun hnot => hfinds hnot (hr.current (mt howns hnot))⟩

/-- A relationship leads where it led as long as what it starts from has not changed. -/
theorem Leads.later (hleads : k.Leads n h before records r found) (hentity : h'.entity = h.entity)
    (hvalue : ∀ q, r = .single q → h'.value? q.name = h.value? q.name)
    (hothers : ∀ m g, Other records n m g → Other records' n m g)
    (hfound : ∀ e ∈ s.entities, ∀ v g, k.Recollects h e v before g → k.Recollects h' e v after g)
    (hlinked : ∀ j : s.Linkage, j.owner = h.entity → r = .many j.link → ∀ u,
      (h'.state = .persisted ∧ k.Linked j h'.key u after ↔
        h.state = .persisted ∧ k.Linked j h.key u before)) :
    k.Leads n h' after records' r found := by
  cases hleads with
  | null q hv => exact .null q ((hvalue q rfl).trans hv)
  | reference q e v found g he hname hv hne hgives hrecollects =>
    exact .reference q e v found g he hname ((hvalue q rfl).trans hv) hne (hgives.later hothers)
      (hfound e he v g hrecollects)
  | links j ns targets hj hns hreaches =>
    refine .links j ns targets (hj.trans hentity.symm) (hns.imp fun {m g} => hothers m g) ?_
    refine ⟨fun g hg => hfound _ j.target_mem _ _ (hreaches.present g hg), fun u => ?_,
      hreaches.sorted⟩
    rw [hlinked j hj rfl]
    exact hreaches.linked u

theorem Leads.unchanged (hleads : k.Leads n h rows records r found)
    (hothers : ∀ m g, Other records n m g → Other records' n m g)
    (related : List (String × Related)) : k.Leads n { h with related } rows records' r found :=
  hleads.later rfl (fun _ _ => rfl) hothers (fun _ _ _ _ hg => hg.later id fun _ => id)
    fun _ _ _ _ => Iff.rfl

/-! ## What saving changes -/

/-- A reference holds the key of its target. -/
theorem exists_referenced (hs : s.Sound) (he : e ∈ s.entities) {q : Reference}
    (hq : q ∈ e.references) : ∃ target key, target ∈ s.entities ∧ target.name = q.target ∧
      target.key? = some key ∧ Query.columnType? s e q.name = some key.type := by
  obtain ⟨target, htarget, (hname : target.name = q.target)⟩ := hs.targets e.name (.single q)
    (Schema.declares_relationship_of_mem he ((e.mem_references q).1 hq))
  obtain ⟨key, hk⟩ := (hs.entities target htarget).exists_key
  refine ⟨target, key, htarget, hname, hk, ?_⟩
  rw [Query.columnType?, (hs.entities e he).field?_reference hq,
    (hs.entities e he).find?_reference hq]
  dsimp only
  rw [(Schema.entity?_eq_some hs.distinct _ _).2 ⟨htarget, hname⟩, Option.map_some, Query.keyType,
    hk]

/-- A new record keeps its references: they have no defaults, and are no keys. -/
theorem Inserts.references (hs : s.Sound) (hh : h.entity ∈ s.entities)
    (hi : k.Inserts h h' before after) {q : Reference} (hq : q ∈ h.entity.references) :
    h'.value? q.name = h.value? q.name := by
  have hsound := hs.entities _ hh
  obtain ⟨target, key, htarget, -, hk, htype⟩ := exists_referenced hs hh hq
  obtain ⟨own, hown⟩ := hsound.exists_key
  have hfield : ∀ f ∈ h.entity.fields, f.name ≠ q.name := fun f hf =>
    hsound.apart hf ((h.entity.mem_references q).1 hq)
  have hkey : q.name ≠ h.keyName := by
    rw [Handle.keyName_eq hown]
    exact (hfield own (List.mem_filter.1 (List.mem_of_mem_head? hown)).1).symm
  obtain ⟨row, -, -, hfills, hmirrors⟩ := hi.row
  have hkept : ¬h.Leaves q.name := by
    rintro ⟨-, f, hf, hname, -⟩
    exact hfield f hf hname
  obtain ⟨v, hv, hholds⟩ := hfills.given q.name key.type htype hkey hkept
  obtain ⟨v', hv', u', hread', hsame'⟩ := hmirrors q.name key.type htype
  obtain ⟨u, hread, hsame⟩ := hholds.reads
  cases hread.symm.trans hread'
  have hcomparable := (hs.entities _ htarget).key_comparable hk
  obtain rfl := hsame.resolve_right fun hjson => hcomparable hjson.1
  obtain rfl := hsame'.resolve_right fun hjson => hcomparable hjson.1
  rw [hv, Handle.value?, hv']

/-- A handle stays as it has been saved, also if its row is taken back. -/
theorem Settles.undone (hs : s.Sound) (hh : h.entity ∈ s.entities)
    (hsettles : k.Settles h h' before after) : k.Settles h h' before before := by
  refine { hsettles with
    besides := ⟨fun _ _ => Iff.rfl, fun _ _ => rfl⟩, unlinked := fun hnew j u hj => ?_ }
  have hnot := hsettles.unlinked hnew j u hj
  rwa [Linked, hsettles.besides.others _ (j.table_ne hs hh).symm] at hnot

/-! ## What handles remember -/

/-- A reference that is assigned is forgotten, and nothing else depends on it. -/
theorem Remembers.assigned (hr : k.Remembers n h rows records) {column : String}
    (hset : h.set column x = .ok h') : k.Remembers n h' rows (records.set n h') := by
  obtain ⟨-, -, -, heq⟩ := Handle.set_eq_ok.1 hset
  have hlater := Handle.later_set hset
  have hstate : h'.state = h.state := by rw [heq]
  have hkey : h.state = .persisted → h'.key = h.key := fun hp => hlater.key (by simp [hp])
  refine ⟨List.getElem?_set_self (List.getElem?_eq_some_iff.1 hr.known).1, fun hp => ?_,
    fun name r found hname hfound => ?_⟩
  · rw [hstate] at hp
    rw [hkey hp]
    exact hr.key hp
  · have hcached : h'.cached? name = if column = name then none else h.cached? name := by
      rw [heq, Handle.cached?, Handle.cached?, Entries.get?_erase]
    rw [hcached] at hfound
    split at hfound
    case isTrue => cases hfound
    case isFalse hne =>
      rw [hlater.entity] at hname
      have howns : ∀ e v, h.Owns e v → h'.Owns e v := by
        rintro e v ⟨hp, hentity, hsame⟩
        exact ⟨hstate.trans hp, hlater.entity.trans hentity, by rwa [hkey hp]⟩
      refine (hr.cached name r found hname hfound).later hlater.entity (fun q hq => ?_)
        (fun m g hm => hm.set h') (fun e _ v g hg => hg.later (howns e v) fun _ => id)
        fun j _ _ u => ?_
      · have hcolumn : column ≠ q.name := by
          have hqname := (Query.relationship?_mem hname).2
          rw [hq] at hqname
          exact fun h => hne (h.trans hqname)
        rw [heq, Handle.value?, Handle.value?, Entries.get?_put, if_neg hcolumn]
      · rw [hstate]
        exact and_congr_right fun hp => by rw [hkey hp]

/-- What is saved is the record of the handle itself, which is not what it has to remember. -/
theorem Remembers.settled (hr : k.Remembers n h before records) (hs : s.Sound)
    (hh : h.entity ∈ s.entities) (hrelated : h'.related = h.related)
    (hsettles : k.Settles h h' before after) : k.Remembers n h' after (records.set n h') := by
  refine ⟨List.getElem?_set_self (List.getElem?_eq_some_iff.1 hr.known).1,
    fun _ => hsettles.present, fun name r found hname hfound => ?_⟩
  rw [hsettles.entity] at hname
  rw [Handle.cached?, hrelated] at hfound
  refine (hr.cached name r found hname hfound).later hsettles.entity (fun q hq => ?_)
    (fun m g hm => hm.set h') (fun e he v g hg => hg.later (fun hown => ?_) fun hnot hf => ?_)
    fun j hj _ u => ?_
  · have hmem := (Query.relationship?_mem hname).1
    rw [hq] at hmem
    exact hsettles.references q ((h.entity.mem_references q).2 hmem)
  · obtain ⟨hp, hentity, hsame⟩ := hown
    exact ⟨hsettles.state, hsettles.entity.trans hentity, by rwa [hsettles.kept hp]⟩
  · refine hf.besides hs he hh hsettles.single hsettles.besides ?_
    rintro ⟨hentity, hsame⟩
    exact hnot ⟨hsettles.state, hsettles.entity.trans hentity, hsame⟩
  · by_cases hp : h.state = .persisted
    · rw [hsettles.kept hp, Linked, Linked, hsettles.besides.others _ (j.table_ne hs hh).symm]
      simp [hp, hsettles.state]
    · exact iff_of_false (fun hl => hsettles.unlinked hp j u hj hl.2) fun hl => hp hl.1

/-- What changes the links of a relationship that is forgotten leaves all others alone. -/
theorem Remembers.forget (hr : k.Remembers n h before records) (hname : j.link.name = name)
    (hspares : k.Spares j x before after) :
    k.Remembers n (h.forget name) after (records.modify n (·.forget name)) := by
  refine ⟨by rw [List.getElem?_modify_eq, hr.known]; rfl, hr.key,
    fun name' r found hname' hfound => ?_⟩
  rw [Handle.cached?, Handle.forget, Entries.get?_erase] at hfound
  split at hfound
  case isTrue => cases hfound
  case isFalse hne =>
    refine (hr.cached name' r found hname' hfound).later rfl (fun _ _ => rfl)
      (fun m g hm => hm.modify _) (fun e he v g hg => hg.later id fun _ hf => ?_)
      fun i hi hlink u => and_congr_right fun _ => hspares.links i _ u ?_
    · exact hf.later fun row _ => by rw [hspares.entities e he]
    · rintro ⟨rfl, -⟩
      have hqname := (Query.relationship?_mem hname').2
      rw [hlink] at hqname
      exact hne (hname.symm.trans hqname)

theorem Remembers.saved (hr : k.Remembers n h before records) (hs : s.Sound)
    (hh : h.entity ∈ s.entities) (hrelated : h'.related = h.related)
    (hsettles : k.Settles h h' before after) :
    k.Remembered n before after (records.set n h') :=
  ⟨h', hr.settled hs hh hrelated hsettles, hr.settled hs hh hrelated (hsettles.undone hs hh)⟩

/-- A handle may remember where a relationship leads. -/
theorem Remembers.cache (hr : k.Remembers n h rows records)
    (hname : h.entity.relationship? name = some r) (hleads : k.Leads n h rows records r found) :
    k.Remembers n (h.cache name found) rows (records.modify n (·.cache name found)) := by
  refine ⟨by rw [List.getElem?_modify_eq, hr.known]; rfl, hr.key,
    fun name' r' found' hname' hfound => ?_⟩
  rw [Handle.cached?, Handle.cache, Entries.get?_put] at hfound
  split at hfound
  case isTrue heq =>
    subst heq
    obtain rfl := Option.some.inj hfound
    cases hname.symm.trans hname'
    exact hleads.unchanged (fun m g hm => hm.modify _) _
  case isFalse =>
    exact (hr.cached name' r' found' hname' hfound).unchanged (fun m g hm => hm.modify _) _

theorem Remembers.append (hr : k.Remembers n h rows records) (given : List Handle) :
    k.Remembers n h rows (records ++ given) := by
  refine ⟨?_, hr.key, fun name r found hname hfound => ?_⟩
  · rw [List.getElem?_append_left (List.getElem?_eq_some_iff.1 hr.known).1, hr.known]
  · exact (hr.cached name r found hname hfound).unchanged
      (fun m g hm => ⟨hm.1, hm.2.append given⟩) h.related

end Database

namespace Session

variable {σ : Type} {s : Setting σ} {schema : Schema} {w v : World σ} {c n m : Nat}
  {name : String} {h h' : Handle} {joined : Option Nat} {found : Related}
  {k : Database s.server s.config.dialect schema}

/-! ## Relationships that are looked up -/

section Explored

variable (hs : schema.Sound) (hh : h.Storable s.config.dialect schema)

include hs hh

end Explored

/-! ## Acts by means of one handle -/

/-- Acts by means of one handle, with values of its columns; what is linked has a key of its
type. -/
def Act.Solo (schema : Schema) (w : World σ) (n : Nat) : Act → Prop
  | .assign m _ _ => m = n
  | .save m | .delete m | .related m _ => m = n ∧ ∀ h, w.records[n]? = some h → h.Admitted schema
  | .link m _ target | .unlink m _ target => m = n ∧
      (∀ h, w.records[n]? = some h → h.Admitted schema) ∧
      ∀ g, w.records[target]? = some g → g.state = .persisted → g.Stored
  | _ => False

instance Act.decidableSolo (schema : Schema) (w : World σ) (n : Nat) (act : Act) :
    Decidable (act.Solo schema w n) :=
  match act with
  | .assign m _ _ => inferInstanceAs (Decidable (m = n))
  | .save m | .delete m | .related m _ => inferInstanceAs (Decidable (m = n ∧
      ∀ h ∈ w.records[n]?, h.Admitted schema))
  | .link m _ target | .unlink m _ target => inferInstanceAs (Decidable (m = n ∧
      (∀ h ∈ w.records[n]?, h.Admitted schema) ∧
      ∀ g ∈ w.records[target]?, g.state = .persisted → g.Stored))
  | .new .. | .load .. | .find .. => isFalse id

/-- A call on one handle. -/
structure Call.Solo (k : Database s.server s.config.dialect schema) (joined : Option Nat) (n : Nat)
    (call : Call) (w : World σ) : Prop where
  knows : call.schema = schema
  joins : call.joined = joined
  solo : call.act.Solo schema w n
  live : joined ≠ none → k.live w.server

section Bodies

variable (hr : k.Remembers n h (k.rows w.server) w.records) (hs : schema.Sound)
  (hh : h.Storable s.config.dialect schema) (hl : k.live w.server)

include hr hs hh hl

end Bodies

section Acts

variable {commit : σ → Except DriverError Unit × σ}
  {k : Database (s.committing commit).server (s.committing commit).config.dialect schema}

end Acts

end Session

end SchemaLedger
