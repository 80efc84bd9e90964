import SchemaLedger.Proofs.Sql.Alteration
import SchemaLedger.Proofs.Sql.Creation
import SchemaLedger.Proofs.Sql.Ddl
import SchemaLedger.Proofs.Sql.Naming

set_option autoImplicit false

/-!
# Steps that can be rendered

A step that can be applied to a schema can still have no statements. When it has some depends on the
tables that are made for them: all of a schema where one is created or rebuilt, and none where a table is
changed in place.
-/
namespace SchemaLedger.Sql.Ddl

open Outcome

variable {d : Dialect} {s before after : Schema} {ts : Tables} {step : Step} {e : Entity}
  {l : ManyLink} {n : String}

/-- Whether a statement of a list of them has a text. -/
def Rendered (d : Dialect) (st : Statement) : Prop := ∃ sql, st.render d = .ok sql

theorem rendered_of_ne {st : Statement} (h : ∀ ts t, st ≠ .createTable ts t) : Rendered d st := by
  cases st with
  | createTable ts t => exact absurd rfl (h ts t)
  | _ => exact ⟨_, rfl⟩

theorem rendered_singleton {st : Statement} (h : ∀ ts t, st ≠ .createTable ts t) :
    ∀ st' ∈ [st], Rendered d st' := List.forall_mem_singleton.2 (rendered_of_ne h)

/-- Statements that are rendered as soon as what they are made of is there. -/
theorem exists_rendered_bind_iff {α : Type} {x : Result α} {f : α → Result (List Statement)}
    (h : ∀ a, x = .ok a → ∃ list, f a = .ok list ∧ ∀ st ∈ list, Rendered d st) :
    (∃ list, x >>= f = .ok list ∧ ∀ st ∈ list, Rendered d st) ↔ ∃ a, x = .ok a := by
  constructor
  · rintro ⟨list, hlist, -⟩
    exact ((bind_eq_ok _ _ _).1 hlist).imp fun _ => And.left
  · rintro ⟨a, ha⟩
    obtain ⟨list, hlist, hrendered⟩ := h a ha
    exact ⟨list, (bind_eq_ok _ _ _).2 ⟨a, ha, hlist⟩, hrendered⟩

theorem exists_render_iff (d : Dialect) (before : Schema) (step : Step) :
    (∃ sqls, render d before step = .ok sqls) ↔
      ∃ list, statements d before step = .ok list ∧ ∀ st ∈ list, Rendered d st := by
  rw [render, exists_bind_iff]
  simp only [exists_mapM_iff, Rendered]

/-! ## Tables created -/

/-- Whether the keys of both ends of a many-to-many relationship are found. -/
def LinkFound (s : Schema) (n : String) (l : ManyLink) : Prop :=
  ∀ k m, s.Key n k → s.Key l.target m → s.Stores (resolved n k) ∧ s.Stores (resolved l.target m)

theorem creates_entity_iff (hs : s.Sound) (hts : Tables.ofSchema d s = .ok ts)
    (he : e ∈ s.entities) :
    (∃ st, tableOf ts e.name = .ok st ∧ Rendered d st) ↔ e.CanBeCreated d s s.Stores := by
  have hd := nodup_tableNames hs hts
  obtain ⟨⟨t, ht, hte⟩, -⟩ := exists_table hts he
  have hname := (Table.ofEntity_of_eq_ok hs hte).name
  have hfind : ts.find? e.name = some t := (Keyed.find?_eq_some hd _ t).2 ⟨ht, hname⟩
  have hstores : ts.Stores = s.Stores := funext fun place => propext (stores_iff hs hts place)
  rw [← hstores, ← exists_createTable_entity_iff hs hd hte]
  simp only [tableOf_eq_ok, hfind]
  constructor
  · rintro ⟨_, ⟨t, ⟨rfl⟩, rfl⟩, h⟩
    exact h
  · exact fun h => ⟨_, ⟨t, rfl, rfl⟩, h⟩

theorem creates_link_iff (hs : s.Sound) (hts : Tables.ofSchema d s = .ok ts) (he : e ∈ s.entities)
    (hl : l ∈ e.links) :
    (∃ st, tableOf ts (joinEntityName e.name l.name) = .ok st ∧ Rendered d st) ↔
      LinkFound s e.name l := by
  have hd := nodup_tableNames hs hts
  obtain ⟨t, ht, htl⟩ := (exists_table hts he).2 l hl
  obtain ⟨k, m, hk, hm, rfl⟩ := (Table.ofLink_eq_ok hs e l t).1 htl
  have hfind : ts.find? (joinEntityName e.name l.name) = some (Table.linking e.name l k m) :=
    (Keyed.find?_eq_some hd _ _).2 ⟨ht, rfl⟩
  have hlink : LinkFound s e.name l ↔ ts.Stores (resolved e.name k) ∧
      ts.Stores (resolved l.target m) := by
    rw [stores_iff hs hts, stores_iff hs hts]
    refine ⟨fun h => h k m hk hm, fun h k' m' hk' hm' => ?_⟩
    rwa [hs.key_unique hk'.1 hk.1 hk'.2 hk.2, hs.key_unique hm'.1 hm.1 hm'.2 hm.2]
  rw [hlink, ← exists_createTable_linking_iff d hd]
  simp only [tableOf_eq_ok, hfind]
  constructor
  · rintro ⟨_, ⟨t, ⟨rfl⟩, rfl⟩, h⟩
    exact h
  · exact fun h => ⟨_, ⟨_, rfl, rfl⟩, h⟩

/-! ## Tables rebuilt -/

/-- Whether SQLite can put a new table in the place of an entity's: all old tables can be made, the
name of the new one is free, and its foreign keys are found among the old tables and itself. -/
structure Rebuildable (before after : Schema) (n : String) : Prop where
  tables : before.HasTables
  free : replacementName n ∉ before.names ++ before.allJoinNames
  goal : ∀ e ∈ after.entities, e.name = n → e.HasTable ∧
    e.CanBeCreated .sqlite after fun place =>
      before.Stores place ∨ replacementName n = place.1 ∧ place.2 ∈ e.columnNames

theorem stores_append (ts : Tables) (t : Table) (place : String × String) :
    Tables.Stores (ts ++ [t]) place ↔
      ts.Stores place ∨ t.name = place.1 ∧ place.2 ∈ t.columnNames := by
  simp only [Tables.Stores, List.mem_append, List.mem_singleton, or_and_right, exists_or,
    exists_eq_left]

/-- What is created when the table of an entity is rebuilt among others. -/
theorem creates_replacement_iff (hs : before.Sound) (ht : after.Sound) {new : Entity}
    {others : Tables} {table : Table}
    (hothers : Tables.ofSchema .sqlite before = .ok others)
    (hfree : replacementName n ∉ before.names ++ before.allJoinNames)
    (htable : Table.ofEntity .sqlite after (replacementName n) new = .ok table) :
    (∃ sql, createTable .sqlite (others ++ [table]) table = .ok sql) ↔
      new.CanBeCreated .sqlite after fun place =>
        before.Stores place ∨ replacementName n = place.1 ∧ place.2 ∈ new.columnNames := by
  have hspec := Table.ofEntity_of_eq_ok ht htable
  have hd : ((others ++ [table]).map (·.name)).Nodup := by
    rw [List.map_append, tableNames_ofSchema hs hothers, List.map_singleton, hspec.name]
    exact List.nodup_append.2 ⟨nodup_names_append hs, List.nodup_singleton _, fun x hx y hy heq =>
      hfree (List.mem_singleton.1 hy ▸ heq ▸ hx)⟩
  have hstores : Tables.Stores (others ++ [table]) = fun place => before.Stores place ∨
      replacementName n = place.1 ∧ place.2 ∈ new.columnNames := by
    refine funext fun place => propext ?_
    rw [stores_append, stores_iff hs hothers, hspec.name, hspec.columnNames]
  rw [exists_createTable_entity_iff ht hd htable, hstores]

theorem rebuilds_iff (hs : before.Sound) (ht : after.Sound) {old new : Entity}
    (hold : before.entity? n = some old) (hnew : after.entity? n = some new)
    (changed : List (String × Expr)) :
    (∃ list, rebuild before after n changed = .ok list ∧ ∀ st ∈ list, Rendered .sqlite st) ↔
      Rebuildable before after n := by
  obtain ⟨hnewin, hnewname⟩ := (Schema.entity?_eq_some ht.distinct n new).1 hnew
  have hfree : ∀ {others : Tables}, Tables.ofSchema .sqlite before = .ok others →
      (others.find? (replacementName n) = none ↔
        replacementName n ∉ before.names ++ before.allJoinNames) := by
    intro others hothers
    rw [← tableNames_ofSchema hs hothers, Tables.find?, @Keyed.find?_eq_none _ Table.name]
    simp
  constructor
  · rintro ⟨list, hlist, hrendered⟩
    obtain ⟨others, old', new', table, h⟩ := exists_rebuilds hlist
    obtain rfl : new = new' := Option.some.inj (hnew.symm.trans h.goal)
    have hname := (hfree h.tables).1 h.free
    refine ⟨(exists_ofSchema_iff .sqlite hs).1 ⟨others, h.tables⟩, hname, fun e he hen => ?_⟩
    obtain rfl := Schema.eq_of_name_eq ht.distinct he hnewin (hen.trans hnewname.symm)
    refine ⟨(exists_ofEntity_iff .sqlite ht he _).1 ⟨table, h.built⟩, ?_⟩
    rw [← creates_replacement_iff hs ht h.tables hname h.built]
    rw [h.statements] at hrendered
    exact hrendered _ List.mem_cons_self
  · rintro ⟨htables, hname, hgoal⟩
    obtain ⟨htable, hcreated⟩ := hgoal new hnewin hnewname
    obtain ⟨others, hothers⟩ := (exists_ofSchema_iff .sqlite hs).2 htables
    obtain ⟨table, hbuilt⟩ := (exists_ofEntity_iff .sqlite ht hnewin (replacementName n)).2 htable
    have hnone := (hfree hothers).2 hname
    have hentity : ∀ {s : Schema} {e : Entity}, s.entity? n = some e →
        liftSchema (s.entity n) = .ok e := fun h =>
      (mapError_eq_ok _ _ _).2 ((Schema.entity_eq_ok _ _ _).2 h)
    refine ⟨replacing others table n (copiedColumns old new changed), ?_, ?_⟩
    · rw [rebuild, hothers, hentity hnew, hentity hold]
      simp [bind, Except.bind, hnone, hbuilt, replacing]
    · refine List.forall_mem_cons.2
        ⟨(creates_replacement_iff hs ht hothers hname hbuilt).2 hcreated, ?_⟩
      intro st hst
      refine rendered_of_ne ?_
      rintro ts t rfl
      split at hst <;> simp at hst

/-! ## Tables changed -/

/-- Whether the default that a step writes outside of CREATE TABLE has a literal. -/
def WritesLiteral : Step → Prop
  | .addField _ f => f.HasLiteral
  | .alterField _ _ new => new.HasLiteral
  | _ => True

theorem exists_addedColumn_iff (d : Dialect) {f : Field} (hf : f.Sound) :
    (∃ c, addedColumn d f = .ok c) ↔ f.HasLiteral := by
  rw [addedColumn, exists_bind_total_iff fun _ => ⟨_, rfl⟩, exists_defaultLiteral_iff d hf]

theorem exists_addedReference (hs : s.Sound) {r : Reference} (hr : s.Declares (.entity r.target)) :
    ∃ p, addedReference s r = .ok p := by
  obtain ⟨k, hk⟩ := exists_targetKey hs hr
  exact ⟨_, (bind_eq_ok _ _ _).2 ⟨k, hk, rfl⟩⟩

theorem exists_alteredValue (old : Field) {new : Field} (hf : new.Sound) (h : new.HasLiteral) :
    ∃ v, alteredValue old new = .ok v := by
  obtain ⟨default, hdefault⟩ := (exists_defaultLiteral_iff .sqlite hf).2 h
  rw [alteredValue, exists_bind_iff]
  refine ⟨default, hdefault, ?_⟩
  split <;> exact ⟨_, rfl⟩

theorem exists_ite {c : Prop} [Decidable c] {α : Type} {x y : Result α} (hx : ∃ a, x = .ok a)
    (hy : ∃ a, y = .ok a) : ∃ a, (if c then x else y) = .ok a := by
  split
  · exact hx
  · exact hy

theorem exists_alterColumn_iff (n : String) (old : Field) {new : Field} (hf : new.Sound) :
    (∃ list, alterColumn n old new = .ok list) ↔ new.HasLiteral := by
  rw [alterColumn, exists_bind_total_iff fun _ => exists_ite (exists_ite ⟨_, rfl⟩ ⟨_, rfl⟩) ⟨_, rfl⟩,
    exists_defaultLiteral_iff .postgresql hf]

/-- Whether the statements that change a table can be rendered: a column is added in place if its default
has a literal, and SQLite rebuilds the table for all else. -/
def ChangeRenderable (d : Dialect) (before after : Schema) (step : Step) : Prop :=
  match d with
  | .sqlite =>
    if addsInPlace step = true then WritesLiteral step
    else Rebuildable before after step.entityName
  | .postgresql => WritesLiteral step

section Change

variable (hs : before.Sound) (ht : after.Sound) (happly : step.apply before = .ok after)
  (hchange : step.isChange = true) (hlink : step.isLink = false)

include hs ht happly hchange

theorem rebuilds_step_iff (changed : List (String × Expr)) :
    (∃ list, rebuild before after step.entityName changed = .ok list ∧
      ∀ st ∈ list, Rendered .sqlite st) ↔ Rebuildable before after step.entityName := by
  obtain ⟨old, new, hold, hstep, -, rfl, -⟩ := (Step.apply_change _ _ hchange).1 happly
  obtain ⟨holdin, hname⟩ := (Schema.entity?_eq_some hs.distinct _ old).1 hold
  have hnew : new.name = step.entityName :=
    (Step.declares_change hchange hname.symm hstep (.entity "")).1.trans hname
  refine rebuilds_iff hs ht hold ((Schema.entity?_eq_some ht.distinct _ new).2 ⟨?_, hnew⟩) changed
  exact (Schema.mem_put hs.distinct new new).2 (.inl rfl)

include hlink

theorem sqlite_iff :
    (∃ list, sqlite before after step = .ok list ∧ ∀ st ∈ list, Rendered .sqlite st) ↔
      if addsInPlace step = true then WritesLiteral step
      else Rebuildable before after step.entityName := by
  have hrebuild := rebuilds_step_iff hs ht happly hchange
  have hadded := fun x hx => (Step.declares_apply hs.distinct happly x).2 (.inl hx)
  cases step with
  | createEntity _ | dropEntity _ => cases hchange
  | addField n f =>
    have hcolumn := exists_addedColumn_iff .sqlite (ht.field_sound (hadded (.field n f) rfl))
    rw [sqlite, addsInPlace]
    split
    case isTrue =>
      rw [WritesLiteral, ← hcolumn]
      exact exists_rendered_bind_iff fun _ _ => ⟨_, rfl, rendered_singleton fun _ _ => nofun⟩
    case isFalse => exact hrebuild []
  | addRelationship n r =>
    cases r with
    | many l => cases hlink
    | single r =>
      rw [sqlite, addsInPlace]
      split
      case isTrue =>
        have hr := ht.targets n _ (hadded (.relationship n (.single r)) rfl)
        obtain ⟨⟨c, target⟩, hp⟩ := exists_addedReference ht hr
        exact iff_of_true ⟨_, (bind_eq_ok _ _ _).2 ⟨_, hp, rfl⟩,
          rendered_singleton fun _ _ => nofun⟩ trivial
      case isFalse => exact hrebuild []
  | alterField n old new =>
    have hdeclared := hadded (.field n new) rfl
    have hsound := ht.field_sound hdeclared
    have hplace : addsInPlace (.alterField n old new) = false := rfl
    rw [sqlite, hplace, if_neg Bool.false_ne_true]
    constructor
    · rintro ⟨list, hlist, hrendered⟩
      obtain ⟨v, -, hlist⟩ := (bind_eq_ok _ _ _).1 hlist
      exact (hrebuild _).1 ⟨list, hlist, hrendered⟩
    · intro h
      obtain ⟨e, he, hname, hin⟩ := hdeclared
      obtain ⟨v, hv⟩ := exists_alteredValue old hsound
        ((h.goal e he hname).1.defaults new hin)
      obtain ⟨list, hlist, hrendered⟩ := (hrebuild [(new.name, v)]).2 h
      exact ⟨list, (bind_eq_ok _ _ _).2 ⟨v, hv, hlist⟩, hrendered⟩
  | removeRelationship n r =>
    cases r with
    | many l => cases hlink
    | single r => exact hrebuild []
  | removeField _ _ | alterReference _ _ _ => exact hrebuild []

theorem postgres_iff :
    (∃ list, postgres after step = .ok list ∧ ∀ st ∈ list, Rendered .postgresql st) ↔
      WritesLiteral step := by
  have hadded := fun x hx => (Step.declares_apply hs.distinct happly x).2 (.inl hx)
  cases step with
  | createEntity _ | dropEntity _ => cases hchange
  | addField n f =>
    have hcolumn := exists_addedColumn_iff .postgresql (ht.field_sound (hadded (.field n f) rfl))
    rw [WritesLiteral, ← hcolumn]
    refine exists_rendered_bind_iff fun c _ => ⟨_, rfl, List.forall_mem_cons.2
      ⟨rendered_of_ne fun _ _ => nofun, ?_⟩⟩
    split
    · exact rendered_singleton fun _ _ => nofun
    · exact List.forall_mem_nil _
  | removeField n f => exact iff_of_true ⟨_, rfl, rendered_singleton fun _ _ => nofun⟩ trivial
  | alterField n old new =>
    have halter := exists_alterColumn_iff n old
      (ht.field_sound (hadded (.field n new) rfl))
    constructor
    · rintro ⟨list, hlist, -⟩
      exact halter.1 ⟨list, hlist⟩
    · intro h
      obtain ⟨list, hlist⟩ := halter.2 h
      refine ⟨list, hlist, fun st hst => rendered_of_ne ?_⟩
      rintro ts t rfl
      exact amends_alterColumn hlist _ hst
  | addRelationship n r =>
    cases r with
    | many l => cases hlink
    | single r =>
      have hr := ht.targets n _ (hadded (.relationship n (.single r)) rfl)
      obtain ⟨⟨c, target⟩, hp⟩ := exists_addedReference ht hr
      exact iff_of_true ⟨_, (bind_eq_ok _ _ _).2 ⟨_, hp, rfl⟩,
        rendered_singleton fun _ _ => nofun⟩ trivial
  | removeRelationship n r =>
    cases r with
    | many l => cases hlink
    | single r => exact iff_of_true ⟨_, rfl, rendered_singleton fun _ _ => nofun⟩ trivial
  | alterReference n old new =>
    refine iff_of_true ⟨_, rfl, rendered_singleton fun _ _ => ?_⟩ trivial
    split <;> exact nofun

theorem alterEntity_iff :
    (∃ list, alterEntity d before after step = .ok list ∧ ∀ st ∈ list, Rendered d st) ↔
      ChangeRenderable d before after step := by
  cases d with
  | sqlite => exact sqlite_iff hs ht happly hchange hlink
  | postgresql => exact postgres_iff hs ht happly hchange hlink

end Change

/-! ## Steps -/

/-- Whether the statements of a step between two schemas can be rendered. -/
def Renderable (d : Dialect) (before after : Schema) : Step → Prop
  | .createEntity e => after.HasTables ∧ e.CanBeCreated d after after.Stores ∧
      ∀ l ∈ e.links, LinkFound after e.name l
  | .dropEntity _ => True
  | .addRelationship n (.many l) => after.HasTables ∧ LinkFound after n l
  | .removeRelationship _ (.many _) => True
  | step => ChangeRenderable d before after step

theorem creates_iff (ht : after.Sound) (he : e ∈ after.entities) :
    (∃ list, (do
        let ts ← Tables.ofSchema d after
        (e.name :: e.links.map fun l => joinEntityName e.name l.name).mapM (tableOf ts)) =
          (.ok list : Result _) ∧ ∀ st ∈ list, Rendered d st) ↔
      after.HasTables ∧ e.CanBeCreated d after after.Stores ∧
        ∀ l ∈ e.links, LinkFound after e.name l := by
  have hall : ∀ {ts : Tables}, Tables.ofSchema d after = .ok ts →
      ((∃ list, (e.name :: e.links.map fun l => joinEntityName e.name l.name).mapM (tableOf ts) =
          .ok list ∧ ∀ st ∈ list, Rendered d st) ↔
        e.CanBeCreated d after after.Stores ∧ ∀ l ∈ e.links, LinkFound after e.name l) := by
    intro ts hts
    rw [exists_mapM_forall_iff, List.forall_mem_cons, List.forall_mem_map,
      creates_entity_iff ht hts he]
    exact and_congr_right' (forall₂_congr fun l hl => creates_link_iff ht hts he hl)
  constructor
  · rintro ⟨list, hlist, hrendered⟩
    obtain ⟨ts, hts, hlist⟩ := (bind_eq_ok _ _ _).1 hlist
    exact ⟨(exists_ofSchema_iff d ht).1 ⟨ts, hts⟩, (hall hts).1 ⟨list, hlist, hrendered⟩⟩
  · rintro ⟨htables, h⟩
    obtain ⟨ts, hts⟩ := (exists_ofSchema_iff d ht).2 htables
    obtain ⟨list, hlist, hrendered⟩ := (hall hts).2 h
    exact ⟨list, (bind_eq_ok _ _ _).2 ⟨ts, hts, hlist⟩, hrendered⟩

theorem links_iff (ht : after.Sound) (hl : after.Declares (.relationship n (.many l))) :
    (∃ list, (do
        let ts ← Tables.ofSchema d after
        (tableOf ts (joinEntityName n l.name)).map ([·])) = (.ok list : Result _) ∧
          ∀ st ∈ list, Rendered d st) ↔ after.HasTables ∧ LinkFound after n l := by
  obtain ⟨e, he, rfl, hin⟩ := hl
  have hlink := fun {ts} (hts : Tables.ofSchema d after = .ok ts) =>
    creates_link_iff ht hts he ((e.mem_links l).2 hin)
  constructor
  · rintro ⟨list, hlist, hrendered⟩
    obtain ⟨ts, hts, hlist⟩ := (bind_eq_ok _ _ _).1 hlist
    obtain ⟨st, hst, rfl⟩ := (map_eq_ok _ _ _).1 hlist
    exact ⟨(exists_ofSchema_iff d ht).1 ⟨ts, hts⟩,
      (hlink hts).1 ⟨st, hst, hrendered st (List.mem_singleton_self st)⟩⟩
  · rintro ⟨htables, h⟩
    obtain ⟨ts, hts⟩ := (exists_ofSchema_iff d ht).2 htables
    obtain ⟨st, hst, hrendered⟩ := (hlink hts).2 h
    exact ⟨[st], (bind_eq_ok _ _ _).2 ⟨ts, hts, (map_eq_ok _ _ _).2 ⟨st, hst, rfl⟩⟩,
      List.forall_mem_singleton.2 hrendered⟩

/-- A step that can be applied has statements exactly if the tables they need can be made. -/
theorem render_iff (d : Dialect) (hs : before.Valid) (hnew : ∀ e, step = .createEntity e → e.Sound)
    (happly : step.apply before = .ok after) :
    (∃ sqls, render d before step = .ok sqls) ↔ Renderable d before after step := by
  rw [Schema.valid_iff_sound] at hs
  have ht := Step.sound_apply hs hnew happly
  have hlift : liftSchema (step.apply before) = .ok after := (mapError_eq_ok _ _ _).2 happly
  have hadded := fun x hx => (Step.declares_apply hs.distinct happly x).2 (.inl hx)
  have hdropped : ∀ names : List String, ∀ st ∈ names.map Statement.dropTable, Rendered d st :=
    fun names => List.forall_mem_map.2 fun _ _ => rendered_of_ne fun _ _ => nofun
  rw [exists_render_iff, statements, hlift]
  cases step with
  | createEntity e =>
    obtain ⟨-, rfl, -⟩ := (Step.apply_createEntity _ _ e).1 happly
    exact creates_iff ht ((Schema.mem_put hs.distinct e e).2 (.inl rfl))
  | dropEntity e =>
    refine iff_of_true ⟨_, rfl, ?_⟩ trivial
    have hall := hdropped ((e.links.map fun l => joinEntityName e.name l.name) ++ [e.name])
    rwa [List.map_append, List.map_map] at hall
  | addRelationship n r =>
    cases r with
    | many l => exact links_iff ht (hadded (.relationship n (.many l)) rfl)
    | single r => exact alterEntity_iff hs ht happly rfl rfl
  | removeRelationship n r =>
    cases r with
    | many l => exact iff_of_true ⟨_, rfl, hdropped [joinEntityName n l.name]⟩ trivial
    | single r => exact alterEntity_iff hs ht happly rfl rfl
  | addField _ _ | removeField _ _ | alterField _ _ _ | alterReference _ _ _ =>
    exact alterEntity_iff hs ht happly rfl rfl

/-- Houses with a dot in the name of their key. -/
def dottedHouses : Schema where
  entities := [{ name := "House", fields := [{ name := "plot.no", type := .int, primaryKey := true }] }]

/-- Parcels, which refer to houses. -/
def parcel : Entity where
  name := "Parcel"
  fields := [{ name := "id", type := .bigint, primaryKey := true }]
  relationships := [.single { name := "house", target := "House" }]

/-- A text that a house may have. -/
def houseNote : Step := .addField "House" { name := "note", nullable := true }

/-- Parcels have no statement, a note has one. -/
theorem render_iff_parcel :
    (dottedHouses.Valid ∧ parcel.Sound ∧
      Step.apply dottedHouses (.createEntity parcel) = .ok (dottedHouses.put parcel) ∧
      ∃ after, houseNote.apply dottedHouses = .ok after) ∧
      ¬ Renderable .sqlite dottedHouses (dottedHouses.put parcel) (.createEntity parcel) ∧
      ∃ sqls, render .sqlite dottedHouses houseNote = .ok sqls := by
  have hvalid : dottedHouses.Valid := by decide +kernel
  have hparcel : parcel.Sound := parcel.sound_iff.2 (by decide +kernel)
  have happly : Step.apply dottedHouses (.createEntity parcel) = .ok (dottedHouses.put parcel) :=
    (Step.apply_createEntity _ _ parcel).2 ⟨by simp [dottedHouses, parcel, Schema.Declares,
      Entity.Declares], rfl, by decide +kernel⟩
  obtain ⟨after, hafter⟩ := exists_ok (x := houseNote.apply dottedHouses) (by decide +kernel)
  refine ⟨⟨hvalid, hparcel, happly, after, hafter⟩, fun h => ?_, ?_⟩
  · obtain ⟨sqls, hsqls⟩ := (render_iff .sqlite hvalid (by rintro _ ⟨⟩; exact hparcel) happly).2 h
    have hfails : (render .sqlite dottedHouses (.createEntity parcel)).isOk = false := by
      decide +kernel
    rw [hsqls] at hfails
    cases hfails
  · exact (render_iff .sqlite hvalid (fun _ h => by cases h) hafter).2 (Or.inl rfl)

/-! ## Plain schemas -/

/-- Whether no name and no default of a schema keeps a table from being created. -/
structure Plain (d : Dialect) (s : Schema) : Prop where
  tables : s.HasTables
  short : ∀ n f, s.Declares (.field n f) → f.unique = true → f.primaryKey = false →
    (uniqueConstraintName n f.name).length ≤ d.longestName
  undotted : ∀ n k, s.Key n k → '.' ∉ k.name.toList

theorem stores_of_field {f : Field} (hf : s.Declares (.field n f)) : s.Stores (n, f.name) := by
  obtain ⟨e, he, rfl, hin⟩ := hf
  exact Or.inl ⟨e, he, rfl, (e.mem_columnNames f.name).2 (Or.inl ⟨f, hin, rfl⟩)⟩

theorem Plain.canBeCreated (h : Plain d s) (he : e ∈ s.entities) {found : String × String → Prop}
    (hfound : ∀ n k, s.Key n k → found (n, k.name)) : e.CanBeCreated d s found := by
  refine ⟨fun f hf => h.short e.name f (Schema.declares_field_of_mem he hf), fun r _ k hk => ?_⟩
  rw [(resolved_eq r.target k).2 (h.undotted _ k hk)]
  exact hfound _ k hk

theorem Plain.linkFound (h : Plain d s) (n : String) (l : ManyLink) : LinkFound s n l := by
  intro k m hk hm
  rw [(resolved_eq n k).2 (h.undotted _ k hk), (resolved_eq l.target m).2 (h.undotted _ m hm)]
  exact ⟨stores_of_field hk.1, stores_of_field hm.1⟩

theorem Plain.writesLiteral (h : Plain d after)
    (hadded : ∀ x, step.Adds x → after.Declares x) : WritesLiteral step := by
  have hliteral : ∀ {n f}, after.Declares (.field n f) → f.HasLiteral := by
    rintro n f ⟨e, he, -, hf⟩
    exact (h.tables e he).defaults f hf
  cases step with
  | addField n f => exact hliteral (hadded (.field n f) rfl)
  | alterField n old new => exact hliteral (hadded (.field n new) rfl)
  | _ => trivial

/-- A step that renames no field leaves the keys where they were. -/
theorem stores_key_before (hs : before.Sound) (ht : after.Sound)
    (happly : step.apply before = .ok after) (hchange : step.isChange = true)
    (hname : ∀ n old new, step = .alterField n old new → old.name = new.name) {k : Field}
    (hk : after.Key n k) : before.Stores (n, k.name) := by
  have hdeclares := Step.declares_apply hs.distinct happly
  rcases (hdeclares _).1 hk.1 with hadd | ⟨hbefore, -⟩
  · obtain ⟨e, e', he, hstep, -⟩ := (Step.apply_change _ _ hchange).1 happly
    obtain ⟨hin, hen⟩ := (Schema.entity?_eq_some hs.distinct _ e).1 he
    cases step with
    | addField m f =>
      obtain ⟨rfl, rfl⟩ := Declaration.field.inj hadd
      obtain ⟨k', hk'⟩ := hs.exists_key (hen ▸ Schema.declares_of_mem hin)
      have hkept := (hdeclares _).2 (Or.inr ⟨hk'.1, id⟩)
      obtain rfl := ht.key_unique hkept hk.1 hk'.2 hk.2
      exact stores_of_field hk'.1
    | alterField m old new =>
      obtain ⟨rfl, rfl⟩ := Declaration.field.inj hadd
      obtain ⟨g, hg, -⟩ := (bind_eq_ok _ _ _).1 hstep
      obtain ⟨f, hf, hfn⟩ := (Step.getField_isOk e old.name).1 ⟨g, hg⟩
      have hen : e.name = n := hen
      rw [← hname _ _ _ rfl, ← hfn, ← hen]
      exact stores_of_field (Schema.declares_field_of_mem hin hf)
    | createEntity _ | dropEntity _ => cases hchange
    | addRelationship _ _ | alterReference _ _ _ => cases hadd
    | removeField _ _ | removeRelationship _ _ => exact hadd.elim
  · exact stores_of_field hbefore

/-- Between plain schemas every step that renames no field and finds the name of its replacement free
has statements. -/
theorem exists_render_of_plain (hs : before.Valid) (hnew : ∀ e, step = .createEntity e → e.Sound)
    (happly : step.apply before = .ok after) (hb : before.HasTables) (ha : Plain d after)
    (hfree : replacementName step.entityName ∉ before.names ++ before.allJoinNames)
    (hname : ∀ n old new, step = .alterField n old new → old.name = new.name) :
    ∃ sqls, render d before step = .ok sqls := by
  rw [render_iff d hs hnew happly]
  rw [Schema.valid_iff_sound] at hs
  have ht := Step.sound_apply hs hnew happly
  have hadded := fun x hx => (Step.declares_apply hs.distinct happly x).2 (.inl hx)
  have hrest : step.isChange = true → ChangeRenderable d before after step := by
    intro hchange
    have hliteral := ha.writesLiteral hadded
    cases d with
    | postgresql => exact hliteral
    | sqlite =>
      rw [ChangeRenderable]
      split
      · exact hliteral
      · exact ⟨hb, hfree, fun e he _ => ⟨ha.tables e he, ha.canBeCreated he fun n k hk =>
          Or.inl (stores_key_before hs ht happly hchange hname hk)⟩⟩
  cases step with
  | createEntity e =>
    obtain ⟨-, rfl, -⟩ := (Step.apply_createEntity _ _ e).1 happly
    have he := (Schema.mem_put hs.distinct e e).2 (.inl rfl)
    exact ⟨ha.tables, ha.canBeCreated he fun n k hk => stores_of_field hk.1,
      fun l _ => ha.linkFound e.name l⟩
  | dropEntity e => trivial
  | addRelationship n r =>
    cases r with
    | many l => exact ⟨ha.tables, ha.linkFound n l⟩
    | single r => exact hrest rfl
  | removeRelationship n r =>
    cases r with
    | many l => trivial
    | single r => exact hrest rfl
  | addField _ _ | removeField _ _ | alterField _ _ _ | alterReference _ _ _ => exact hrest rfl

end SchemaLedger.Sql.Ddl
