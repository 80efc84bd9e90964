import SchemaLedger.Proofs.Sql.Catalog
import SchemaLedger.Proofs.Sql.Table

set_option autoImplicit false

/-!
# The layout of a schema

The catalog of a schema, declaration by declaration: an entity gives a table and its key, a field a
column, a single reference a column and a foreign key, and a many-to-many relationship a table.
-/
namespace SchemaLedger

/-- The table that holds what is declared. -/
def Declaration.table : Declaration → String
  | .entity n => n
  | .field n _ => n
  | .relationship n (.single _) => n
  | .relationship n (.many l) => joinEntityName n l.name

def Declaration.isLink : Declaration → Bool
  | .relationship _ (.many _) => true
  | _ => false

theorem Declaration.table_eq_owner {x : Declaration} (h : x.isLink = false) : x.table = x.owner := by
  cases x with
  | relationship n r =>
    cases r with
    | single r => rfl
    | many l => cases h
  | _ => rfl

namespace Sql

/-- The type of the column of a field in a catalog. -/
def fieldType (d : Dialect) (f : Field) : String :=
  if d = .sqlite && f.auto && f.type = .bigint then "INTEGER" else typeName d f.type

/-- The table and column that CREATE TABLE takes the key of a target for. -/
def resolved (target : String) (k : Field) : String × String :=
  Tables.splitTarget s!"{target}.{k.name}"

/-- The facts about the table of a many-to-many relationship between entities with keys `k` and `m`. -/
def linkFacts (d : Dialect) (n : String) (l : ManyLink) (k m : Field) : Catalog :=
  let join := joinEntityName n l.name
  {.table join, .primaryKey join ["owner", "has"],
    .column join "owner" (typeName d k.type) false, .column join "has" (typeName d m.type) false,
    .foreignKey join "owner" (resolved n k).1 (resolved n k).2,
    .foreignKey join "has" (resolved l.target m).1 (resolved l.target m).2}

/-- The facts that a declaration accounts for. -/
inductive Lays (d : Dialect) (s : Schema) : Declaration → Fact → Prop
  | table (n : String) : Lays d s (.entity n) (.table n)
  | key {n : String} {k : Field} (hk : s.Key n k) :
    Lays d s (.entity n) (.primaryKey n [k.name])
  | field (n : String) (f : Field) :
    Lays d s (.field n f) (.column n f.name (fieldType d f) f.nullable)
  | unique {n : String} {f : Field} (hu : f.unique = true) (hp : f.primaryKey = false) :
    Lays d s (.field n f) (.unique n (uniqueConstraintName n f.name) f.name)
  | reference {n : String} {r : Reference} {k : Field} (hk : s.Key r.target k) :
    Lays d s (.relationship n (.single r)) (.column n r.name (typeName d k.type) r.nullable)
  | target {n : String} {r : Reference} {k : Field} (hk : s.Key r.target k) :
    Lays d s (.relationship n (.single r))
      (.foreignKey n r.name (resolved r.target k).1 (resolved r.target k).2)
  | link {n : String} {l : ManyLink} {k m : Field} {f : Fact} (hk : s.Key n k)
    (hm : s.Key l.target m) (hf : f ∈ linkFacts d n l k m) :
    Lays d s (.relationship n (.many l)) f

variable {d : Dialect} {s t : Schema} {x : Declaration} {f : Fact}

theorem Lays.owner (h : Lays d s x f) : f.owner = x.table := by
  cases h with
  | link hk hm hf =>
    simp only [linkFacts, Set.mem_insert_iff, Set.mem_singleton_iff] at hf
    rcases hf with rfl | rfl | rfl | rfl | rfl | rfl <;> rfl
  | _ => rfl

/-- Facts of a declaration in one schema are facts of it in another with the same keys. -/
theorem Lays.congr (h : Lays d s x f) (ht : t.Sound) (hx : t.Declares x)
    (hkeys : ∀ n k l, s.Key n k → t.Key n l → k.name = l.name ∧ k.type = l.type) :
    Lays d t x f := by
  have hkey : ∀ {n : String} {k : Field}, s.Key n k → t.Declares (.entity n) →
      ∃ l, t.Key n l ∧ k.name = l.name ∧ k.type = l.type := by
    intro n k hk hn
    obtain ⟨l, hl⟩ := ht.exists_key hn
    exact ⟨l, hl, hkeys n k l hk hl⟩
  cases h with
  | table n => exact .table n
  | field n f => exact .field n f
  | unique hu hp => exact .unique hu hp
  | key hk =>
    obtain ⟨l, hl, hname, -⟩ := hkey hk hx
    rw [hname]
    exact .key hl
  | @reference n r k hk =>
    obtain ⟨l, hl, -, htype⟩ := hkey hk (ht.targets n _ hx)
    rw [htype]
    exact .reference hl
  | @target n r k hk =>
    obtain ⟨l, hl, hname, -⟩ := hkey hk (ht.targets n _ hx)
    rw [resolved, hname]
    exact .target hl
  | @link n l k m f hk hm hf =>
    obtain ⟨k', hk', hkn, hkt⟩ := hkey hk hx.owner
    obtain ⟨m', hm', hmn, hmt⟩ := hkey hm (ht.targets n _ hx)
    refine .link hk' hm' ?_
    simpa only [linkFacts, resolved, hkn, hkt, hmn, hmt] using hf

theorem Tables.resolve_eq_ok {ts : Tables} {k r : ForeignKey} (h : ts.resolve k = .ok r) :
    (r = ⟨k.column, (splitTarget s!"{k.table}.{k.targetColumn}").1,
        (splitTarget s!"{k.table}.{k.targetColumn}").2⟩) ∧ ∃ t ∈ ts, t.name = r.table := by
  unfold resolve at h
  split at h
  rename_i table column hsplit
  split at h
  · cases h
  · rename_i t ht
    split at h
    · cases h
      have hname := List.find?_some (p := fun t : Table => decide (t.name = table)) ht
      refine ⟨by rw [hsplit], t, List.mem_of_find?_eq_some ht, of_decide_eq_true hname⟩
    · cases h

theorem resolve_of_createTable {ts : Tables} {t : Table} {text : String}
    (h : createTable d ts t = .ok text) : ∀ k ∈ t.foreignKeys, ∃ r, ts.resolve k = .ok r := by
  obtain ⟨uniques, -, h⟩ := (Outcome.bind_eq_ok _ _ _).1 h
  obtain ⟨foreignKeys, hk, -⟩ := (Outcome.bind_eq_ok _ _ _).1 h
  exact (Outcome.mem_of_mapM hk).1

/-- A foreign key that can be resolved names the split target. -/
theorem exists_resolve_iff {ts : Tables} {k : ForeignKey} (hres : ∃ r, ts.resolve k = .ok r)
    (x table y : String) :
    ts.resolve k = .ok ⟨x, table, y⟩ ↔
      k.column = x ∧ Tables.splitTarget s!"{k.table}.{k.targetColumn}" = (table, y) := by
  obtain ⟨r, hr⟩ := hres
  obtain ⟨rfl, -⟩ := Tables.resolve_eq_ok hr
  rw [hr, Except.ok.injEq, ForeignKey.mk.injEq, Prod.ext_iff]

section OfEntity

variable (hs : s.Sound) {e : Entity} (he : e ∈ s.entities) {others : Tables} {t : Table}
  (ht : Table.ofEntity d s e.name e = .ok t)
  (hres : ∀ k ∈ t.foreignKeys, ∃ r, others.resolve k = .ok r)

include hs he ht hres

theorem exists_lays_of_has (h : t.Has d others f) :
    ∃ x, e.Declares x ∧ x.isLink = false ∧ Lays d s x f := by
  have hspec := Table.ofEntity_of_eq_ok hs ht
  cases f with
  | table n =>
    obtain rfl : n = e.name := h.trans hspec.name
    exact ⟨.entity e.name, rfl, rfl, .table _⟩
  | column n x type nullable =>
    obtain ⟨hn, c, hc, rfl, rfl, rfl⟩ := h
    obtain rfl := hn.trans hspec.name
    rcases (hspec.columns c).1 hc with ⟨g, hg, hc⟩ | ⟨r, hr, hc⟩
    · obtain ⟨default, -, rfl⟩ := (Table.fieldColumn_eq_ok d g c).1 hc
      exact ⟨.field e.name g, ⟨rfl, hg⟩, rfl, .field _ _⟩
    · obtain ⟨k, hk, rfl⟩ := (Table.referenceColumn_eq_ok hs r c).1 hc
      exact ⟨.relationship e.name (.single r), ⟨rfl, (e.mem_references r).1 hr⟩, rfl, .reference hk⟩
  | primaryKey n columns =>
    obtain ⟨hn, rfl⟩ := h
    obtain rfl := hn.trans hspec.name
    obtain ⟨k, hk⟩ := (hs.entities e he).key
    rw [hspec.primaryKey, hk]
    exact ⟨.entity e.name, rfl, rfl, .key ((hs.keys he k).1 hk)⟩
  | unique n constraint x =>
    obtain ⟨hn, hu⟩ := h
    obtain rfl := hn.trans hspec.name
    obtain ⟨g, hg, hunique, hp, heq⟩ := (hspec.uniques _).1 hu
    cases heq
    exact ⟨.field e.name g, ⟨rfl, hg⟩, rfl, .unique hunique hp⟩
  | foreignKey n x target y =>
    obtain ⟨hn, k, hk, hresolve⟩ := h
    obtain rfl := hn.trans hspec.name
    obtain ⟨rfl, hsplit⟩ := (exists_resolve_iff (hres k hk) _ _ _).1 hresolve
    obtain ⟨r, hr, key, hkey, rfl⟩ := (hspec.foreignKeys k).1 hk
    obtain ⟨rfl, rfl⟩ := Prod.ext_iff.1 hsplit
    exact ⟨.relationship e.name (.single r), ⟨rfl, (e.mem_references r).1 hr⟩, rfl, .target hkey⟩

theorem has_of_lays (hx : e.Declares x) (hlink : x.isLink = false) (hlays : Lays d s x f) :
    t.Has d others f := by
  have hspec := Table.ofEntity_of_eq_ok hs ht
  cases hlays with
  | table n => exact (show n = e.name from hx.symm).trans hspec.name.symm
  | key hk =>
    obtain rfl : e.name = _ := hx
    refine ⟨hspec.name.symm, ?_⟩
    rw [hspec.primaryKey, (hs.keys he _).2 hk]
    rfl
  | field n f =>
    obtain ⟨rfl, hf⟩ := hx
    obtain ⟨c, hc⟩ := hspec.defaults f hf
    have hcm := (hspec.columns c).2 (.inl ⟨f, hf, hc⟩)
    obtain ⟨default, -, rfl⟩ := (Table.fieldColumn_eq_ok d f c).1 hc
    exact ⟨hspec.name.symm, _, hcm, rfl, rfl, rfl⟩
  | @unique n f hu hp =>
    obtain ⟨rfl, hf⟩ := hx
    exact ⟨hspec.name.symm, (hspec.uniques _).2 ⟨f, hf, hu, hp, rfl⟩⟩
  | @reference n r k hk =>
    obtain ⟨rfl, hr⟩ := hx
    have hc := (Table.referenceColumn_eq_ok hs r _).2 ⟨k, hk, rfl⟩
    exact ⟨hspec.name.symm, _, (hspec.columns _).2 (.inr ⟨r, (e.mem_references r).2 hr, hc⟩), rfl,
      rfl, rfl⟩
  | @target n r k hk =>
    obtain ⟨rfl, hr⟩ := hx
    have hkm := (hspec.foreignKeys _).2 ⟨r, (e.mem_references r).2 hr, k, hk, rfl⟩
    exact ⟨hspec.name.symm, _, hkm, (exists_resolve_iff (hres _ hkm) _ _ _).2 ⟨rfl, rfl⟩⟩
  | link hk hm hf => cases hlink

/-- The facts about the table of an entity are those of its fields and single references. -/
theorem has_ofEntity (f : Fact) :
    t.Has d others f ↔ ∃ x, e.Declares x ∧ x.isLink = false ∧ Lays d s x f :=
  ⟨exists_lays_of_has hs he ht hres,
    fun ⟨_, hx, hlink, hlays⟩ => has_of_lays hs he ht hres hx hlink hlays⟩

end OfEntity

theorem has_linking {n : String} {l : ManyLink} {k m : Field} {others : Tables}
    (hres : ∀ r ∈ (Table.linking n l k m).foreignKeys, ∃ q, others.resolve r = .ok q) (f : Fact) :
    (Table.linking n l k m).Has d others f ↔ f ∈ linkFacts d n l k m := by
  cases f with
  | foreignKey n' x target y =>
    have howner := exists_resolve_iff (hres _ List.mem_cons_self) x target y
    have hhas := exists_resolve_iff (hres _ (List.mem_cons_of_mem _ (List.mem_singleton_self _)))
      x target y
    simp [Table.Has, Table.linking, linkFacts, howner, hhas, resolved, Prod.ext_iff, ← and_or_left,
      @eq_comm _ x, @eq_comm _ target, @eq_comm _ y]
  | column n' x type nullable =>
    simp [Table.Has, Table.linking, linkFacts, Column.storedType, ← and_or_left, @eq_comm _ x,
      @eq_comm _ type]
  | _ => simp [Table.Has, Table.linking, linkFacts]

theorem has_ofLink (hs : s.Sound) {e : Entity} {l : ManyLink} {others : Tables} {t : Table}
    (ht : Table.ofLink s e l = .ok t)
    (hres : ∀ k ∈ t.foreignKeys, ∃ r, others.resolve k = .ok r) (f : Fact) :
    t.Has d others f ↔ Lays d s (.relationship e.name (.many l)) f := by
  obtain ⟨k, m, hk, hm, rfl⟩ := (Table.ofLink_eq_ok hs e l t).1 ht
  rw [has_linking hres]
  constructor
  · exact .link hk hm
  · intro h
    cases h with
    | link hk' hm' hf =>
      rw [hs.key_unique hk.1 hk'.1 hk.2 hk'.2, hs.key_unique hm.1 hm'.1 hm.2 hm'.2]
      exact hf

/-! ## The catalog of a schema -/

theorem mem_ofSchema {ts : Tables} (h : Tables.ofSchema d s = .ok ts) (t : Table) :
    t ∈ ts ↔ (∃ e ∈ s.entities, Table.ofEntity d s e.name e = .ok t) ∨
      ∃ e ∈ s.entities, ∃ l ∈ e.links, Table.ofLink s e l = .ok t := by
  obtain ⟨entities, he, h⟩ := (Outcome.bind_eq_ok _ _ _).1 h
  obtain ⟨joins, hj, h⟩ := (Outcome.bind_eq_ok _ _ _).1 h
  cases h
  rw [List.mem_append, (Outcome.mem_of_mapM he).2, (Outcome.mem_of_mapM hj).2]
  simp only [List.mem_flatMap, List.mem_map, Prod.exists, Prod.mk.injEq]
  constructor
  · rintro (h | ⟨e, l, ⟨e', he', l', hl', rfl, rfl⟩, ht⟩)
    · exact .inl h
    · exact .inr ⟨e', he', l', hl', ht⟩
  · rintro (h | ⟨e, he, l, hl, ht⟩)
    · exact .inl h
    · exact .inr ⟨e, l, ⟨e, he, l, hl, rfl, rfl⟩, ht⟩

/-- Every declaration has its table among those of the schema. -/
theorem exists_table {ts : Tables} (h : Tables.ofSchema d s = .ok ts) {e : Entity}
    (he : e ∈ s.entities) :
    (∃ t ∈ ts, Table.ofEntity d s e.name e = .ok t) ∧
      ∀ l ∈ e.links, ∃ t ∈ ts, Table.ofLink s e l = .ok t := by
  have hmem := mem_ofSchema h
  obtain ⟨entities, hes, h⟩ := (Outcome.bind_eq_ok _ _ _).1 h
  obtain ⟨joins, hjs, -⟩ := (Outcome.bind_eq_ok _ _ _).1 h
  constructor
  · obtain ⟨t, ht⟩ := (Outcome.mem_of_mapM hes).1 e he
    exact ⟨t, (hmem t).2 (.inl ⟨e, he, ht⟩), ht⟩
  · intro l hl
    obtain ⟨t, ht⟩ := (Outcome.mem_of_mapM hjs).1 (e, l)
      (List.mem_flatMap.2 ⟨e, he, List.mem_map.2 ⟨l, hl, rfl⟩⟩)
    exact ⟨t, (hmem t).2 (.inr ⟨e, he, l, hl, ht⟩), ht⟩

theorem tableNames_ofSchema (hs : s.Sound) {ts : Tables} (h : Tables.ofSchema d s = .ok ts) :
    ts.map (·.name) = s.names ++ s.allJoinNames := by
  obtain ⟨entities, he, h⟩ := (Outcome.bind_eq_ok _ _ _).1 h
  obtain ⟨joins, hj, h⟩ := (Outcome.bind_eq_ok _ _ _).1 h
  cases h
  have hentities : entities.map (·.name) = s.names :=
    Outcome.map_of_mapM (fun e t ht => (Table.ofEntity_of_eq_ok hs ht).name) he
  have hjoins : joins.map (·.name) = s.allJoinNames := by
    rw [Outcome.map_of_mapM (k := fun (p : Entity × ManyLink) => joinEntityName p.1.name p.2.name)
      (fun ⟨e, l⟩ t ht => ?_) hj]
    · simp only [List.map_flatMap, List.map_map]
      rfl
    · obtain ⟨k, m, -, -, rfl⟩ := (Table.ofLink_eq_ok hs e l t).1 ht
      rfl
  rw [List.map_append, hentities, hjoins]

/-- Entities and join entities have different names. -/
theorem nodup_names_append (hs : s.Sound) : (s.names ++ s.allJoinNames).Nodup := by
  refine List.nodup_append.2 ⟨hs.distinct,
    (Schema.nodup_allJoinNames hs.distinct hs.entities).2 hs.joins, ?_⟩
  rintro n hn j hj rfl
  obtain ⟨m, l, hl, hjoin⟩ := (Schema.mem_allJoinNames s n).1 hj
  exact hs.unshadowed m l hl (hjoin ▸ (Schema.declares_entity s n).2 hn)

/-- No two tables of a schema have one name. -/
theorem nodup_tableNames (hs : s.Sound) {ts : Tables}
    (h : Tables.ofSchema d s = .ok ts) : (ts.map (·.name)).Nodup :=
  tableNames_ofSchema hs h ▸ nodup_names_append hs

/-- A catalog holds the facts of all declarations. -/
theorem mem_catalog_iff {c : Catalog} (hs : s.Sound) (h : catalog d s = .ok c) (f : Fact) :
    f ∈ c ↔ ∃ x, s.Declares x ∧ Lays d s x f := by
  obtain ⟨ts, hts, hcreate, hmem⟩ := mem_catalog h
  have hres : ∀ t ∈ ts, ∀ k ∈ t.foreignKeys, ∃ r, ts.resolve k = .ok r := by
    intro t ht
    obtain ⟨text, htext⟩ := hcreate t ht
    exact resolve_of_createTable htext
  rw [hmem]
  constructor
  · rintro ⟨t, ht, hhas⟩
    rcases (mem_ofSchema hts t).1 ht with ⟨e, he, hte⟩ | ⟨e, he, l, hl, htl⟩
    · obtain ⟨x, hx, -, hlays⟩ := (has_ofEntity hs he hte (hres t ht) f).1 hhas
      exact ⟨x, ⟨e, he, hx⟩, hlays⟩
    · exact ⟨_, Schema.declares_relationship_of_mem he ((e.mem_links l).1 hl),
        (has_ofLink hs htl (hres t ht) f).1 hhas⟩
  · rintro ⟨x, ⟨e, he, hx⟩, hlays⟩
    obtain ⟨⟨t, ht, hte⟩, hlinks⟩ := exists_table hts he
    cases hlink : x.isLink with
    | false => exact ⟨t, ht, (has_ofEntity hs he hte (hres t ht) f).2 ⟨x, hx, hlink, hlays⟩⟩
    | true =>
      cases hlays with
      | @link n l k m f hk hm hf =>
        obtain ⟨rfl, hl⟩ := hx
        obtain ⟨t, ht, htl⟩ := hlinks l ((e.mem_links l).2 hl)
        exact ⟨t, ht, (has_ofLink hs htl (hres t ht) f).2 (.link hk hm hf)⟩
      | _ => cases hlink

end Sql

end SchemaLedger
