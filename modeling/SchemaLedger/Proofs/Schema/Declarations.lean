import Mathlib.Data.List.Pairwise
import SchemaLedger.Proofs.Keyed
import SchemaLedger.Proofs.Schema.Soundness

set_option autoImplicit false

/-!
# Declarations

A schema as the set of what it declares: entities, their fields and their relationships. Positions
do not matter here, so the effect of a change is a set of declarations gone and a set of new ones. The
columns of a sound entity are its fields and its single references, each under a name of its own.
-/
namespace SchemaLedger

inductive Declaration where
  | entity (name : String)
  | field (entity : String) (field : Field)
  | relationship (entity : String) (relationship : Relationship)

def Declaration.owner : Declaration → String
  | .entity n => n
  | .field n _ => n
  | .relationship n _ => n

def Entity.Declares (e : Entity) : Declaration → Prop
  | .entity n => e.name = n
  | .field n f => e.name = n ∧ f ∈ e.fields
  | .relationship n r => e.name = n ∧ r ∈ e.relationships

theorem Entity.Declares.owner {e : Entity} {d : Declaration} (h : e.Declares d) :
    e.name = d.owner := by
  cases d with
  | entity n => exact h
  | field n f => exact h.1
  | relationship n r => exact h.1

namespace Schema

def Declares (s : Schema) (d : Declaration) : Prop := ∃ e ∈ s.entities, e.Declares d

theorem declares_entity (s : Schema) (n : String) : s.Declares (.entity n) ↔ n ∈ s.names := by
  simp [Declares, Entity.Declares, names]

theorem declares_of_mem {s : Schema} {e : Entity} (he : e ∈ s.entities) :
    s.Declares (.entity e.name) := ⟨e, he, rfl⟩

theorem declares_field_of_mem {s : Schema} {e : Entity} {f : Field} (he : e ∈ s.entities)
    (hf : f ∈ e.fields) : s.Declares (.field e.name f) := ⟨e, he, rfl, hf⟩

theorem declares_relationship_of_mem {s : Schema} {e : Entity} {r : Relationship}
    (he : e ∈ s.entities) (hr : r ∈ e.relationships) : s.Declares (.relationship e.name r) :=
  ⟨e, he, rfl, hr⟩

theorem Declares.owner {s : Schema} {d : Declaration} (h : s.Declares d) :
    s.Declares (.entity d.owner) := by
  obtain ⟨e, he, hd⟩ := h
  exact ⟨e, he, hd.owner⟩

theorem eq_of_name_eq {s : Schema} (hs : s.names.Nodup) {e g : Entity} (he : e ∈ s.entities)
    (hg : g ∈ s.entities) (h : e.name = g.name) : e = g :=
  List.inj_on_of_nodup_map hs he hg h

theorem entity?_eq_some {s : Schema} (hs : s.names.Nodup) (n : String) (e : Entity) :
    s.entity? n = some e ↔ e ∈ s.entities ∧ e.name = n := Keyed.find?_eq_some hs n e

theorem entity?_eq_none (s : Schema) (n : String) :
    s.entity? n = none ↔ ¬ s.Declares (.entity n) := by
  simp [entity?, Declares, Entity.Declares]

theorem declares_iff {s : Schema} (hs : s.names.Nodup) {e : Entity} (he : e ∈ s.entities)
    {d : Declaration} (hd : d.owner = e.name) : s.Declares d ↔ e.Declares d := by
  constructor
  · rintro ⟨g, hg, h⟩
    have heq := eq_of_name_eq hs hg he (h.owner.trans hd)
    exact heq ▸ h
  · exact fun h => ⟨e, he, h⟩

theorem declares_field {s : Schema} (hs : s.names.Nodup) {e : Entity} (he : e ∈ s.entities)
    (f : Field) : s.Declares (.field e.name f) ↔ f ∈ e.fields := by
  rw [declares_iff hs he rfl]
  simp [Entity.Declares]

theorem declares_relationship {s : Schema} (hs : s.names.Nodup) {e : Entity}
    (he : e ∈ s.entities) (r : Relationship) :
    s.Declares (.relationship e.name r) ↔ r ∈ e.relationships := by
  rw [declares_iff hs he rfl]
  simp [Entity.Declares]

/-! ## Sound schemas -/

/-- What the check of a schema accepts: one namespace for entities and join entities, each table in
it once, and no reference into nothing. -/
structure Sound (s : Schema) : Prop where
  distinct : s.names.Nodup
  entities : ∀ e ∈ s.entities, e.Sound
  targets : ∀ n r, s.Declares (.relationship n r) → s.Declares (.entity r.target)
  joins : ∀ n l m k, s.Declares (.relationship n (.many l)) →
    s.Declares (.relationship m (.many k)) →
    joinEntityName n l.name = joinEntityName m k.name → n = m ∧ l.name = k.name
  unshadowed : ∀ n l, s.Declares (.relationship n (.many l)) →
    ¬ s.Declares (.entity (joinEntityName n l.name))

theorem mem_joinNames (n j : String) (rs : List Relationship) :
    j ∈ joinNames n rs ↔ ∃ l, Relationship.many l ∈ rs ∧ joinEntityName n l.name = j := by
  simp only [joinNames, List.mem_map, List.mem_filterMap]
  constructor
  · rintro ⟨l, ⟨r, hr, hl⟩, rfl⟩
    cases r with
    | single q => simp [Relationship.link?] at hl
    | many q =>
      simp only [Relationship.link?, Option.some.injEq] at hl
      exact ⟨q, hr, hl ▸ rfl⟩
  · rintro ⟨l, hl, rfl⟩
    exact ⟨l, ⟨_, hl, rfl⟩, rfl⟩

theorem mem_allJoinNames (s : Schema) (j : String) :
    j ∈ s.allJoinNames ↔
      ∃ n l, s.Declares (.relationship n (.many l)) ∧ joinEntityName n l.name = j := by
  simp only [allJoinNames, List.mem_flatMap, mem_joinNames]
  constructor
  · rintro ⟨e, he, l, hl, rfl⟩
    exact ⟨e.name, l, declares_relationship_of_mem he hl, rfl⟩
  · rintro ⟨_, l, ⟨e, he, rfl, hl⟩, rfl⟩
    exact ⟨e, he, l, hl, rfl⟩

theorem nodup_links {rs : List Relationship} (h : (rs.map (·.name)).Nodup) :
    (rs.filterMap (·.link?)).Nodup := by
  refine List.Nodup.filterMap ?_ (List.Nodup.of_map _ h)
  intro r q l hr hq
  cases r with
  | single _ => simp [Relationship.link?] at hr
  | many _ =>
    cases q with
    | single _ => simp [Relationship.link?] at hq
    | many _ =>
      simp only [Relationship.link?, Option.mem_def, Option.some.injEq] at hr hq
      rw [hr, hq]

theorem many_eq_of_name_eq {e : Entity} (h : e.Sound) {l k : ManyLink}
    (hl : Relationship.many l ∈ e.relationships) (hk : Relationship.many k ∈ e.relationships)
    (hn : l.name = k.name) : l = k := by
  have heq := List.inj_on_of_nodup_map h.relationshipNames hl hk hn
  exact Relationship.many.inj heq

/-- Join entities have different names exactly if no two relationships claim the same one. -/
theorem nodup_allJoinNames {s : Schema} (hs : s.names.Nodup) (he : ∀ e ∈ s.entities, e.Sound) :
    s.allJoinNames.Nodup ↔
      ∀ n l m k, s.Declares (.relationship n (.many l)) → s.Declares (.relationship m (.many k)) →
        joinEntityName n l.name = joinEntityName m k.name → n = m ∧ l.name = k.name := by
  unfold allJoinNames
  rw [List.nodup_flatMap]
  constructor
  · rintro ⟨hin, hdis⟩ _ l _ k ⟨e, hem, rfl, hl⟩ ⟨g, hgm, rfl, hk⟩ hj
    have hjl : joinEntityName e.name l.name ∈ joinNames e.name e.relationships :=
      (mem_joinNames _ _ _).2 ⟨l, hl, rfl⟩
    have hjk : joinEntityName e.name l.name ∈ joinNames g.name g.relationships :=
      (mem_joinNames _ _ _).2 ⟨k, hk, hj.symm⟩
    by_cases heg : e = g
    · subst heg
      have hinj := List.inj_on_of_nodup_map (hin e hem) ((Entity.mem_links e l).2 hl)
        ((Entity.mem_links e k).2 hk) hj
      exact ⟨rfl, by rw [hinj]⟩
    · have : Std.Symm (Function.onFun List.Disjoint fun e : Entity =>
          joinNames e.name e.relationships) := ⟨fun _ _ h _ hl hr => h hr hl⟩
      exact absurd hjk (hdis.forall hem hgm heg hjl)
  · intro hj
    constructor
    · intro e hem
      refine List.Nodup.map_on ?_ (nodup_links (he e hem).relationshipNames)
      intro l hl k hk hlk
      have hl' := (Entity.mem_links e l).1 hl
      have hk' := (Entity.mem_links e k).1 hk
      have hn := hj e.name l e.name k (declares_relationship_of_mem hem hl')
        (declares_relationship_of_mem hem hk') hlk
      exact many_eq_of_name_eq (he e hem) hl' hk' hn.2
    · refine (List.Nodup.of_map _ hs).pairwise_of_forall_ne fun e hem g hgm hne => ?_
      intro j hjl hjk
      obtain ⟨l, hl, rfl⟩ := (mem_joinNames _ _ _).1 hjl
      obtain ⟨k, hk, hlk⟩ := (mem_joinNames _ _ _).1 hjk
      have hn := hj e.name l g.name k (declares_relationship_of_mem hem hl)
        (declares_relationship_of_mem hgm hk) hlk.symm
      exact hne (eq_of_name_eq hs hem hgm hn.1)

theorem check_eq_ok_iff {s : Schema} (hs : s.names.Nodup) (he : ∀ e ∈ s.entities, e.Sound) :
    s.check = .ok () ↔ s.Sound := by
  rw [check_eq_ok, nodup_allJoinNames hs he]
  constructor
  · rintro ⟨ht, hj, hd⟩
    refine ⟨hs, he, ?_, hd, ?_⟩
    · rintro _ r ⟨e, hem, rfl, hr⟩
      exact (declares_entity s _).2 (ht e hem r hr)
    · intro n l hl hd
      exact hj _ ((mem_allJoinNames s _).2 ⟨n, l, hl, rfl⟩) ((declares_entity s _).1 hd)
  · intro h
    refine ⟨fun e hem r hr => ?_, fun j hj hn => ?_, h.joins⟩
    · exact (declares_entity s _).1 (h.targets e.name r (declares_relationship_of_mem hem hr))
    · obtain ⟨n, l, hl, rfl⟩ := (mem_allJoinNames s j).1 hj
      exact h.unshadowed n l hl ((declares_entity s _).2 hn)

theorem valid_iff_sound (s : Schema) : s.Valid ↔ s.Sound := by
  constructor
  · intro h
    have he : ∀ e ∈ s.entities, e.Sound := fun e hem =>
      (Entity.sound_iff e).2 ⟨h.fields e hem, h.entities e hem⟩
    exact (check_eq_ok_iff h.distinct he).1 h.relationships
  · intro h
    have he := fun e hem => (Entity.sound_iff e).1 (h.entities e hem)
    exact ⟨h.distinct, fun e hem => (he e hem).1, fun e hem => (he e hem).2,
      (check_eq_ok_iff h.distinct h.entities).2 h⟩

/-! ## Members of sound schemas -/

theorem Sound.field_sound {s : Schema} (h : s.Sound) {n : String} {f : Field}
    (hf : s.Declares (.field n f)) : f.Sound := by
  obtain ⟨e, he, -, hm⟩ := hf
  exact (h.entities e he).fields f hm

theorem Sound.field_unique {s : Schema} (h : s.Sound) {n : String} {f g : Field}
    (hf : s.Declares (.field n f)) (hg : s.Declares (.field n g)) (hn : f.name = g.name) :
    f = g := by
  obtain ⟨e, he, rfl, hfm⟩ := hf
  rw [declares_field h.distinct he] at hg
  exact Entity.field_eq_of_name_eq (h.entities e he).fieldNames hfm hg hn

theorem Sound.relationship_unique {s : Schema} (h : s.Sound) {n : String} {r q : Relationship}
    (hr : s.Declares (.relationship n r)) (hq : s.Declares (.relationship n q))
    (hn : r.name = q.name) : r = q := by
  obtain ⟨e, he, rfl, hrm⟩ := hr
  rw [declares_relationship h.distinct he] at hq
  exact List.inj_on_of_nodup_map (h.entities e he).relationshipNames hrm hq hn

theorem Sound.key_unique {s : Schema} (h : s.Sound) {n : String} {k l : Field}
    (hk : s.Declares (.field n k)) (hl : s.Declares (.field n l)) (hpk : k.primaryKey = true)
    (hpl : l.primaryKey = true) : k = l := by
  obtain ⟨e, he, rfl, hkm⟩ := hk
  rw [declares_field h.distinct he] at hl
  exact (h.entities e he).key_unique hkm hl hpk hpl

theorem Sound.exists_key {s : Schema} (h : s.Sound) {n : String} (hn : s.Declares (.entity n)) :
    ∃ k, s.Declares (.field n k) ∧ k.primaryKey = true := by
  obtain ⟨e, he, rfl⟩ := hn
  obtain ⟨k, hk⟩ := (h.entities e he).key
  have hm := (Entity.mem_keys e k).1 (hk ▸ List.mem_singleton_self k)
  exact ⟨k, declares_field_of_mem he hm.1, hm.2⟩

end Schema

/-! ## Columns -/

namespace Entity

theorem referenceNames_sublist (rs : List Relationship) :
    ((rs.filterMap (·.reference?)).map (·.name)).Sublist (rs.map (·.name)) := by
  induction rs with
  | nil => exact .slnil
  | cons r rest ih =>
    cases r with
    | single q => exact ih.cons_cons _
    | many l => exact ih.cons _

variable {e : Entity}

theorem Sound.referenceNames (h : e.Sound) : (e.references.map (·.name)).Nodup :=
  h.relationshipNames.sublist (referenceNames_sublist e.relationships)

theorem Sound.columnNames (h : e.Sound) : e.columnNames.Nodup :=
  h.members.sublist ((referenceNames_sublist e.relationships).append_left e.fieldNames)

theorem Sound.find?_reference (h : e.Sound) {r : Reference} (hr : r ∈ e.references) :
    e.references.find? (·.name = r.name) = some r :=
  (Keyed.find?_eq_some h.referenceNames r.name r).2 ⟨hr, rfl⟩

/-- A single reference shares its name with no field. -/
theorem Sound.field?_reference (h : e.Sound) {r : Reference} (hr : r ∈ e.references) :
    e.field? r.name = none := by
  rw [field?, Keyed.find?_eq_none]
  exact fun f hf => h.apart hf ((e.mem_references r).1 hr)

theorem links_withoutLinks (e : Entity) : e.withoutLinks.links = [] := by
  refine List.filterMap_eq_nil_iff.2 fun r hr => ?_
  obtain ⟨q, -, rfl⟩ := List.mem_map.1 hr
  rfl

end Entity

end SchemaLedger
