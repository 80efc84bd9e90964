import SchemaLedger.Proofs.Migration.Effect
import SchemaLedger.Proofs.Schema.Declarations
import SchemaLedger.Sql.Table

set_option autoImplicit false

/-!
# Tables of a schema

What the tables made of a schema consist of, read off its declarations.
-/
namespace SchemaLedger

namespace Schema

/-- The primary key of an entity. -/
def Key (s : Schema) (n : String) (k : Field) : Prop :=
  s.Declares (.field n k) ∧ k.primaryKey = true

theorem Sound.keys {s : Schema} (h : s.Sound) {e : Entity} (he : e ∈ s.entities) (k : Field) :
    e.keys = [k] ↔ s.Key e.name k := by
  obtain ⟨l, hl⟩ := (h.entities e he).key
  rw [Key, declares_field h.distinct he, ← Entity.mem_keys, hl, List.mem_singleton]
  constructor
  · intro hk
    exact (List.singleton_inj.1 hk).symm
  · rintro rfl
    rfl

end Schema

namespace Sql.Table

variable {d : Dialect} {s : Schema}

theorem fieldColumn_eq_ok (d : Dialect) (f : Field) (c : Column) :
    fieldColumn d f = .ok c ↔ ∃ default, defaultLiteral d f = .ok default ∧
      c = { name := f.name, type := f.type, serial := f.auto && f.type.isSerial,
            rowNumber := d = .sqlite && f.auto && f.type = .bigint, default,
            nullable := f.nullable } := by
  rw [fieldColumn, Outcome.bind_eq_ok]
  simp only [Except.ok.injEq, eq_comm]

theorem targetKey_eq_ok (hs : s.Sound) (n : String) (k : Field) :
    targetKey s n = .ok k ↔ s.Key n k := by
  rw [targetKey, Outcome.bind_eq_ok]
  simp only [liftSchema, Outcome.mapError_eq_ok, Schema.entity_eq_ok_iff hs.distinct]
  constructor
  · rintro ⟨e, ⟨he, rfl⟩, hk⟩
    obtain ⟨l, hl⟩ := (hs.entities e he).key
    rw [Entity.key?, hl] at hk
    cases hk
    exact (hs.keys he k).1 hl
  · intro hk
    obtain ⟨e, he, rfl⟩ := hk.1.owner
    refine ⟨e, ⟨he, rfl⟩, ?_⟩
    rw [Entity.key?, (hs.keys he k).2 hk]
    rfl

theorem referenceColumn_eq_ok (hs : s.Sound) (r : Reference) (c : Column) :
    referenceColumn s r = .ok c ↔ ∃ k, s.Key r.target k ∧
      c = { name := r.name, type := k.type, nullable := r.nullable } := by
  rw [referenceColumn, Outcome.bind_eq_ok]
  simp only [targetKey_eq_ok hs, Except.ok.injEq, eq_comm]

/-- What the table of an entity consists of. -/
structure OfEntity (d : Dialect) (s : Schema) (name : String) (e : Entity) (t : Table) : Prop where
  name : t.name = name
  columns : ∀ c, c ∈ t.columns ↔
    (∃ f ∈ e.fields, fieldColumn d f = .ok c) ∨ ∃ r ∈ e.references, referenceColumn s r = .ok c
  columnNames : ∀ c, c ∈ t.columnNames ↔ c ∈ e.columnNames
  defaults : ∀ f ∈ e.fields, ∃ c, fieldColumn d f = .ok c
  primaryKey : t.primaryKey = e.keys.map (·.name)
  uniques : ∀ u, u ∈ t.uniques ↔ ∃ f ∈ e.fields, f.unique = true ∧ f.primaryKey = false ∧
    u = ⟨uniqueConstraintName e.name f.name, f.name⟩
  foreignKeys : ∀ k, k ∈ t.foreignKeys ↔
    ∃ r ∈ e.references, ∃ key, s.Key r.target key ∧ k = ⟨r.name, r.target, key.name⟩

theorem ofEntity_of_eq_ok (hs : s.Sound) {name : String} {e : Entity} {t : Table}
    (h : ofEntity d s name e = .ok t) : OfEntity d s name e t := by
  obtain ⟨fields, hf, h⟩ := (Outcome.bind_eq_ok _ _ _).1 h
  obtain ⟨references, hr, h⟩ := (Outcome.bind_eq_ok _ _ _).1 h
  obtain ⟨foreignKeys, hk, h⟩ := (Outcome.bind_eq_ok _ _ _).1 h
  obtain ⟨hfall, hf⟩ := Outcome.mem_of_mapM hf
  obtain ⟨hrall, hr⟩ := Outcome.mem_of_mapM hr
  obtain ⟨-, hk⟩ := Outcome.mem_of_mapM hk
  split at h
  · cases h
  cases h
  refine ⟨rfl, fun c => ?_, fun c => ?_, hfall, rfl, fun u => ?_, fun k => ?_⟩
  · rw [List.mem_append, hf, hr]
  · rw [columnNames, List.mem_map, Entity.mem_columnNames]
    simp only [List.mem_append, hf, hr]
    constructor
    · rintro ⟨c, ⟨f, hfm, hc⟩ | ⟨r, hrm, hc⟩, rfl⟩
      · obtain ⟨default, -, rfl⟩ := (fieldColumn_eq_ok d f c).1 hc
        exact .inl ⟨f, hfm, rfl⟩
      · obtain ⟨key, -, rfl⟩ := (referenceColumn_eq_ok hs r c).1 hc
        exact .inr ⟨r, hrm, rfl⟩
    · rintro (⟨f, hfm, rfl⟩ | ⟨r, hrm, rfl⟩)
      · obtain ⟨c, hc⟩ := hfall f hfm
        obtain ⟨default, -, rfl⟩ := (fieldColumn_eq_ok d f c).1 hc
        exact ⟨_, .inl ⟨f, hfm, hc⟩, rfl⟩
      · obtain ⟨c, hc⟩ := hrall r hrm
        obtain ⟨key, -, rfl⟩ := (referenceColumn_eq_ok hs r c).1 hc
        exact ⟨_, .inr ⟨r, hrm, hc⟩, rfl⟩
  · simp [and_assoc, @eq_comm _ u]
  · rw [hk]
    simp only [Outcome.bind_eq_ok, targetKey_eq_ok hs, Except.ok.injEq, @eq_comm _ k]

/-- The table of a many-to-many relationship between entities with keys `k` and `m`. -/
def linking (n : String) (l : ManyLink) (k m : Field) : Table where
  name := joinEntityName n l.name
  columns := [{ name := "owner", type := k.type }, { name := "has", type := m.type }]
  primaryKey := ["owner", "has"]
  foreignKeys := [⟨"owner", n, k.name⟩, ⟨"has", l.target, m.name⟩]

theorem ofLink_eq_ok (hs : s.Sound) (e : Entity) (l : ManyLink) (t : Table) :
    ofLink s e l = .ok t ↔ ∃ k m, s.Key e.name k ∧ s.Key l.target m ∧ t = linking e.name l k m := by
  simp only [ofLink, Outcome.bind_eq_ok, targetKey_eq_ok hs, Except.ok.injEq, ← exists_and_left,
    linking, @eq_comm _ t]

end Sql.Table

end SchemaLedger
