import SchemaLedger.Proofs.Sql.Layout
import SchemaLedger.Proofs.Sql.Literal
import SchemaLedger.Sql.Ddl

set_option autoImplicit false

/-!
# Tables that can be created

When the tables of a schema can be made and a statement creates one of them. A valid schema can still
hold a default without a literal, a column without a name, a constraint with too long a name, and a key
whose dots send a reference to another table.
-/
namespace SchemaLedger

open Outcome

/-! ## Defaults -/

/-- Whether a default has a literal: JSON has to be a document, and an integer of a REAL column a
double. -/
def Field.HasLiteral (f : Field) : Prop :=
  f.default.isNull = true ∨ (f.type = .json → Json.isDocument f.default = true) ∧
    (f.type = .real → ∀ n, f.default = .int n → (Double.ofInt? n).isSome = true)

/-- Whether an entity can have a table: its defaults have literals, and its columns names. -/
structure Entity.HasTable (e : Entity) : Prop where
  defaults : ∀ f ∈ e.fields, f.HasLiteral
  named : "" ∉ e.columnNames

def Schema.HasTables (s : Schema) : Prop := ∀ e ∈ s.entities, e.HasTable

/-! ## Places -/

/-- Whether the tables of a schema have a column: one of an entity, or of a join entity. -/
def Schema.Stores (s : Schema) (place : String × String) : Prop :=
  (∃ e ∈ s.entities, e.name = place.1 ∧ place.2 ∈ e.columnNames) ∨
    ∃ n l, s.Declares (.relationship n (.many l)) ∧ joinEntityName n l.name = place.1 ∧
      place.2 ∈ ["owner", "has"]

/-- Whether the keys of an entity's targets are found and the names of its constraints are short
enough. -/
structure Entity.CanBeCreated (e : Entity) (d : Dialect) (s : Schema)
    (found : String × String → Prop) : Prop where
  constraints : ∀ f ∈ e.fields, f.unique = true → f.primaryKey = false →
    (Sql.uniqueConstraintName e.name f.name).length ≤ d.longestName
  references : ∀ r ∈ e.references, ∀ k, s.Key r.target k → found (Sql.resolved r.target k)

namespace Sql

variable {d : Dialect} {s : Schema} {e : Entity} {f : Field}

theorem exists_realLiteral_iff (n : ℤ) :
    (∃ literal, realLiteral (.int n) = .ok literal) ↔ (Double.ofInt? n).isSome = true := by
  simp only [realLiteral, Value.asInt?]
  cases Double.ofInt? n with
  | none => simp
  | some x => simp

theorem exists_defaultLiteral_iff (d : Dialect) (hf : f.Sound) :
    (∃ default, defaultLiteral d f = .ok default) ↔ f.HasLiteral := by
  rw [defaultLiteral, Field.HasLiteral]
  split
  case isTrue hnull => exact iff_of_true ⟨_, rfl⟩ (Or.inl hnull)
  case isFalse hnull =>
    rw [or_iff_right hnull]
    have hfits := fits_of_check hf.default (Bool.eq_false_iff.2 hnull)
    by_cases hj : f.type = .json
    · rw [hj]
      dsimp only
      cases hd : Json.isDocument f.default <;> simp
    · rcases fits_cases hj hfits with ⟨htype, b, hv⟩ | ⟨htype, n, hv⟩ | ⟨htype, ⟨n, hv⟩ | ⟨x, hv⟩⟩ |
        ⟨htype, t, hv⟩
      · rw [htype, hv]
        simp
      · rcases htype with htype | htype <;> simp [htype, hv, Value.asInt?]
      · rw [htype, hv]
        simp only [exists_map_iff, exists_realLiteral_iff, reduceCtorEq, false_implies, true_and,
          forall_const, Value.int.injEq, forall_eq']
      · rw [htype, hv]
        simp [realLiteral, Except.map]
      · rw [htype, hv]
        simp

theorem exists_fieldColumn_iff (d : Dialect) (hf : f.Sound) :
    (∃ c, Table.fieldColumn d f = .ok c) ↔ f.HasLiteral := by
  rw [Table.fieldColumn, exists_bind_total_iff fun _ => ⟨_, rfl⟩, exists_defaultLiteral_iff d hf]

/-- What a default without a literal raises, or a column without a name. -/
def Unmakeable (err : Error) : Prop :=
  ∃ defect ∈ [Defect.type, .overflow, .argument], ∃ text, err = .defect defect text

theorem unmakeable_of_realLiteral {v : Value} {err : Error} (h : realLiteral v = .error err) :
    Unmakeable err := by
  unfold realLiteral at h
  split at h
  · cases h
  · split at h
    · cases h
      exact ⟨.type, by decide, _, rfl⟩
    · split at h
      · cases h
      · cases h
        exact ⟨.overflow, by decide, _, rfl⟩

theorem unmakeable_of_defaultLiteral {err : Error} (h : defaultLiteral d f = .error err) :
    Unmakeable err := by
  unfold defaultLiteral at h
  split at h
  · cases h
  -- by the kind of literal: truth values, documents, texts, doubles, integers
  · split at h
    · cases h
    · split at h
      · cases h
      · cases h
        exact ⟨.type, by decide, _, rfl⟩
    · cases h
    · exact unmakeable_of_realLiteral ((map_eq_error _ _ _).1 h)
    · split at h
      · cases h
      · cases h
        exact ⟨.type, by decide, _, rfl⟩

theorem unmakeable_of_fieldColumn {err : Error} (h : Table.fieldColumn d f = .error err) :
    Unmakeable err := by
  rcases (bind_eq_error _ _ _).1 h with h | ⟨_, -, h⟩
  · exact unmakeable_of_defaultLiteral h
  · cases h

/-! ## Tables -/

theorem exists_targetKey (hs : s.Sound) {n : String} (hn : s.Declares (.entity n)) :
    ∃ k, Table.targetKey s n = .ok k := by
  obtain ⟨k, hk⟩ := hs.exists_key hn
  exact ⟨k, (Table.targetKey_eq_ok hs n k).2 hk⟩

/-- Whatever is made of references and the keys of their targets, the keys are found. -/
theorem exists_ofReferences (hs : s.Sound) (he : e ∈ s.entities) {β : Type}
    (use : Reference → Field → β) :
    ∃ ys, e.references.mapM (fun r => do
      let key ← Table.targetKey s r.target
      Except.ok (use r key)) = .ok ys := by
  refine exists_mapM fun r hr => ?_
  obtain ⟨k, hk⟩ := exists_targetKey hs (hs.targets e.name _
    (Schema.declares_relationship_of_mem he ((e.mem_references r).1 hr)))
  exact ⟨use r k, (bind_eq_ok _ _ _).2 ⟨k, hk, rfl⟩⟩

/-- With the references found, a table depends on the columns of the fields. -/
theorem ofEntity_eq_bind (d : Dialect) (hs : s.Sound) (he : e ∈ s.entities) (name : String) :
    ∃ make : List Column → Table, Table.ofEntity d s name e =
      (e.fields.mapM (Table.fieldColumn d) >>= fun fields =>
        if e.columnNames.any (· = "") then .error (.defect .argument "") else .ok (make fields)) := by
  obtain ⟨references, hreferences⟩ := exists_ofReferences hs he fun r k =>
    ({ name := r.name, type := k.type, nullable := r.nullable } : Column)
  obtain ⟨foreignKeys, hforeignKeys⟩ := exists_ofReferences hs he fun r k =>
    ForeignKey.mk r.name r.target k.name
  replace hreferences : e.references.mapM (Table.referenceColumn s) = .ok references := hreferences
  refine ⟨fun fields => {
    name, columns := fields ++ references, primaryKey := e.keys.map (·.name),
    uniques := (e.fields.filter fun f => f.unique && !f.primaryKey).map fun f =>
      ⟨uniqueConstraintName e.name f.name, f.name⟩,
    foreignKeys }, bind_congr fun fields => ?_⟩
  rw [hreferences, hforeignKeys]
  rfl

theorem exists_ofEntity_iff (d : Dialect) (hs : s.Sound) (he : e ∈ s.entities) (name : String) :
    (∃ t, Table.ofEntity d s name e = .ok t) ↔ e.HasTable := by
  obtain ⟨make, hmake⟩ := ofEntity_eq_bind d hs he name
  have hcolumn := fun f hf => exists_fieldColumn_iff (f := f) d ((hs.entities e he).fields f hf)
  have hnamed : (e.columnNames.any (· = "")) = true ↔ "" ∈ e.columnNames := by simp
  rw [hmake, exists_bind_iff]
  constructor
  · rintro ⟨fields, hfields, t, ht⟩
    split at ht
    case isTrue => cases ht
    case isFalse hnames =>
      exact ⟨fun f hf => (hcolumn f hf).1 ((mem_of_mapM hfields).1 f hf), hnames ∘ hnamed.2⟩
  · rintro ⟨hdefaults, hnames⟩
    obtain ⟨fields, hfields⟩ := exists_mapM fun f hf => (hcolumn f hf).2 (hdefaults f hf)
    exact ⟨fields, hfields, make fields, if_neg (hnames ∘ hnamed.1)⟩

theorem unmakeable_of_ofEntity (hs : s.Sound) (he : e ∈ s.entities) {name : String} {err : Error}
    (h : Table.ofEntity d s name e = .error err) : Unmakeable err := by
  obtain ⟨make, hmake⟩ := ofEntity_eq_bind d hs he name
  rw [hmake] at h
  rcases (bind_eq_error _ _ _).1 h with h | ⟨_, -, h⟩
  · exact mapM_error (fun _ _ _ => unmakeable_of_fieldColumn) h
  · split at h
    · cases h
      exact ⟨.argument, by decide, _, rfl⟩
    · cases h

theorem exists_ofLink (hs : s.Sound) (he : e ∈ s.entities) {l : ManyLink} (hl : l ∈ e.links) :
    ∃ t, Table.ofLink s e l = .ok t := by
  obtain ⟨k, hk⟩ := hs.exists_key (Schema.declares_of_mem he)
  obtain ⟨m, hm⟩ := hs.exists_key (hs.targets e.name _
    (Schema.declares_relationship_of_mem he ((e.mem_links l).1 hl)))
  exact ⟨_, (Table.ofLink_eq_ok hs e l _).2 ⟨k, m, hk, hm, rfl⟩⟩

theorem exists_joins (hs : s.Sound) : ∃ joins, (s.entities.flatMap fun e => e.links.map (e, ·)).mapM
    (fun p => Table.ofLink s p.1 p.2) = .ok joins := by
  refine exists_mapM fun p hp => ?_
  obtain ⟨e, he, hp⟩ := List.mem_flatMap.1 hp
  obtain ⟨l, hl, rfl⟩ := List.mem_map.1 hp
  exact exists_ofLink hs he hl

/-- The tables of a schema can be made if each entity can have one. -/
theorem exists_ofSchema_iff (d : Dialect) (hs : s.Sound) :
    (∃ ts, Tables.ofSchema d s = .ok ts) ↔ s.HasTables := by
  obtain ⟨joins, hjoins⟩ := exists_joins hs
  rw [Tables.ofSchema, exists_bind_total_iff, exists_mapM_iff, Schema.HasTables]
  · exact forall₂_congr fun e he => exists_ofEntity_iff d hs he e.name
  · exact fun entities => ⟨entities ++ joins, (bind_eq_ok _ _ _).2 ⟨joins, hjoins, rfl⟩⟩

/-- What a schema raises whose tables cannot be made. -/
theorem unmakeable_of_ofSchema (hs : s.Sound) {err : Error} (h : Tables.ofSchema d s = .error err) :
    Unmakeable err := by
  rcases (bind_eq_error _ _ _).1 h with h | ⟨_, -, h⟩
  · exact mapM_error (fun e he _ => unmakeable_of_ofEntity hs he) h
  · obtain ⟨joins, hjoins⟩ := exists_joins hs
    rcases (bind_eq_error _ _ _).1 h with h | ⟨_, -, h⟩
    · exact nomatch hjoins.symm.trans h
    · cases h

/-! ## Statements that create a table -/

variable {ts : Tables} {t : Table}

def Tables.Stores (ts : Tables) (place : String × String) : Prop :=
  ∃ t ∈ ts, t.name = place.1 ∧ place.2 ∈ t.columnNames

/-- A foreign key is resolved if the dotted name of its target splits into a column and its table. -/
theorem exists_resolve_iff_stores (hd : (ts.map (·.name)).Nodup) (k : ForeignKey) :
    (∃ r, ts.resolve k = .ok r) ↔ ts.Stores (Tables.splitTarget s!"{k.table}.{k.targetColumn}") := by
  rcases hsplit : Tables.splitTarget s!"{k.table}.{k.targetColumn}" with ⟨table, column⟩
  have hfind := @Keyed.find?_eq_some _ Table.name ts hd table
  rw [Tables.resolve, hsplit]
  dsimp only [Tables.Stores]
  cases hf : ts.find? table with
  | none =>
    refine iff_of_false nofun ?_
    rintro ⟨t, ht, hname, -⟩
    rw [Tables.find?, (hfind t).2 ⟨ht, hname⟩] at hf
    cases hf
  | some t =>
    obtain ⟨ht, hname⟩ := (hfind t).1 hf
    dsimp only
    constructor
    · intro h
      by_cases hc : column ∈ t.columnNames
      · exact ⟨t, ht, hname, hc⟩
      · rw [if_neg hc] at h
        obtain ⟨r, hr⟩ := h
        cases hr
    · rintro ⟨t', ht', hname', hc⟩
      obtain rfl : t' = t :=
        Option.some.inj (((hfind t').2 ⟨ht', hname'⟩).symm.trans ((hfind t).2 ⟨ht, hname⟩))
      rw [if_pos hc]
      exact ⟨_, rfl⟩

theorem stores_iff (hs : s.Sound) (hts : Tables.ofSchema d s = .ok ts) (place : String × String) :
    ts.Stores place ↔ s.Stores place := by
  have hmem := mem_ofSchema hts
  constructor
  · rintro ⟨t, ht, hname, hcolumn⟩
    rcases (hmem t).1 ht with ⟨e, he, hte⟩ | ⟨e, he, l, hl, htl⟩
    · have hspec := Table.ofEntity_of_eq_ok hs hte
      exact Or.inl ⟨e, he, hspec.name.symm.trans hname, (hspec.columnNames _).1 hcolumn⟩
    · obtain ⟨k, m, -, -, rfl⟩ := (Table.ofLink_eq_ok hs e l t).1 htl
      exact Or.inr ⟨e.name, l, Schema.declares_relationship_of_mem he ((e.mem_links l).1 hl), hname,
        hcolumn⟩
  · rintro (⟨e, he, hname, hcolumn⟩ | ⟨n, l, ⟨e, he, rfl, hl⟩, hname, hcolumn⟩)
    · obtain ⟨⟨t, ht, hte⟩, -⟩ := exists_table hts he
      have hspec := Table.ofEntity_of_eq_ok hs hte
      exact ⟨t, ht, hspec.name.trans hname, (hspec.columnNames _).2 hcolumn⟩
    · obtain ⟨t, ht, htl⟩ := (exists_table hts he).2 l ((e.mem_links l).2 hl)
      obtain ⟨k, m, -, -, rfl⟩ := (Table.ofLink_eq_ok hs e l t).1 htl
      exact ⟨_, ht, hname, hcolumn⟩

theorem exists_createTable_iff (d : Dialect) (hd : (ts.map (·.name)).Nodup) (t : Table) :
    (∃ sql, createTable d ts t = .ok sql) ↔
      (∀ u ∈ t.uniques, u.constraint.length ≤ d.longestName) ∧
        ∀ k ∈ t.foreignKeys, ts.Stores (Tables.splitTarget s!"{k.table}.{k.targetColumn}") := by
  have hunique : ∀ u : UniqueKey, (∃ text, u.definition d = .ok text) ↔
      u.constraint.length ≤ d.longestName := by
    intro u
    rw [UniqueKey.definition]
    split
    case isTrue hlong => exact iff_of_false nofun (Nat.not_le.2 hlong)
    case isFalse hshort => exact iff_of_true ⟨_, rfl⟩ (Nat.not_lt.1 hshort)
  simp only [← exists_resolve_iff_stores hd, ← hunique, ← exists_mapM_iff]
  rw [createTable, exists_bind_iff]
  constructor
  · rintro ⟨uniques, huniques, h⟩
    obtain ⟨foreignKeys, hforeignKeys, -⟩ := (exists_bind_iff _ _).1 h
    exact ⟨⟨uniques, huniques⟩, foreignKeys, hforeignKeys⟩
  · rintro ⟨⟨uniques, huniques⟩, foreignKeys, hforeignKeys⟩
    exact ⟨uniques, huniques, (exists_bind_iff _ _).2 ⟨foreignKeys, hforeignKeys, _, rfl⟩⟩

theorem exists_createTable_entity_iff (hs : s.Sound) (hd : (ts.map (·.name)).Nodup) {name : String}
    (ht : Table.ofEntity d s name e = .ok t) :
    (∃ sql, createTable d ts t = .ok sql) ↔ e.CanBeCreated d s ts.Stores := by
  have hspec := Table.ofEntity_of_eq_ok hs ht
  rw [exists_createTable_iff d hd]
  constructor
  · rintro ⟨hconstraints, hkeys⟩
    refine ⟨fun f hf hu hp => ?_, fun r hr k hk => ?_⟩
    · exact hconstraints ⟨uniqueConstraintName e.name f.name, f.name⟩
        ((hspec.uniques _).2 ⟨f, hf, hu, hp, rfl⟩)
    · exact hkeys ⟨r.name, r.target, k.name⟩ ((hspec.foreignKeys _).2 ⟨r, hr, k, hk, rfl⟩)
  · rintro ⟨hconstraints, hreferences⟩
    refine ⟨fun u hu => ?_, fun k hk => ?_⟩
    · obtain ⟨f, hf, hunique, hp, rfl⟩ := (hspec.uniques u).1 hu
      exact hconstraints f hf hunique hp
    · obtain ⟨r, hr, key, hkey, rfl⟩ := (hspec.foreignKeys k).1 hk
      exact hreferences r hr key hkey

theorem exists_createTable_linking_iff (d : Dialect) (hd : (ts.map (·.name)).Nodup) (n : String)
    (l : ManyLink) (k m : Field) :
    (∃ sql, createTable d ts (Table.linking n l k m) = .ok sql) ↔
      ts.Stores (resolved n k) ∧ ts.Stores (resolved l.target m) := by
  rw [exists_createTable_iff d hd]
  simp [Table.linking, resolved]

end Sql

end SchemaLedger
