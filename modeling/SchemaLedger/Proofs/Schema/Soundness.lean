import Mathlib.Data.List.Nodup
import SchemaLedger.Migration.Step
import SchemaLedger.Proofs.Outcome

set_option autoImplicit false

/-!
# What the checks of a schema say

The checks of fields, entities and schemas stop at the first fault. `Field.Sound`, `Entity.Sound` and
`Schema.Sound` say without any order what the checks accept, and `Schema.valid_iff_sound` that the two
are the same.
-/
namespace SchemaLedger

/-! ## Fields and entities -/

/-- A field that fits its own rule and the rules of an entity for each of its fields. -/
structure Field.Sound (f : Field) : Prop where
  default : f.check = .ok ()
  named : Entity.isReserved f.name = false
  key : f.primaryKey = true → f.nullable = false ∧ f.type.isKeyless = false
  auto : f.auto = true → f.primaryKey = true ∧ f.type.canGenerate = true
  unique : f.unique = true → f.type.isKeyless = false

structure Entity.Sound (e : Entity) : Prop where
  members : e.memberNames.Nodup
  fields : ∀ f ∈ e.fields, f.Sound
  references : ∀ r ∈ e.references, Entity.isReserved r.name = false
  key : ∃ k, e.keys = [k]

namespace Entity

theorem firstRepeated_eq_none (seen names : List String) :
    firstRepeated seen names = none ↔ names.Nodup ∧ ∀ n ∈ names, n ∉ seen := by
  induction names generalizing seen with
  | nil => simp [firstRepeated]
  | cons n rest ih =>
    rw [firstRepeated]
    split
    · rename_i h
      simp [h]
    · rename_i h
      rw [ih, List.nodup_cons]
      constructor
      · rintro ⟨hd, hs⟩
        refine ⟨⟨fun hn => hs n hn List.mem_cons_self, hd⟩, ?_⟩
        intro m hm
        rcases List.mem_cons.mp hm with rfl | hm
        · exact h
        · exact fun hc => hs m hm (List.mem_cons_of_mem n hc)
      · rintro ⟨⟨hn, hd⟩, hs⟩
        refine ⟨hd, fun m hm hc => ?_⟩
        rcases List.mem_cons.mp hc with rfl | hc
        · exact hn hm
        · exact hs m (List.mem_cons_of_mem n hm) hc

theorem checkNames_eq_ok (e : Entity) :
    e.checkNames = .ok () ↔ e.memberNames.Nodup ∧ ∀ c ∈ e.columnNames, isReserved c = false := by
  unfold checkNames
  have hr := firstRepeated_eq_none [] e.memberNames
  cases h : firstRepeated [] e.memberNames with
  | some name =>
    have hd : ¬ e.memberNames.Nodup := fun hd => by simp [hr.2 ⟨hd, by simp⟩] at h
    simp [hd]
  | none =>
    have hd : e.memberNames.Nodup := (hr.1 h).1
    cases hc : e.columnNames.find? isReserved with
    | none => simpa [hd] using hc
    | some name =>
      have hn := List.find?_some hc
      have hm := List.mem_of_find?_eq_some hc
      simp only [hd, true_and, reduceCtorEq, false_iff]
      intro hall
      simp [hall name hm] at hn

theorem checkKey_eq_ok (e : Entity) :
    e.checkKey = .ok () ↔
      ∃ k, e.keys = [k] ∧ k.nullable = false ∧ k.type.isKeyless = false := by
  unfold checkKey
  split
  · rename_i k hk
    cases hn : k.nullable <;> cases ht : k.type.isKeyless <;> simp [hk, hn, ht]
  · rename_i hk
    simp only [reduceCtorEq, false_iff]
    rintro ⟨k, h, -⟩
    exact hk k h

theorem checkField_eq_ok (e : Entity) (f : Field) :
    e.checkField f = .ok () ↔
      (f.auto = true → f.primaryKey = true ∧ f.type.canGenerate = true) ∧
        (f.unique = true → f.type.isKeyless = false) := by
  unfold checkField
  cases f.auto <;> cases f.primaryKey <;> cases f.type.canGenerate <;> cases f.unique <;>
    cases f.type.isKeyless <;> simp

theorem check_eq_ok (e : Entity) :
    e.check = .ok () ↔
      e.checkNames = .ok () ∧ e.checkKey = .ok () ∧ ∀ f ∈ e.fields, e.checkField f = .ok () := by
  unfold check
  cases hn : e.checkNames with
  | error _ => simp [bind, Except.bind]
  | ok _ =>
    cases hk : e.checkKey with
    | error _ => simp [bind, Except.bind]
    | ok _ => simpa [bind, Except.bind] using Outcome.forM_eq_ok e.checkField e.fields

theorem mem_columnNames (e : Entity) (c : String) :
    c ∈ e.columnNames ↔ (∃ f ∈ e.fields, f.name = c) ∨ ∃ r ∈ e.references, r.name = c := by
  simp [columnNames, fieldNames]

theorem mem_keys (e : Entity) (k : Field) : k ∈ e.keys ↔ k ∈ e.fields ∧ k.primaryKey = true := by
  simp [keys]

theorem sound_iff (e : Entity) :
    e.Sound ↔ (∀ f ∈ e.fields, f.check = .ok ()) ∧ e.check = .ok () := by
  rw [check_eq_ok, checkNames_eq_ok, checkKey_eq_ok]
  constructor
  · intro h
    obtain ⟨k, hk⟩ := h.key
    have hm := (mem_keys e k).1 (hk ▸ List.mem_singleton_self k)
    have hs := (h.fields k hm.1).key hm.2
    refine ⟨fun f hf => (h.fields f hf).default, ⟨h.members, ?_⟩, ⟨k, hk, hs⟩, ?_⟩
    · intro c hc
      rcases (mem_columnNames e c).1 hc with ⟨f, hf, rfl⟩ | ⟨r, hr, rfl⟩
      · exact (h.fields f hf).named
      · exact h.references r hr
    · intro f hf
      exact (checkField_eq_ok e f).2 ⟨(h.fields f hf).auto, (h.fields f hf).unique⟩
  · rintro ⟨hd, ⟨hn, hc⟩, ⟨k, hk, hs⟩, hf⟩
    refine ⟨hn, fun f hm => ?_, fun r hr => ?_, ⟨k, hk⟩⟩
    · have hfield := (checkField_eq_ok e f).1 (hf f hm)
      refine ⟨hd f hm, hc _ ((mem_columnNames e _).2 (.inl ⟨f, hm, rfl⟩)), ?_, hfield.1, hfield.2⟩
      intro hp
      have hfk : f ∈ e.keys := (mem_keys e f).2 ⟨hm, hp⟩
      rw [hk, List.mem_singleton] at hfk
      exact hfk ▸ hs
    · exact hc _ ((mem_columnNames e _).2 (.inr ⟨r, hr, rfl⟩))

theorem Sound.fieldNames {e : Entity} (h : e.Sound) : e.fieldNames.Nodup :=
  (List.nodup_append.1 h.members).1

theorem Sound.relationshipNames {e : Entity} (h : e.Sound) :
    (e.relationships.map (·.name)).Nodup :=
  (List.nodup_append.1 h.members).2.1

theorem Sound.apart {e : Entity} (h : e.Sound) {f : Field} {r : Relationship} (hf : f ∈ e.fields)
    (hr : r ∈ e.relationships) : f.name ≠ r.name :=
  (List.nodup_append.1 h.members).2.2 _ (List.mem_map_of_mem hf) _ (List.mem_map_of_mem hr)

theorem field_eq_of_name_eq {e : Entity} (h : e.fieldNames.Nodup) {f g : Field}
    (hf : f ∈ e.fields) (hg : g ∈ e.fields) (hn : f.name = g.name) : f = g :=
  List.inj_on_of_nodup_map h hf hg hn

theorem Sound.key_unique {e : Entity} (h : e.Sound) {k l : Field} (hk : k ∈ e.fields)
    (hl : l ∈ e.fields) (hpk : k.primaryKey = true) (hpl : l.primaryKey = true) : k = l := by
  obtain ⟨m, hm⟩ := h.key
  have hkm : k ∈ e.keys := (mem_keys e k).2 ⟨hk, hpk⟩
  have hlm : l ∈ e.keys := (mem_keys e l).2 ⟨hl, hpl⟩
  rw [hm, List.mem_singleton] at hkm hlm
  rw [hkm, hlm]

theorem mem_references (e : Entity) (r : Reference) :
    r ∈ e.references ↔ Relationship.single r ∈ e.relationships := by
  simp only [references, List.mem_filterMap]
  constructor
  · rintro ⟨q, hq, h⟩
    cases q with
    | single q => simp only [Relationship.reference?, Option.some.injEq] at h; exact h ▸ hq
    | many l => simp [Relationship.reference?] at h
  · exact fun h => ⟨_, h, rfl⟩

theorem mem_links (e : Entity) (l : ManyLink) :
    l ∈ e.links ↔ Relationship.many l ∈ e.relationships := by
  simp only [links, List.mem_filterMap]
  constructor
  · rintro ⟨q, hq, h⟩
    cases q with
    | single q => simp [Relationship.link?] at h
    | many q => simp only [Relationship.link?, Option.some.injEq] at h; exact h ▸ hq
  · exact fun h => ⟨_, h, rfl⟩

end Entity

theorem Step.revalidate_eq_ok (e e' : Entity) :
    Step.revalidate e = .ok e' ↔ e' = e ∧ e.Sound := by
  rw [Entity.sound_iff, ← Outcome.forM_eq_ok]
  unfold Step.revalidate
  cases hf : e.fields.forM Field.check with
  | error _ => simp [bind, Except.bind]
  | ok _ =>
    cases hc : e.check with
    | error _ => simp [bind, Except.bind]
    | ok _ => simp [bind, Except.bind, eq_comm]

/-! ## Schemas -/

/-- The join entities that relationships of an entity called `name` are stored in. -/
def joinNames (name : String) (rs : List Relationship) : List String :=
  (rs.filterMap (·.link?)).map fun l => joinEntityName name l.name

namespace Schema

theorem contains_iff (s : Schema) (name : String) : s.contains name = true ↔ name ∈ s.names := by
  simp [contains, names]

theorem contains_eq_false (s : Schema) (name : String) :
    s.contains name = false ↔ name ∉ s.names := by
  rw [← contains_iff, Bool.not_eq_true]

theorem checkRelationship_eq_ok (s : Schema) (e : Entity) (joins out : List String)
    (r : Relationship) :
    s.checkRelationship e joins r = .ok out ↔
      r.target ∈ s.names ∧ (∀ j ∈ joinNames e.name [r], j ∉ s.names ∧ j ∉ joins) ∧
        out = joinNames e.name [r] ++ joins := by
  unfold checkRelationship
  cases ht : s.contains r.target with
  | false => simp [(contains_eq_false s _).1 ht]
  | true =>
    have hm := (contains_iff s _).1 ht
    cases r with
    | single q => simp [joinNames, Relationship.link?, hm, eq_comm]
    | many l =>
      simp only [joinNames, Relationship.link?, List.filterMap_cons, List.filterMap_nil,
        List.map_cons, List.map_nil, List.mem_singleton, forall_eq, Bool.not_true, Bool.or_eq_true,
        contains_iff, decide_eq_true_eq, Bool.false_eq_true, if_false]
      split
      · rename_i h
        simp only [reduceCtorEq, false_iff, not_and]
        rintro - ⟨hn, hj⟩
        exact absurd h (by simp [hn, hj])
      · rename_i h
        simp [not_or.1 h, hm, eq_comm]

/-- The check passes over the relationships in order and keeps the join entities it has met. -/
theorem foldlM_checkRelationship_eq_ok (s : Schema) (e : Entity) (rs : List Relationship)
    (joins out : List String) :
    rs.foldlM (s.checkRelationship e) joins = .ok out ↔
      (∀ r ∈ rs, r.target ∈ s.names) ∧ (∀ j ∈ joinNames e.name rs, j ∉ s.names ∧ j ∉ joins) ∧
        (joinNames e.name rs).Nodup ∧ out = (joinNames e.name rs).reverse ++ joins := by
  induction rs generalizing joins with
  | nil => simp [joinNames, pure, Except.pure, eq_comm]
  | cons r rest ih =>
    rw [List.foldlM_cons, Outcome.bind_eq_ok]
    have hsplit : joinNames e.name (r :: rest) = joinNames e.name [r] ++ joinNames e.name rest := by
      simp [joinNames, List.filterMap_cons]
      cases r.link? <;> simp
    have hsmall : ∀ l, l = joinNames e.name [r] → l.reverse = l ∧ l.Nodup := by
      rintro l rfl
      simp only [joinNames, List.filterMap_cons, List.filterMap_nil]
      cases r.link? <;> simp
    obtain ⟨hrev, hone⟩ := hsmall _ rfl
    simp only [checkRelationship_eq_ok, ih, hsplit, List.reverse_append, hrev, List.append_assoc,
      List.nodup_append, hone, true_and, List.mem_append, List.forall_mem_cons]
    constructor
    · rintro ⟨_, ⟨ht, hj, rfl⟩, hts, hjs, hd, rfl⟩
      refine ⟨⟨ht, hts⟩, ?_, ⟨hd, ?_⟩, rfl⟩
      · rintro j (hm | hm)
        · exact hj j hm
        · exact ⟨(hjs j hm).1, fun hc => (hjs j hm).2 (List.mem_append_right _ hc)⟩
      · rintro a ha b hb rfl
        exact (hjs a hb).2 (List.mem_append_left _ ha)
    · rintro ⟨⟨ht, hts⟩, hj, ⟨hd, hdis⟩, rfl⟩
      refine ⟨_, ⟨ht, fun j hm => hj j (.inl hm), rfl⟩, hts, ?_, hd, rfl⟩
      intro j hm
      refine ⟨(hj j (.inr hm)).1, fun hc => ?_⟩
      rcases List.mem_append.1 hc with hc | hc
      · exact hdis j hc j hm rfl
      · exact (hj j (.inr hm)).2 hc

theorem foldlM_entities_eq_ok (s : Schema) (es : List Entity) (joins out : List String) :
    es.foldlM (fun joins e => e.relationships.foldlM (s.checkRelationship e) joins) joins =
        .ok out ↔
      (∀ e ∈ es, ∀ r ∈ e.relationships, r.target ∈ s.names) ∧
        (∀ j ∈ es.flatMap fun e => joinNames e.name e.relationships, j ∉ s.names ∧ j ∉ joins) ∧
        (es.flatMap fun e => joinNames e.name e.relationships).Nodup ∧
        out = (es.flatMap fun e => joinNames e.name e.relationships).reverse ++ joins := by
  induction es generalizing joins with
  | nil => simp [pure, Except.pure, eq_comm]
  | cons e rest ih =>
    rw [List.foldlM_cons, Outcome.bind_eq_ok]
    simp only [foldlM_checkRelationship_eq_ok, ih, List.flatMap_cons, List.reverse_append,
      List.append_assoc, List.nodup_append, List.mem_append, List.forall_mem_cons]
    constructor
    · rintro ⟨_, ⟨ht, hj, hd, rfl⟩, hts, hjs, hds, rfl⟩
      refine ⟨⟨ht, hts⟩, ?_, ⟨hd, hds, ?_⟩, rfl⟩
      · rintro j (hm | hm)
        · exact hj j hm
        · exact ⟨(hjs j hm).1, fun hc => (hjs j hm).2 (List.mem_append_right _ hc)⟩
      · rintro a ha b hb rfl
        exact (hjs a hb).2 (List.mem_append_left _ (List.mem_reverse.2 ha))
    · rintro ⟨⟨ht, hts⟩, hj, ⟨hd, hds, hdis⟩, rfl⟩
      refine ⟨_, ⟨ht, fun j hm => hj j (.inl hm), hd, rfl⟩, hts, ?_, hds, rfl⟩
      intro j hm
      refine ⟨(hj j (.inr hm)).1, fun hc => ?_⟩
      rcases List.mem_append.1 hc with hc | hc
      · exact hdis j (List.mem_reverse.1 hc) j hm rfl
      · exact (hj j (.inr hm)).2 hc

instance (s : Schema) : Decidable s.Valid :=
  decidable_of_iff (s.names.Nodup ∧ (∀ e ∈ s.entities, ∀ f ∈ e.fields, f.check = .ok ()) ∧
      (∀ e ∈ s.entities, e.check = .ok ()) ∧ s.check = .ok ())
    ⟨fun h => ⟨h.1, h.2.1, h.2.2.1, h.2.2.2⟩,
      fun h => ⟨h.distinct, h.fields, h.entities, h.relationships⟩⟩

/-- All join entities of a schema. -/
def allJoinNames (s : Schema) : List String :=
  s.entities.flatMap fun e => joinNames e.name e.relationships

theorem check_eq_ok (s : Schema) :
    s.check = .ok () ↔
      (∀ e ∈ s.entities, ∀ r ∈ e.relationships, r.target ∈ s.names) ∧
        (∀ j ∈ s.allJoinNames, j ∉ s.names) ∧ s.allJoinNames.Nodup := by
  unfold check
  rw [Outcome.bind_eq_ok]
  simp only [foldlM_entities_eq_ok, allJoinNames]
  constructor
  · rintro ⟨_, ⟨ht, hj, hd, -⟩, -⟩
    exact ⟨ht, fun j hm => (hj j hm).1, hd⟩
  · rintro ⟨ht, hj, hd⟩
    exact ⟨_, ⟨ht, fun j hm => ⟨hj j hm, List.not_mem_nil⟩, hd, rfl⟩, trivial⟩

end Schema

end SchemaLedger
