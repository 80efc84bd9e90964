import SchemaLedger.Migration.Diff
import SchemaLedger.Proofs.Migration.DependencyOrder
import SchemaLedger.Proofs.Migration.Fit

set_option autoImplicit false

/-!
# Plans

A plan from one schema to another falls first and rises then: it removes what the second schema does
not have, which leaves a part of both, and adds what the first does not have. In between it may alter
what both have. `Plan` states what such a list of steps satisfies, in terms that stay true when the
list is turned around.
-/
namespace SchemaLedger.Diff

open Dependency (Precedes)

theorem altersInPlace_comm (r q : Relationship) : altersInPlace r q = altersInPlace q r := by
  cases r with
  | single a =>
    cases q with
    | single b => simp [altersInPlace, eq_comm]
    | many b => rfl
  | many a =>
    cases q with
    | single b => rfl
    | many b => rfl

/-- A relationship of `a` that is neither kept nor altered on the way to `b`. -/
def Obsolete (a b : Schema) (n : String) (r : Relationship) : Prop :=
  a.Declares (.relationship n r) ∧
    ∀ q, b.Declares (.relationship n q) → q.name = r.name → q ≠ r ∧ altersInPlace q r = false

/-- The steps that have a place on the way from `a` to `b`. -/
def Proposes (a b : Schema) : Step → Prop
  | .createEntity e => ¬ a.Declares (.entity e.name) ∧ ∃ g ∈ b.entities, e = g.withoutLinks
  | .dropEntity e =>
    a.Declares (.entity e.name) ∧ ¬ b.Declares (.entity e.name) ∧
      ∀ q, a.Declares (.relationship e.name (.single q)) → q ∈ e.references
  | .addField n f =>
    a.Declares (.entity n) ∧ b.Declares (.field n f) ∧
      ∀ g, a.Declares (.field n g) → g.name ≠ f.name
  | .removeField n f =>
    b.Declares (.entity n) ∧ a.Declares (.field n f) ∧
      ∀ g, b.Declares (.field n g) → g.name ≠ f.name
  | .alterField n old new =>
    a.Declares (.field n old) ∧ b.Declares (.field n new) ∧ old.name = new.name ∧
      old.primaryKey = new.primaryKey
  | .addRelationship n r => Obsolete b a n r ∧ (isMany r = false → a.Declares (.entity n))
  | .removeRelationship n r => Obsolete a b n r ∧ (isMany r = false → b.Declares (.entity n))
  | .alterReference n old new =>
    a.Declares (.relationship n (.single old)) ∧ b.Declares (.relationship n (.single new)) ∧
      old.name = new.name ∧ old.target = new.target

/-- The place that a declaration takes. -/
inductive Slot where
  | entity (name : String)
  | field (entity name : String)
  | relationship (entity name : String)

def slotOf : Declaration → Slot
  | .entity n => .entity n
  | .field n f => .field n f.name
  | .relationship n r => .relationship n r.name

def Slot.owner : Slot → String
  | .entity n => n
  | .field n _ => n
  | .relationship n _ => n

theorem owner_slotOf (d : Declaration) : (slotOf d).owner = d.owner := by
  cases d <;> rfl

/-- The slot that a step empties. -/
def emptied? : Step → Option Slot
  | .dropEntity e => some (.entity e.name)
  | .removeField n f => some (.field n f.name)
  | .alterField n old _ => some (.field n old.name)
  | .removeRelationship n r => some (.relationship n r.name)
  | .alterReference n old _ => some (.relationship n old.name)
  | _ => none

/-- The slot that a step fills. -/
def filled? : Step → Option Slot
  | .createEntity e => some (.entity e.name)
  | .addField n f => some (.field n f.name)
  | .alterField n _ new => some (.field n new.name)
  | .addRelationship n r => some (.relationship n r.name)
  | .alterReference n _ new => some (.relationship n new.name)
  | _ => none

theorem emptied?_invert (st : Step) : emptied? st.invert = filled? st := by
  cases st <;> rfl

theorem filled?_invert (st : Step) : filled? st.invert = emptied? st := by
  cases st <;> rfl

theorem owner_of_emptied? {st : Step} {x : Slot} (h : emptied? st = some x) :
    x.owner = st.entityName := by
  cases st with
  | createEntity _ | addField _ _ | addRelationship _ _ => cases h
  | dropEntity _ | removeField _ _ | alterField _ _ _ | removeRelationship _ _
  | alterReference _ _ _ =>
    cases h
    rfl

theorem owner_of_filled? {st : Step} {x : Slot} (h : filled? st = some x) :
    x.owner = st.entityName := by
  rw [← emptied?_invert] at h
  rw [owner_of_emptied? h]
  cases st <;> rfl

theorem emptied?_cases {st : Step} {x : Slot} (h : emptied? st = some x) :
    (∃ e, st = .dropEntity e ∧ x = .entity e.name) ∨ st.isChange = true ∧ ∀ n, x ≠ .entity n := by
  cases st with
  | dropEntity e => exact .inl ⟨e, rfl, (Option.some.inj h).symm⟩
  | createEntity _ | addField _ _ | addRelationship _ _ => cases h
  | removeField _ _ | alterField _ _ _ | removeRelationship _ _ | alterReference _ _ _ =>
    cases h
    exact .inr ⟨rfl, fun n => Slot.noConfusion⟩

theorem filled?_cases {st : Step} {x : Slot} (h : filled? st = some x) :
    (∃ e, st = .createEntity e ∧ x = .entity e.name) ∨
      st.isChange = true ∧ ∀ n, x ≠ .entity n := by
  cases st with
  | createEntity e => exact .inl ⟨e, rfl, (Option.some.inj h).symm⟩
  | dropEntity _ | removeField _ _ | removeRelationship _ _ => cases h
  | addField _ _ | alterField _ _ _ | addRelationship _ _ | alterReference _ _ _ =>
    cases h
    exact .inr ⟨rfl, fun n => Slot.noConfusion⟩

variable {a b : Schema}

theorem Obsolete.not_altered (ha : a.Sound) {n : String} {r : Relationship} (h : Obsolete a b n r)
    {old new : Reference} (hold : a.Declares (.relationship n (.single old)))
    (hnew : b.Declares (.relationship n (.single new))) (hn : old.name = new.name)
    (ht : old.target = new.target) : r.name ≠ old.name := by
  intro heq
  obtain rfl := ha.relationship_unique h.1 hold heq
  have hno := (h.2 _ hnew hn.symm).2
  simp [altersInPlace, ht] at hno

theorem proposes_invert {st : Step} (hc : st.isChange = true) :
    Proposes b a st.invert ↔ Proposes a b st := by
  cases st with
  | createEntity _ | dropEntity _ => cases hc
  | addField _ _ | removeField _ _ | addRelationship _ _ | removeRelationship _ _ => exact Iff.rfl
  | alterField n old new =>
    constructor <;> exact fun ⟨h1, h2, hn, hp⟩ => ⟨h2, h1, hn.symm, hp.symm⟩
  | alterReference n old new =>
    constructor <;> exact fun ⟨h1, h2, hn, ht⟩ => ⟨h2, h1, hn.symm, ht.symm⟩

theorem eq_of_emptied? (ha : a.Sound) (hb : b.Sound) {s t : Step} (hs : Proposes a b s)
    (ht : Proposes a b t) (hcs : s.isChange = true) (hct : t.isChange = true) {x : Slot}
    (hxs : emptied? s = some x) (hxt : emptied? t = some x) : s = t := by
  cases s with
  | createEntity _ | dropEntity _ => cases hcs
  | addField _ _ | addRelationship _ _ => cases hxs
  | removeField n f =>
    cases hxs
    cases t with
    | removeField m g =>
      obtain ⟨rfl, hn⟩ := Slot.field.inj (Option.some.inj hxt)
      rw [ha.field_unique hs.2.1 ht.2.1 hn.symm]
    | alterField m old new =>
      obtain ⟨rfl, hn⟩ := Slot.field.inj (Option.some.inj hxt)
      exact absurd (ht.2.2.1.symm.trans hn) (hs.2.2 new ht.2.1)
    | dropEntity _ | createEntity _ => cases hct
    | _ => cases hxt
  | alterField n old new =>
    cases hxs
    cases t with
    | removeField m g =>
      obtain ⟨rfl, hn⟩ := Slot.field.inj (Option.some.inj hxt)
      exact absurd (hs.2.2.1.symm.trans hn.symm) (ht.2.2 new hs.2.1)
    | alterField m old' new' =>
      obtain ⟨rfl, hn⟩ := Slot.field.inj (Option.some.inj hxt)
      rw [ha.field_unique hs.1 ht.1 hn.symm, hb.field_unique hs.2.1 ht.2.1
        (hs.2.2.1.symm.trans (hn.symm.trans ht.2.2.1))]
    | dropEntity _ | createEntity _ => cases hct
    | _ => cases hxt
  | removeRelationship n r =>
    cases hxs
    cases t with
    | removeRelationship m q =>
      obtain ⟨rfl, hn⟩ := Slot.relationship.inj (Option.some.inj hxt)
      rw [ha.relationship_unique hs.1.1 ht.1.1 hn.symm]
    | alterReference m old new =>
      obtain ⟨rfl, hn⟩ := Slot.relationship.inj (Option.some.inj hxt)
      exact absurd hn.symm (hs.1.not_altered ha ht.1 ht.2.1 ht.2.2.1 ht.2.2.2)
    | dropEntity _ | createEntity _ => cases hct
    | _ => cases hxt
  | alterReference n old new =>
    cases hxs
    cases t with
    | removeRelationship m q =>
      obtain ⟨rfl, hn⟩ := Slot.relationship.inj (Option.some.inj hxt)
      exact absurd hn (ht.1.not_altered ha hs.1 hs.2.1 hs.2.2.1 hs.2.2.2)
    | alterReference m old' new' =>
      obtain ⟨rfl, hn⟩ := Slot.relationship.inj (Option.some.inj hxt)
      have hold := ha.relationship_unique hs.1 ht.1 hn.symm
      have hnew := hb.relationship_unique hs.2.1 ht.2.1
        (hs.2.2.1.symm.trans (hn.symm.trans ht.2.2.1))
      rw [Relationship.single.inj hold, Relationship.single.inj hnew]
    | dropEntity _ | createEntity _ => cases hct
    | _ => cases hxt

theorem isChange_invert (st : Step) : st.invert.isChange = st.isChange := by
  cases st <;> rfl

theorem invert_invert (st : Step) : st.invert.invert = st := by
  cases st <;> rfl

theorem eq_of_filled? (ha : a.Sound) (hb : b.Sound) {s t : Step} (hs : Proposes a b s)
    (ht : Proposes a b t) (hcs : s.isChange = true) (hct : t.isChange = true) {x : Slot}
    (hxs : filled? s = some x) (hxt : filled? t = some x) : s = t := by
  rw [← emptied?_invert] at hxs hxt
  have heq := eq_of_emptied? hb ha ((proposes_invert hcs).2 hs) ((proposes_invert hct).2 ht)
    (isChange_invert s ▸ hcs) (isChange_invert t ▸ hct) hxs hxt
  rw [← invert_invert s, heq, invert_invert]

/-- Whether two steps neither empty nor fill the same slot. -/
def Apart (s t : Step) : Prop :=
  (∀ x, emptied? s = some x → emptied? t ≠ some x) ∧ ∀ x, filled? s = some x → filled? t ≠ some x

def grows : Step → Bool
  | .createEntity _ => true
  | .addField _ _ => true
  | .addRelationship _ _ => true
  | _ => false

def shrinks : Step → Bool
  | .dropEntity _ => true
  | .removeField _ _ => true
  | .removeRelationship _ _ => true
  | _ => false

/-- The halves of a list of steps from `a` to `b`. Drops end the first half, each before those that it
does without; creations begin the second one, each after those that it refers to. -/
structure Plan (a b : Schema) (down up : List Step) : Prop where
  proposed : ∀ st ∈ down ++ up, Proposes a b st
  apart : (down ++ up).Pairwise Apart
  falls : ∀ st ∈ down, grows st = false
  rises : ∀ st ∈ up, shrinks st = false
  removed : ∀ st, Proposes a b st → st.isChange = true → shrinks st = true → st ∈ down
  added : ∀ st, Proposes a b st → st.isChange = true → grows st = true → st ∈ up
  amended : ∀ n old new, Proposes a b (.alterReference n old new) → old ≠ new →
    .alterReference n old new ∈ down ++ up
  dropped : ∀ n, a.Declares (.entity n) → ¬ b.Declares (.entity n) →
    ∃ e, .dropEntity e ∈ down ∧ e.name = n
  created : ∀ g ∈ b.entities, ¬ a.Declares (.entity g.name) → .createEntity g.withoutLinks ∈ up
  drops : down.Pairwise fun s t => ∀ d, s = .dropEntity d → ∃ e, t = .dropEntity e ∧ Precedes e d
  creates : up.Pairwise fun s t =>
    ∀ e, t = .createEntity e → ∃ d, s = .createEntity d ∧ Precedes d e

/-- The same fields are the keys on both sides. -/
def SameKeys (a b : Schema) : Prop :=
  ∀ n k l, a.Declares (.field n k) → b.Declares (.field n l) → k.primaryKey = true →
    l.primaryKey = true → k.name = l.name

theorem sameKeys_iff (a b : Schema) :
    SameKeys a b ↔ ∀ e ∈ a.entities, ∀ g ∈ b.entities, e.name = g.name → ∀ k ∈ e.fields,
      ∀ l ∈ g.fields, k.primaryKey = true → l.primaryKey = true → k.name = l.name := by
  constructor
  · intro h e he g hg hn k hk l hl
    refine h e.name k l (Schema.declares_field_of_mem he hk) ?_
    rw [hn]
    exact Schema.declares_field_of_mem hg hl
  · rintro h n k l ⟨e, he, rfl, hk⟩ ⟨g, hg, hn, hl⟩
    exact h e he g hg hn.symm k hk l hl

instance (a b : Schema) : Decidable (SameKeys a b) := decidable_of_iff' _ (sameKeys_iff a b)

theorem SameKeys.iff {a b : Schema} (ha : a.Sound) (hb : b.Sound) (h : SameKeys a b) {n : String}
    {f g : Field} (hf : a.Declares (.field n f)) (hg : b.Declares (.field n g))
    (hn : f.name = g.name) : f.primaryKey = g.primaryKey := by
  obtain ⟨k, hk, hkp⟩ := ha.exists_key hf.owner
  obtain ⟨l, hl, hlp⟩ := hb.exists_key hg.owner
  have hkl := h n k l hk hl hkp hlp
  rw [Bool.eq_iff_iff]
  constructor
  · intro hp
    obtain rfl := ha.key_unique hf hk hp hkp
    rw [hb.field_unique hg hl (hn.symm.trans hkl), hlp]
  · intro hp
    obtain rfl := hb.key_unique hg hl hp hlp
    rw [ha.field_unique hf hk (hn.trans hkl.symm), hkp]

theorem mem_references_withoutLinks (g : Entity) (r : Reference) :
    r ∈ g.withoutLinks.references ↔ r ∈ g.references := by
  rw [Entity.mem_references]
  simp [Entity.withoutLinks]

theorem references_sublist (rs : List Relationship) :
    ((rs.filterMap (·.reference?)).map .single).Sublist rs := by
  induction rs with
  | nil => exact .slnil
  | cons r rest ih =>
    cases r with
    | single q => exact ih.cons_cons _
    | many l => exact ih.cons _

theorem withoutLinks_partOf {g : Entity} (h : g.Sound) : g.withoutLinks.PartOf g := by
  have hsub : g.withoutLinks.relationships.Sublist g.relationships :=
    references_sublist g.relationships
  obtain ⟨k, hk⟩ := h.key
  have hm := (Entity.mem_keys g k).1 (hk ▸ List.mem_singleton_self k)
  exact ⟨rfl, h.fieldNames, h.relationshipNames.sublist (hsub.map _),
    fun f hf => ⟨h.fields f hf, f, hf, rfl, rfl⟩, fun r hr => ⟨r, hsub.subset hr, .refl r⟩, k, hm⟩

end SchemaLedger.Diff
