import SchemaLedger.Proofs.Migration.Differ
import SchemaLedger.Proofs.Migration.Proposal

set_option autoImplicit false

/-!
# The steps of a difference

Each phase of a difference holds exactly the proposed steps of its kind, with the drops and creations
in the order computed for them.
-/
namespace SchemaLedger.Diff

variable {a b : Schema} {drops creates : List Entity}

theorem mem_created (a b : Schema) (e : Entity) :
    e ∈ created a b ↔ e ∈ b.entities ∧ ¬ a.Declares (.entity e.name) := by
  rw [Schema.declares_entity, ← Schema.contains_iff]
  simp [created]

theorem mem_kept (ha : a.names.Nodup) (p : Entity × Entity) :
    p ∈ kept a b ↔ p.1 ∈ a.entities ∧ p.2 ∈ b.entities ∧ p.1.name = p.2.name := by
  simp only [kept, List.mem_filterMap, Option.map_eq_some_iff, Schema.entity?_eq_some ha]
  constructor
  · rintro ⟨e, he, g, ⟨hg, hn⟩, rfl⟩
    exact ⟨hg, he, hn⟩
  · rintro ⟨h1, h2, hn⟩
    exact ⟨p.2, h2, p.1, ⟨h1, hn⟩, rfl⟩

theorem mem_together (ha : a.names.Nodup) (phase : Phases → List Step) (st : Step) :
    st ∈ together a b phase ↔ ∃ old ∈ a.entities, ∃ new ∈ b.entities,
      old.name = new.name ∧ st ∈ phase (phasesOf old new) := by
  simp only [together, List.mem_flatMap, mem_kept ha]
  constructor
  · rintro ⟨p, ⟨h1, h2, hn⟩, hst⟩
    exact ⟨p.1, h1, p.2, h2, hn, hst⟩
  · rintro ⟨old, h1, new, h2, hn, hst⟩
    exact ⟨(old, new), ⟨h1, h2, hn⟩, hst⟩

theorem mem_linkSteps (make : String → Relationship → Step) (s : Schema) (t : Schema) (st : Step) :
    st ∈ (created s t).flatMap (linkSteps make) ↔
      ∃ n l, t.Declares (.relationship n (.many l)) ∧ ¬ s.Declares (.entity n) ∧
        make n (.many l) = st := by
  simp only [List.mem_flatMap, mem_created, linkSteps, List.mem_map, Entity.mem_links]
  constructor
  · rintro ⟨e, ⟨he, hn⟩, l, hl, rfl⟩
    exact ⟨e.name, l, Schema.declares_relationship_of_mem he hl, hn, rfl⟩
  · rintro ⟨_, l, ⟨e, he, rfl, hl⟩, hn, rfl⟩
    exact ⟨e, ⟨he, hn⟩, l, hl, rfl⟩

/-! ## Members of entities that stay -/

section Pair

variable {old new : Entity}

theorem mem_replaced (ha : a.Sound) (hb : b.Sound) (hold : old ∈ a.entities)
    (hnew : new ∈ b.entities) (hn : old.name = new.name) (r : Relationship) :
    r ∈ replaced old new ↔ Obsolete a b old.name r := by
  have hfound := Keyed.find?_eq_some (hb.entities new hnew).relationshipNames r.name
  rw [replaced, List.mem_filter, Obsolete, Schema.declares_relationship ha.distinct hold, hn]
  simp only [Schema.declares_relationship hb.distinct hnew]
  refine and_congr_right fun _ => ?_
  cases hq : new.relationship? r.name with
  | none =>
    have hno := (Keyed.find?_eq_none r.name).1 hq
    exact iff_of_true rfl fun q hq hqn => absurd hqn (hno q hq)
  | some q =>
    obtain ⟨hm, hqn⟩ := (hfound q).1 hq
    have huniq : ∀ i ∈ new.relationships, i.name = r.name → i = q := fun i hi hin =>
      Option.some.inj (((hfound i).2 ⟨hi, hin⟩).symm.trans hq)
    simp only [isReplaced, Bool.and_eq_true, decide_eq_true_eq, Bool.not_eq_true']
    constructor
    · rintro h i hi hin
      rw [huniq i hi hin]
      exact h
    · exact fun h => h q hm hqn

theorem mem_filter_field? (ha : a.Sound) (hb : b.Sound) (hold : old ∈ a.entities)
    (hnew : new ∈ b.entities) (hn : old.name = new.name) (f : Field) :
    (f ∈ old.fields.filter fun f => (new.field? f.name).isNone) ↔
      a.Declares (.field old.name f) ∧ ∀ g, b.Declares (.field old.name g) → g.name ≠ f.name := by
  rw [List.mem_filter, Schema.declares_field ha.distinct hold, hn]
  simp only [Schema.declares_field hb.distinct hnew, Option.isNone_iff_eq_none]
  exact and_congr_right fun _ => Keyed.find?_eq_none f.name

theorem mem_alterations (ha : a.Sound) (hb : b.Sound) (hold : old ∈ a.entities)
    (hnew : new ∈ b.entities) (hn : old.name = new.name) (st : Step) :
    st ∈ alterations old new ↔ ∃ f g, a.Declares (.field old.name f) ∧
      b.Declares (.field old.name g) ∧ f.name = g.name ∧ f.same g = false ∧
        st = .alterField old.name f g := by
  have hfound := fun g : Field => Keyed.find?_eq_some (ha.entities old hold).fieldNames g.name
  simp only [alterations, List.mem_filterMap, Option.bind_eq_some_iff]
  constructor
  · rintro ⟨g, hg, f, hf, hst⟩
    obtain ⟨hfm, hfn⟩ := (hfound g f).1 hf
    refine ⟨f, g, Schema.declares_field_of_mem hold hfm, ?_, hfn, ?_⟩
    · rw [hn]
      exact Schema.declares_field_of_mem hnew hg
    · cases hs : f.same g with
      | true => simp [hs] at hst
      | false =>
        simp only [hs, Bool.false_eq_true, if_false, Option.some.injEq] at hst
        exact ⟨rfl, hst.symm⟩
  · rintro ⟨f, g, hf, hg, hfn, hs, rfl⟩
    rw [hn, Schema.declares_field hb.distinct hnew] at hg
    rw [Schema.declares_field ha.distinct hold] at hf
    exact ⟨g, hg, f, (hfound g f).2 ⟨hf, hfn⟩, by simp [hs]⟩

theorem alteredReference_single {n : String} {r q : Reference}
    (h : new.relationship? r.name = some (.single q)) :
    alteredReference n new (.single r) =
      if r ≠ q ∧ r.target = q.target then some (.alterReference n r q) else none := by
  simp only [alteredReference, Relationship.name, h]

theorem mem_alteredReferences (ha : a.Sound) (hb : b.Sound) (hold : old ∈ a.entities)
    (hnew : new ∈ b.entities) (hn : old.name = new.name) (st : Step) :
    st ∈ old.relationships.filterMap (alteredReference old.name new) ↔
      ∃ r q, a.Declares (.relationship old.name (.single r)) ∧
        b.Declares (.relationship old.name (.single q)) ∧ r.name = q.name ∧
          r.target = q.target ∧ r ≠ q ∧ st = .alterReference old.name r q := by
  have hfound := fun r : Reference =>
    Keyed.find?_eq_some (hb.entities new hnew).relationshipNames r.name
  simp only [List.mem_filterMap]
  constructor
  · rintro ⟨r, hr, hst⟩
    unfold alteredReference at hst
    split at hst
    · rename_i i q hq
      obtain ⟨hqm, hqn⟩ := (hfound i _).1 hq
      split at hst
      · rename_i hne
        refine ⟨i, q, Schema.declares_relationship_of_mem hold hr, ?_, hqn.symm, hne.2, hne.1,
          (Option.some.inj hst).symm⟩
        rw [hn]
        exact Schema.declares_relationship_of_mem hnew hqm
      · cases hst
    · cases hst
  · rintro ⟨r, q, hr, hq, hrn, ht, hne, rfl⟩
    rw [hn, Schema.declares_relationship hb.distinct hnew] at hq
    rw [Schema.declares_relationship ha.distinct hold] at hr
    have hf : new.relationship? r.name = some (.single q) := (hfound r _).2 ⟨hq, hrn.symm⟩
    exact ⟨.single r, hr, (alteredReference_single hf).trans (if_pos ⟨hne, ht⟩)⟩

end Pair

/-! ## The steps of a phase -/

theorem mem_replaced_steps (ha : a.Sound) (hb : b.Sound) (make : String → Relationship → Step)
    (p : Relationship → Bool) (st : Step) :
    (∃ old ∈ a.entities, ∃ new ∈ b.entities, old.name = new.name ∧
        st ∈ ((replaced old new).filter p).map (make old.name)) ↔
      ∃ n r, Obsolete a b n r ∧ b.Declares (.entity n) ∧ p r = true ∧ st = make n r := by
  simp only [List.mem_map, List.mem_filter]
  constructor
  · rintro ⟨old, h1, new, h2, hn, r, ⟨hr, hp⟩, rfl⟩
    exact ⟨old.name, r, (mem_replaced ha hb h1 h2 hn r).1 hr, ⟨new, h2, hn.symm⟩, hp, rfl⟩
  · rintro ⟨n, r, hobs, ⟨new, h2, hn⟩, hp, rfl⟩
    obtain ⟨old, h1, rfl⟩ := hobs.1.owner
    exact ⟨old, h1, new, h2, hn.symm, r, ⟨(mem_replaced ha hb h1 h2 hn.symm r).2 hobs, hp⟩, rfl⟩

theorem mem_replacing_steps (ha : a.Sound) (hb : b.Sound) (make : String → Relationship → Step)
    (p : Relationship → Bool) (st : Step) :
    (∃ old ∈ a.entities, ∃ new ∈ b.entities, old.name = new.name ∧
        st ∈ ((replaced new old).filter p).map (make old.name)) ↔
      ∃ n r, Obsolete b a n r ∧ a.Declares (.entity n) ∧ p r = true ∧ st = make n r := by
  rw [← mem_replaced_steps hb ha make p st]
  constructor
  · rintro ⟨old, h1, new, h2, hn, h⟩
    exact ⟨new, h2, old, h1, hn.symm, hn ▸ h⟩
  · rintro ⟨new, h2, old, h1, hn, h⟩
    exact ⟨old, h1, new, h2, hn.symm, hn ▸ h⟩

theorem mem_removeFields (ha : a.Sound) (hb : b.Sound) (st : Step) :
    st ∈ together a b (·.removeFields) ↔
      ∃ n f, Proposes a b (.removeField n f) ∧ st = .removeField n f := by
  simp only [mem_together ha.distinct, phasesOf, removedFields, List.mem_map]
  constructor
  · rintro ⟨old, h1, new, h2, hn, f, hf, rfl⟩
    exact ⟨old.name, f, ⟨⟨new, h2, hn.symm⟩, (mem_filter_field? ha hb h1 h2 hn f).1 hf⟩, rfl⟩
  · rintro ⟨n, f, ⟨⟨new, h2, hn⟩, hf⟩, rfl⟩
    obtain ⟨old, h1, rfl⟩ := hf.1.owner
    exact ⟨old, h1, new, h2, hn.symm, f, (mem_filter_field? ha hb h1 h2 hn.symm f).2 hf, rfl⟩

theorem mem_addFields (ha : a.Sound) (hb : b.Sound) (st : Step) :
    st ∈ together a b (·.addFields) ↔
      ∃ n f, Proposes a b (.addField n f) ∧ st = .addField n f := by
  simp only [mem_together ha.distinct, phasesOf, addedFields, List.mem_map]
  constructor
  · rintro ⟨old, h1, new, h2, hn, f, hf, rfl⟩
    have hf := (mem_filter_field? hb ha h2 h1 hn.symm f).1 hf
    rw [← hn] at hf
    exact ⟨old.name, f, ⟨⟨old, h1, rfl⟩, hf⟩, rfl⟩
  · rintro ⟨n, f, ⟨⟨old, h1, hn⟩, hf⟩, rfl⟩
    obtain ⟨new, h2, rfl⟩ := hf.1.owner
    change old.name = new.name at hn
    exact ⟨old, h1, new, h2, hn, f, (mem_filter_field? hb ha h2 h1 hn.symm f).2 hf,
      congrArg (Step.addField · f) hn⟩

theorem mem_alterFields (ha : a.Sound) (hb : b.Sound) (st : Step) :
    st ∈ together a b (·.alterFields) ↔
      ∃ n f g, a.Declares (.field n f) ∧ b.Declares (.field n g) ∧ f.name = g.name ∧
        f.same g = false ∧ st = .alterField n f g := by
  simp only [mem_together ha.distinct, phasesOf]
  constructor
  · rintro ⟨old, h1, new, h2, hn, h⟩
    exact ⟨old.name, (mem_alterations ha hb h1 h2 hn st).1 h⟩
  · rintro ⟨n, f, g, hf, hg, h⟩
    obtain ⟨old, h1, rfl⟩ := hf.owner
    obtain ⟨new, h2, hn⟩ := hg.owner
    exact ⟨old, h1, new, h2, hn.symm, (mem_alterations ha hb h1 h2 hn.symm st).2 ⟨f, g, hf, hg, h⟩⟩

theorem mem_alterReferences (ha : a.Sound) (hb : b.Sound) (st : Step) :
    st ∈ together a b (·.alterReferences) ↔
      ∃ n r q, Proposes a b (.alterReference n r q) ∧ r ≠ q ∧ st = .alterReference n r q := by
  simp only [mem_together ha.distinct, phasesOf]
  constructor
  · rintro ⟨old, h1, new, h2, hn, h⟩
    obtain ⟨r, q, hr, hq, hrq, ht, h⟩ := (mem_alteredReferences ha hb h1 h2 hn st).1 h
    exact ⟨old.name, r, q, ⟨hr, hq, hrq, ht⟩, h⟩
  · rintro ⟨n, r, q, ⟨hr, hq, hrq, ht⟩, h⟩
    obtain ⟨old, h1, rfl⟩ := hr.owner
    obtain ⟨new, h2, hn⟩ := hq.owner
    exact ⟨old, h1, new, h2, hn.symm,
      (mem_alteredReferences ha hb h1 h2 hn.symm st).2 ⟨r, q, hr, hq, hrq, ht, h⟩⟩

/-! ## The steps of a half -/

theorem mem_falling (ha : a.Sound) (hb : b.Sound) (st : Step) :
    st ∈ falling a b drops ↔
      (∃ n r, Proposes a b (.removeRelationship n r) ∧ st = .removeRelationship n r) ∨
        (∃ n f, Proposes a b (.removeField n f) ∧ st = .removeField n f) ∨
          ∃ g ∈ drops, st = .dropEntity g.withoutLinks := by
  have hlinks := mem_replaced_steps ha hb .removeRelationship isMany st
  have hrefs := mem_replaced_steps ha hb .removeRelationship (!isMany ·) st
  rw [falling, List.mem_append, List.mem_append, List.mem_append, List.mem_append, mem_linkSteps,
    mem_together ha.distinct, mem_together ha.distinct, mem_removeFields ha hb]
  simp only [phasesOf, hlinks, hrefs]
  constructor
  · rintro ((((⟨n, l, hl, hn, rfl⟩ | ⟨n, r, hr, hn, -, rfl⟩) | ⟨n, r, hr, hn, -, rfl⟩) | h) | h)
    · exact .inl ⟨n, .many l, ⟨⟨hl, fun q hq => absurd hq.owner hn⟩, fun h => by cases h⟩, rfl⟩
    · exact .inl ⟨n, r, ⟨hr, fun _ => hn⟩, rfl⟩
    · exact .inl ⟨n, r, ⟨hr, fun _ => hn⟩, rfl⟩
    · exact .inr (.inl h)
    · obtain ⟨g, hg, rfl⟩ := List.mem_map.1 h
      exact .inr (.inr ⟨g, List.mem_reverse.1 hg, rfl⟩)
  · rintro (⟨n, r, ⟨hobs, hstays⟩, rfl⟩ | h | ⟨g, hg, rfl⟩)
    · by_cases hnb : b.Declares (.entity n)
      · cases hm : isMany r with
        | true => exact .inl (.inl (.inl (.inr ⟨n, r, hobs, hnb, hm, rfl⟩)))
        | false => exact .inl (.inl (.inr ⟨n, r, hobs, hnb, by rw [hm]; rfl, rfl⟩))
      · cases r with
        | single q => exact absurd (hstays rfl) hnb
        | many l => exact .inl (.inl (.inl (.inl ⟨n, l, hobs.1, hnb, rfl⟩)))
    · exact .inl (.inr h)
    · exact .inr (List.mem_map.2 ⟨g, List.mem_reverse.2 hg, rfl⟩)

theorem mem_rising (ha : a.Sound) (hb : b.Sound) (st : Step) :
    st ∈ rising a b creates ↔
      (∃ g ∈ creates, st = .createEntity g.withoutLinks) ∨
        (∃ n f, Proposes a b (.addField n f) ∧ st = .addField n f) ∨
          (∃ n f g, a.Declares (.field n f) ∧ b.Declares (.field n g) ∧ f.name = g.name ∧
            f.same g = false ∧ st = .alterField n f g) ∨
            (∃ n r q, Proposes a b (.alterReference n r q) ∧ r ≠ q ∧ st = .alterReference n r q) ∨
              ∃ n r, Proposes a b (.addRelationship n r) ∧ st = .addRelationship n r := by
  have hlinks := mem_replacing_steps ha hb .addRelationship isMany st
  have hrefs := mem_replacing_steps ha hb .addRelationship (!isMany ·) st
  rw [rising, List.mem_append, List.mem_append, List.mem_append, List.mem_append, List.mem_append,
    List.mem_append, mem_linkSteps, mem_addFields ha hb, mem_alterFields ha hb,
    mem_alterReferences ha hb, mem_together ha.distinct, mem_together ha.distinct]
  simp only [phasesOf, hlinks, hrefs]
  constructor
  · rintro ((((((h | h) | h) | h) | ⟨n, r, hr, hn, -, rfl⟩) | ⟨n, r, hr, hn, -, rfl⟩) |
      ⟨n, l, hl, hn, rfl⟩)
    · obtain ⟨g, hg, rfl⟩ := List.mem_map.1 h
      exact .inl ⟨g, hg, rfl⟩
    · exact .inr (.inl h)
    · exact .inr (.inr (.inl h))
    · exact .inr (.inr (.inr (.inl h)))
    · exact .inr (.inr (.inr (.inr ⟨n, r, ⟨hr, fun _ => hn⟩, rfl⟩)))
    · exact .inr (.inr (.inr (.inr ⟨n, r, ⟨hr, fun _ => hn⟩, rfl⟩)))
    · refine .inr (.inr (.inr (.inr ⟨n, .many l, ⟨⟨hl, fun q hq => absurd hq.owner hn⟩, ?_⟩, rfl⟩)))
      exact fun h => by cases h
  · rintro (⟨g, hg, rfl⟩ | h | h | h | ⟨n, r, ⟨hobs, hstays⟩, rfl⟩)
    · exact .inl (.inl (.inl (.inl (.inl (.inl (List.mem_map.2 ⟨g, hg, rfl⟩))))))
    · exact .inl (.inl (.inl (.inl (.inl (.inr h)))))
    · exact .inl (.inl (.inl (.inl (.inr h))))
    · exact .inl (.inl (.inl (.inr h)))
    · by_cases hna : a.Declares (.entity n)
      · cases hm : isMany r with
        | true => exact .inl (.inr ⟨n, r, hobs, hna, hm, rfl⟩)
        | false => exact .inl (.inl (.inr ⟨n, r, hobs, hna, by rw [hm]; rfl, rfl⟩))
      · cases r with
        | single q => exact absurd (hstays rfl) hna
        | many l => exact .inr ⟨n, l, hobs.1, hna, rfl⟩

end SchemaLedger.Diff
