import SchemaLedger.Proofs.Migration.DiffSteps

set_option autoImplicit false

/-!
# The difference of two schemas is a plan

No step stands twice in a difference, and two of its steps never empty or fill one slot. With the order
of the phases, and that of the drops and creations, this makes its two halves a plan.
-/
namespace SchemaLedger.Diff

variable {a b : Schema} {drops creates : List Entity}

/-! ## No step stands twice -/

/-- The number of the phase that a step belongs to. -/
def phase (a b : Schema) : Step → Nat
  | .removeRelationship n (.many _) => if b.contains n then 1 else 0
  | .removeRelationship _ (.single _) => 2
  | .removeField _ _ => 3
  | .dropEntity _ => 4
  | .createEntity _ => 5
  | .addField _ _ => 6
  | .alterField _ _ _ => 7
  | .alterReference _ _ _ => 8
  | .addRelationship _ (.single _) => 9
  | .addRelationship n (.many _) => if a.contains n then 10 else 11

/-- Different steps, all of one phase. -/
def IsPhase (a b : Schema) (k : Nat) (steps : List Step) : Prop :=
  steps.Nodup ∧ ∀ st ∈ steps, phase a b st = k

/-- Different steps, all of phases before one. -/
def IsUpTo (a b : Schema) (k : Nat) (steps : List Step) : Prop :=
  steps.Nodup ∧ ∀ st ∈ steps, phase a b st < k

theorem IsPhase.upTo {k : Nat} {xs : List Step} (h : IsPhase a b k xs) : IsUpTo a b (k + 1) xs :=
  ⟨h.1, fun st hst => h.2 st hst ▸ Nat.lt_succ_self _⟩

theorem IsUpTo.append {k : Nat} {xs ys : List Step} (hx : IsUpTo a b k xs)
    (hy : IsPhase a b k ys) : IsUpTo a b (k + 1) (xs ++ ys) := by
  constructor
  · refine List.nodup_append.2 ⟨hx.1, hy.1, fun s hs t ht heq => ?_⟩
    have hlt := hx.2 s hs
    rw [heq, hy.2 t ht] at hlt
    exact Nat.lt_irrefl k hlt
  · intro st hst
    rcases List.mem_append.1 hst with hst | hst
    · exact Nat.lt_succ_of_lt (hx.2 st hst)
    · rw [hy.2 st hst]
      exact Nat.lt_succ_self k

theorem nodup_flatMap_of_owner {α : Type} {name : α → String} {xs : List α}
    (hx : (xs.map name).Nodup) {f : α → List Step} (hf : ∀ x ∈ xs, (f x).Nodup)
    (hn : ∀ x ∈ xs, ∀ st ∈ f x, st.entityName = name x) : (xs.flatMap f).Nodup := by
  refine List.nodup_flatMap.2 ⟨hf, ?_⟩
  refine (List.Nodup.of_map _ hx).pairwise_of_forall_ne fun x hxm y hym hne st hs ht => ?_
  exact hne (List.inj_on_of_nodup_map hx hxm hym ((hn x hxm st hs).symm.trans (hn y hym st ht)))

theorem nodup_kept (hb : b.names.Nodup) : ((kept a b).map (·.2.name)).Nodup := by
  have hsub : ∀ es : List Entity, ((es.filterMap fun e =>
      (a.entity? e.name).map (·, e)).map (·.2.name)).Sublist (es.map (·.name)) := by
    intro es
    induction es with
    | nil => exact .slnil
    | cons e rest ih =>
      cases he : a.entity? e.name with
      | none => simpa [he] using ih.cons e.name
      | some g => simpa [he] using ih
  exact hb.sublist (hsub b.entities)

theorem isPhase_together (ha : a.Sound) (hb : b.Sound) {part : Phases → List Step} {k : Nat}
    (hpart : ∀ old new : Entity, old.Sound → new.Sound → (part (phasesOf old new)).Nodup)
    (howner : ∀ (old new : Entity) st, st ∈ part (phasesOf old new) → st.entityName = old.name)
    (hphase : ∀ st ∈ together a b part, phase a b st = k) :
    IsPhase a b k (together a b part) := by
  refine ⟨nodup_flatMap_of_owner (nodup_kept hb.distinct) (fun p hp => ?_) fun p hp st hst => ?_,
    hphase⟩
  · obtain ⟨h1, h2, -⟩ := (mem_kept ha.distinct p).1 hp
    exact hpart p.1 p.2 (ha.entities _ h1) (hb.entities _ h2)
  · exact (howner p.1 p.2 st hst).trans ((mem_kept ha.distinct p).1 hp).2.2

theorem nodup_created (hb : b.Sound) (a : Schema) : ((created a b).map (·.name)).Nodup :=
  hb.distinct.sublist (List.filter_sublist.map _)

theorem nodup_links (hb : b.Sound) {make : String → Relationship → Step}
    (hinj : ∀ n r q, make n r = make n q → r = q) (hmake : ∀ n r, (make n r).entityName = n) :
    ((created a b).flatMap (linkSteps make)).Nodup := by
  have hsub := nodup_created hb a
  refine nodup_flatMap_of_owner hsub (fun e he => ?_) fun e _ st hst => ?_
  · have hlinks := Schema.nodup_links (hb.entities e (List.mem_filter.1 he).1).relationshipNames
    exact hlinks.map fun l k h => Relationship.many.inj (hinj _ _ _ h)
  · obtain ⟨l, -, rfl⟩ := List.mem_map.1 hst
    exact hmake e.name _

section Phase

variable {old new : Entity}

theorem nodup_replaced (ho : old.Sound) {make : Relationship → Step}
    (hinj : ∀ r q, make r = make q → r = q) (p : Relationship → Bool) :
    (((replaced old new).filter p).map make).Nodup :=
  (((List.Nodup.of_map _ ho.relationshipNames).filter _).filter p).map fun r q h => hinj r q h

theorem nodup_fieldSteps (ho : old.Sound) {make : Field → Step}
    (hinj : ∀ f g, make f = make g → f = g) (p : Field → Bool) :
    ((old.fields.filter p).map make).Nodup :=
  ((List.Nodup.of_map _ ho.fieldNames).filter p).map fun f g h => hinj f g h

theorem alterations_cases {f : Field} {st : Step}
    (h : ((old.field? f.name).bind fun before =>
      if before.same f then none else some (.alterField old.name before f)) = some st) :
    ∃ before, st = .alterField old.name before f := by
  obtain ⟨before, -, hst⟩ := Option.bind_eq_some_iff.1 h
  split at hst
  · cases hst
  · exact ⟨before, (Option.some.inj hst).symm⟩

theorem nodup_alterations (hw : new.Sound) : (alterations old new).Nodup := by
  refine List.Nodup.filterMap (fun f g st hf hg => ?_) (List.Nodup.of_map _ hw.fieldNames)
  obtain ⟨_, hf⟩ := alterations_cases hf
  obtain ⟨_, hg⟩ := alterations_cases hg
  rw [hf] at hg
  exact (Step.alterField.inj hg).2.2

theorem alteredReference_cases {n : String} {r : Relationship} {st : Step}
    (h : alteredReference n new r = some st) :
    ∃ i q, r = .single i ∧ st = .alterReference n i q := by
  unfold alteredReference at h
  split at h
  · rename_i i q _
    split at h
    · exact ⟨i, q, rfl, (Option.some.inj h).symm⟩
    · cases h
  · cases h

theorem nodup_alteredReferences (ho : old.Sound) (n : String) :
    (old.relationships.filterMap (alteredReference n new)).Nodup := by
  refine List.Nodup.filterMap (fun r q st hr hq => ?_) (List.Nodup.of_map _ ho.relationshipNames)
  obtain ⟨i, _, rfl, hi⟩ := alteredReference_cases hr
  obtain ⟨j, _, rfl, hj⟩ := alteredReference_cases hq
  rw [hi] at hj
  rw [(Step.alterReference.inj hj).2.1]

end Phase

theorem owner_of_mem_map {α : Type} {make : α → Step} {n : String} {xs : List α} {st : Step}
    (h : st ∈ xs.map make) (hmake : ∀ x, (make x).entityName = n) : st.entityName = n := by
  obtain ⟨x, -, rfl⟩ := List.mem_map.1 h
  exact hmake x

theorem isPhase_removeLinks (ha : a.Sound) (hb : b.Sound) :
    IsPhase a b 1 (together a b (·.removeLinks)) := by
  refine isPhase_together ha hb
    (fun _ _ ho _ => nodup_replaced ho (fun _ _ h => (Step.removeRelationship.inj h).2) isMany)
    (fun _ _ _ h => owner_of_mem_map h fun _ => rfl) fun st hst => ?_
  obtain ⟨n, r, -, hn, hm, rfl⟩ := (mem_replaced_steps ha hb .removeRelationship isMany st).1
    ((mem_together ha.distinct _ st).1 hst)
  cases r with
  | single _ => cases hm
  | many _ => exact if_pos ((Schema.contains_iff b n).2 ((Schema.declares_entity b n).1 hn))

theorem isPhase_removeReferences (ha : a.Sound) (hb : b.Sound) :
    IsPhase a b 2 (together a b (·.removeReferences)) := by
  refine isPhase_together ha hb
    (fun _ _ ho _ => nodup_replaced ho (fun _ _ h => (Step.removeRelationship.inj h).2) (!isMany ·))
    (fun _ _ _ h => owner_of_mem_map h fun _ => rfl) fun st hst => ?_
  obtain ⟨n, r, -, -, hm, rfl⟩ := (mem_replaced_steps ha hb .removeRelationship (!isMany ·) st).1
    ((mem_together ha.distinct _ st).1 hst)
  cases r with
  | single _ => rfl
  | many _ => cases hm

theorem isPhase_addReferences (ha : a.Sound) (hb : b.Sound) :
    IsPhase a b 9 (together a b (·.addReferences)) := by
  refine isPhase_together ha hb
    (fun _ _ _ hw => nodup_replaced hw (fun _ _ h => (Step.addRelationship.inj h).2) (!isMany ·))
    (fun _ _ _ h => owner_of_mem_map h fun _ => rfl) fun st hst => ?_
  obtain ⟨n, r, -, -, hm, rfl⟩ := (mem_replacing_steps ha hb .addRelationship (!isMany ·) st).1
    ((mem_together ha.distinct _ st).1 hst)
  cases r with
  | single _ => rfl
  | many _ => cases hm

theorem isPhase_addLinks (ha : a.Sound) (hb : b.Sound) :
    IsPhase a b 10 (together a b (·.addLinks)) := by
  refine isPhase_together ha hb
    (fun _ _ _ hw => nodup_replaced hw (fun _ _ h => (Step.addRelationship.inj h).2) isMany)
    (fun _ _ _ h => owner_of_mem_map h fun _ => rfl) fun st hst => ?_
  obtain ⟨n, r, -, hn, hm, rfl⟩ := (mem_replacing_steps ha hb .addRelationship isMany st).1
    ((mem_together ha.distinct _ st).1 hst)
  cases r with
  | single _ => cases hm
  | many _ => exact if_pos ((Schema.contains_iff a n).2 ((Schema.declares_entity a n).1 hn))

theorem isPhase_removeFields (ha : a.Sound) (hb : b.Sound) :
    IsPhase a b 3 (together a b (·.removeFields)) := by
  refine isPhase_together ha hb
    (fun _ _ ho _ => nodup_fieldSteps ho (fun _ _ h => (Step.removeField.inj h).2) _)
    (fun _ _ _ h => owner_of_mem_map h fun _ => rfl) fun st hst => ?_
  obtain ⟨_, _, -, rfl⟩ := (mem_removeFields ha hb st).1 hst
  rfl

theorem isPhase_addFields (ha : a.Sound) (hb : b.Sound) :
    IsPhase a b 6 (together a b (·.addFields)) := by
  refine isPhase_together ha hb
    (fun _ _ _ hw => nodup_fieldSteps hw (fun _ _ h => (Step.addField.inj h).2) _)
    (fun _ _ _ h => owner_of_mem_map h fun _ => rfl) fun st hst => ?_
  obtain ⟨_, _, -, rfl⟩ := (mem_addFields ha hb st).1 hst
  rfl

theorem isPhase_alterFields (ha : a.Sound) (hb : b.Sound) :
    IsPhase a b 7 (together a b (·.alterFields)) := by
  refine isPhase_together ha hb (fun _ _ _ hw => nodup_alterations hw) (fun old new st hst => ?_)
    fun st hst => ?_
  · obtain ⟨f, -, h⟩ := List.mem_filterMap.1 hst
    obtain ⟨_, rfl⟩ := alterations_cases h
    rfl
  · obtain ⟨_, _, _, -, -, -, -, rfl⟩ := (mem_alterFields ha hb st).1 hst
    rfl

theorem isPhase_alterReferences (ha : a.Sound) (hb : b.Sound) :
    IsPhase a b 8 (together a b (·.alterReferences)) := by
  refine isPhase_together ha hb (fun old _ ho _ => nodup_alteredReferences ho old.name)
    (fun old new st hst => ?_) fun st hst => ?_
  · obtain ⟨r, -, h⟩ := List.mem_filterMap.1 hst
    obtain ⟨_, _, -, rfl⟩ := alteredReference_cases h
    rfl
  · obtain ⟨_, _, _, -, -, rfl⟩ := (mem_alterReferences ha hb st).1 hst
    rfl

theorem isPhase_droppedLinks (ha : a.Sound) :
    IsPhase a b 0 ((created b a).flatMap (linkSteps .removeRelationship)) := by
  refine ⟨nodup_links ha (fun _ _ _ h => (Step.removeRelationship.inj h).2) fun _ _ => rfl, ?_⟩
  intro st hst
  obtain ⟨n, l, -, hn, rfl⟩ := (mem_linkSteps _ _ _ _).1 hst
  exact if_neg fun hc => hn ((Schema.declares_entity b n).2 ((Schema.contains_iff b n).1 hc))

theorem isPhase_createdLinks (hb : b.Sound) :
    IsPhase a b 11 ((created a b).flatMap (linkSteps .addRelationship)) := by
  refine ⟨nodup_links hb (fun _ _ _ h => (Step.addRelationship.inj h).2) fun _ _ => rfl, ?_⟩
  intro st hst
  obtain ⟨n, l, -, hn, rfl⟩ := (mem_linkSteps _ _ _ _).1 hst
  exact if_neg fun hc => hn ((Schema.declares_entity a n).2 ((Schema.contains_iff a n).1 hc))

theorem nodup_entitySteps {s : Schema} (hs : s.names.Nodup) {es : List Entity} (hsub : es ⊆ s.entities)
    (hd : es.Nodup) {make : Entity → Step} (hinj : ∀ e g, make e = make g → e = g) :
    (es.map fun e => make e.withoutLinks).Nodup := by
  refine List.Nodup.map_on (fun e he g hg h => ?_) hd
  have heq : e.withoutLinks = g.withoutLinks := hinj _ _ h
  exact Schema.eq_of_name_eq hs (hsub he) (hsub hg) (show e.withoutLinks.name = _ from heq ▸ rfl)

theorem nodup_steps (ha : a.Sound) (hb : b.Sound) (hdrops : drops.Perm (created b a))
    (hcreates : creates.Perm (created a b)) :
    (falling a b drops ++ rising a b creates).Nodup := by
  have hsubd : drops ⊆ a.entities := fun e he => (List.mem_filter.1 (hdrops.subset he)).1
  have hsubc : creates ⊆ b.entities := fun e he => (List.mem_filter.1 (hcreates.subset he)).1
  have hd : drops.Nodup :=
    hdrops.nodup_iff.2 ((List.Nodup.of_map _ ha.distinct).filter _)
  have hc : creates.Nodup :=
    hcreates.nodup_iff.2 ((List.Nodup.of_map _ hb.distinct).filter _)
  have hdrop : IsPhase a b 4 (drops.reverse.map fun e => .dropEntity e.withoutLinks) := by
    refine ⟨nodup_entitySteps ha.distinct (fun e he => hsubd (List.mem_reverse.1 he))
      (List.nodup_reverse.2 hd) fun _ _ h => Step.dropEntity.inj h, fun st hst => ?_⟩
    obtain ⟨_, -, rfl⟩ := List.mem_map.1 hst
    rfl
  have hcreate : IsPhase a b 5 (creates.map fun e => .createEntity e.withoutLinks) := by
    refine ⟨nodup_entitySteps hb.distinct hsubc hc fun _ _ h => Step.createEntity.inj h,
      fun st hst => ?_⟩
    obtain ⟨_, -, rfl⟩ := List.mem_map.1 hst
    rfl
  simp only [falling, rising, ← List.append_assoc]
  exact ((isPhase_droppedLinks ha).upTo.append (isPhase_removeLinks ha hb)
    |>.append (isPhase_removeReferences ha hb) |>.append (isPhase_removeFields ha hb)
    |>.append hdrop |>.append hcreate |>.append (isPhase_addFields ha hb)
    |>.append (isPhase_alterFields ha hb) |>.append (isPhase_alterReferences ha hb)
    |>.append (isPhase_addReferences ha hb) |>.append (isPhase_addLinks ha hb)
    |>.append (isPhase_createdLinks hb)).1

/-! ## The plan -/

/-- Whether every field that both schemas have can become its counterpart. -/
def Migratable (a b : Schema) : Prop :=
  ∀ n f g, a.Declares (.field n f) → b.Declares (.field n g) → f.name = g.name → Alterable f g

theorem migratable_iff (ha : a.Sound) :
    (∀ p ∈ kept a b, Compatible p.1 p.2) ↔ Migratable a b := by
  constructor
  · intro h n f g hf hg hn
    obtain ⟨old, h1, rfl, hfm⟩ := hf
    obtain ⟨new, h2, hname, hgm⟩ := hg
    refine h (old, new) ((mem_kept ha.distinct _).2 ⟨h1, h2, hname.symm⟩) g hgm f ?_
    exact (Keyed.find?_eq_some (ha.entities old h1).fieldNames g.name f).2 ⟨hfm, hn⟩
  · intro h p hp g hg f hf
    obtain ⟨h1, h2, hname⟩ := (mem_kept ha.distinct p).1 hp
    obtain ⟨hfm, hn⟩ := (Keyed.find?_eq_some (ha.entities _ h1).fieldNames g.name f).1 hf
    refine h p.1.name f g (Schema.declares_field_of_mem h1 hfm) ?_ hn
    rw [hname]
    exact Schema.declares_field_of_mem h2 hg

theorem Alterable.primaryKey {f g : Field} (h : Alterable f g) : f.primaryKey = g.primaryKey := by
  rcases h with h | ⟨h, -⟩
  · simp only [Field.same, Bool.and_eq_true, decide_eq_true_eq] at h
    exact h.1.1.2
  · simp only [keepsIdentity, Bool.and_eq_true, decide_eq_true_eq] at h
    exact h.1.1

theorem proposed_of_mem (ha : a.Sound) (hb : b.Sound) (hm : Migratable a b)
    (hdrops : drops ⊆ created b a) (hcreates : creates ⊆ created a b) {st : Step}
    (h : st ∈ falling a b drops ++ rising a b creates) : Proposes a b st := by
  rcases List.mem_append.1 h with h | h
  · rcases (mem_falling ha hb st).1 h with ⟨n, r, hp, rfl⟩ | ⟨n, f, hp, rfl⟩ | ⟨g, hg, rfl⟩
    · exact hp
    · exact hp
    · obtain ⟨hga, hgb⟩ := (mem_created b a g).1 (hdrops hg)
      refine ⟨⟨g, hga, rfl⟩, hgb, fun q hq => ?_⟩
      rw [mem_references_withoutLinks, Entity.mem_references]
      exact (Schema.declares_relationship ha.distinct hga _).1 hq
  · rcases (mem_rising ha hb st).1 h with ⟨g, hg, rfl⟩ | ⟨n, f, hp, rfl⟩ |
      ⟨n, f, g, hf, hg, hn, -, rfl⟩ | ⟨n, r, q, hp, -, rfl⟩ | ⟨n, r, hp, rfl⟩
    · obtain ⟨hgb, hga⟩ := (mem_created a b g).1 (hcreates hg)
      exact ⟨hga, g, hgb, rfl⟩
    · exact hp
    · exact ⟨hf, hg, hn, (hm n f g hf hg hn).primaryKey⟩
    · exact hp
    · exact hp

theorem dropEntity_mem (ha : a.Sound) (hb : b.Sound) (e : Entity) :
    .dropEntity e ∈ falling a b drops ++ rising a b creates ↔ ∃ g ∈ drops, e = g.withoutLinks := by
  rw [List.mem_append, mem_falling ha hb, mem_rising ha hb]
  simp

theorem createEntity_mem (ha : a.Sound) (hb : b.Sound) (e : Entity) :
    .createEntity e ∈ falling a b drops ++ rising a b creates ↔
      ∃ g ∈ creates, e = g.withoutLinks := by
  rw [List.mem_append, mem_falling ha hb, mem_rising ha hb]
  simp

theorem alterField_mem (ha : a.Sound) (hb : b.Sound) (n : String) (f g : Field) :
    .alterField n f g ∈ falling a b drops ++ rising a b creates ↔
      a.Declares (.field n f) ∧ b.Declares (.field n g) ∧ f.name = g.name ∧ f.same g = false := by
  rw [List.mem_append, mem_falling ha hb, mem_rising ha hb]
  simp only [reduceCtorEq, and_false, exists_false, or_false, false_or, Step.alterField.injEq]
  constructor
  · rintro ⟨_, _, _, hf, hg, hn, hs, rfl, rfl, rfl⟩
    exact ⟨hf, hg, hn, hs⟩
  · rintro ⟨hf, hg, hn, hs⟩
    exact ⟨n, f, g, hf, hg, hn, hs, rfl, rfl, rfl⟩

theorem apart_of_mem (ha : a.Sound) (hb : b.Sound) (hm : Migratable a b)
    (hdrops : drops ⊆ created b a) (hcreates : creates ⊆ created a b) {s t : Step}
    (hs : s ∈ falling a b drops ++ rising a b creates)
    (ht : t ∈ falling a b drops ++ rising a b creates) (hne : s ≠ t) : Apart s t := by
  have hps := proposed_of_mem ha hb hm hdrops hcreates hs
  have hpt := proposed_of_mem ha hb hm hdrops hcreates ht
  constructor
  · intro x hxs hxt
    rcases emptied?_cases hxs with ⟨e, rfl, rfl⟩ | ⟨hcs, hxn⟩
    · rcases emptied?_cases hxt with ⟨e', rfl, heq⟩ | ⟨-, hxn⟩
      · obtain ⟨g, hg, rfl⟩ := (dropEntity_mem ha hb e).1 hs
        obtain ⟨g', hg', rfl⟩ := (dropEntity_mem ha hb e').1 ht
        have hgg := Schema.eq_of_name_eq ha.distinct (List.mem_filter.1 (hdrops hg)).1
          (List.mem_filter.1 (hdrops hg')).1 (Slot.entity.inj heq)
        exact hne (hgg ▸ rfl)
      · exact hxn _ rfl
    · rcases emptied?_cases hxt with ⟨e, -, rfl⟩ | ⟨hct, -⟩
      · exact hxn _ rfl
      · exact hne (eq_of_emptied? ha hb hps hpt hcs hct hxs hxt)
  · intro x hxs hxt
    rcases filled?_cases hxs with ⟨e, rfl, rfl⟩ | ⟨hcs, hxn⟩
    · rcases filled?_cases hxt with ⟨e', rfl, heq⟩ | ⟨-, hxn⟩
      · obtain ⟨g, hg, rfl⟩ := (createEntity_mem ha hb e).1 hs
        obtain ⟨g', hg', rfl⟩ := (createEntity_mem ha hb e').1 ht
        have hgg := Schema.eq_of_name_eq hb.distinct (List.mem_filter.1 (hcreates hg)).1
          (List.mem_filter.1 (hcreates hg')).1 (Slot.entity.inj heq)
        exact hne (hgg ▸ rfl)
      · exact hxn _ rfl
    · rcases filled?_cases hxt with ⟨e, -, rfl⟩ | ⟨hct, -⟩
      · exact hxn _ rfl
      · exact hne (eq_of_filled? ha hb hps hpt hcs hct hxs hxt)

theorem falling_drops (ha : a.Sound) (hb : b.Sound) (hprec : drops.Pairwise Dependency.Precedes) :
    (falling a b drops).Pairwise fun s t =>
      ∀ d, s = .dropEntity d → ∃ e, t = .dropEntity e ∧ Dependency.Precedes e d := by
  have hlast : ∀ st ∈ (created b a).flatMap (linkSteps .removeRelationship) ++
      together a b (·.removeLinks) ++ together a b (·.removeReferences) ++
      together a b (·.removeFields), ∀ d, st ≠ .dropEntity d := by
    rintro st hst d rfl
    have hnone : .dropEntity d ∈ falling a b [] := List.mem_append_left _ hst
    rw [mem_falling ha hb] at hnone
    simp at hnone
  refine List.pairwise_append.2 ⟨?_, ?_, fun s hs t _ d hd => absurd hd (hlast s hs d)⟩
  · exact List.pairwise_of_forall_mem_list fun s hs t _ d hd => absurd hd (hlast s hs d)
  · rw [List.pairwise_map, List.pairwise_reverse]
    refine hprec.imp fun {e g} h d hd => ⟨_, rfl, fun r hr ht => ?_⟩
    obtain rfl := Step.dropEntity.inj hd
    exact h r ((mem_references_withoutLinks e r).1 hr) ht

theorem rising_creates (ha : a.Sound) (hb : b.Sound)
    (hprec : creates.Pairwise Dependency.Precedes) :
    (rising a b creates).Pairwise fun s t =>
      ∀ e, t = .createEntity e → ∃ d, s = .createEntity d ∧ Dependency.Precedes d e := by
  have hsplit : rising a b creates =
      creates.map (fun e => .createEntity e.withoutLinks) ++ rising a b [] := by
    simp only [rising, List.append_assoc, List.map_nil, List.nil_append]
  have hlater : ∀ st ∈ rising a b [], ∀ d, st ≠ .createEntity d := by
    rintro st hst d rfl
    rw [mem_rising ha hb] at hst
    simp at hst
  rw [hsplit]
  refine List.pairwise_append.2 ⟨?_, ?_, fun s _ t ht d hd => absurd hd (hlater t ht d)⟩
  · rw [List.pairwise_map]
    refine hprec.imp fun {e g} h d hd => ⟨_, rfl, fun r hr ht => ?_⟩
    obtain rfl := Step.createEntity.inj hd
    exact h r ((mem_references_withoutLinks e r).1 hr) ht
  · exact List.pairwise_of_forall_mem_list fun s _ t ht d hd => absurd hd (hlater t ht d)

/-- The two halves of a difference are a plan. -/
theorem plan_of_orders (ha : a.Sound) (hb : b.Sound) (hm : Migratable a b)
    (hdrops : drops.Perm (created b a)) (hcreates : creates.Perm (created a b))
    (hdprec : drops.Pairwise Dependency.Precedes) (hcprec : creates.Pairwise Dependency.Precedes) :
    Plan a b (falling a b drops) (rising a b creates) where
  proposed _ hst := proposed_of_mem ha hb hm hdrops.subset hcreates.subset hst
  apart := (nodup_steps ha hb hdrops hcreates).imp_of_mem fun hs ht hne =>
    apart_of_mem ha hb hm hdrops.subset hcreates.subset hs ht hne
  falls st hst := by
    rcases (mem_falling ha hb st).1 hst with ⟨n, r, -, rfl⟩ | ⟨n, f, -, rfl⟩ | ⟨g, -, rfl⟩ <;> rfl
  rises st hst := by
    rcases (mem_rising ha hb st).1 hst with ⟨g, -, rfl⟩ | ⟨n, f, -, rfl⟩ |
      ⟨n, f, g, -, -, -, -, rfl⟩ | ⟨n, r, q, -, -, rfl⟩ | ⟨n, r, -, rfl⟩ <;> rfl
  removed st hst hc hs := by
    rw [mem_falling ha hb]
    cases st with
    | removeRelationship n r => exact .inl ⟨n, r, hst, rfl⟩
    | removeField n f => exact .inr (.inl ⟨n, f, hst, rfl⟩)
    | dropEntity _ => cases hc
    | _ => cases hs
  added st hst hc hg := by
    rw [mem_rising ha hb]
    cases st with
    | addField n f => exact .inr (.inl ⟨n, f, hst, rfl⟩)
    | addRelationship n r => exact .inr (.inr (.inr (.inr ⟨n, r, hst, rfl⟩)))
    | createEntity _ => cases hc
    | _ => cases hg
  amended n old new hst hne := by
    refine List.mem_append_right _ ((mem_rising ha hb _).2 ?_)
    exact .inr (.inr (.inr (.inl ⟨n, old, new, hst, hne, rfl⟩)))
  dropped n hna hnb := by
    obtain ⟨g, hg, rfl⟩ := hna
    have hin := hdrops.symm.subset ((mem_created b a g).2 ⟨hg, hnb⟩)
    exact ⟨g.withoutLinks, (mem_falling ha hb _).2 (.inr (.inr ⟨g, hin, rfl⟩)), rfl⟩
  created g hg hna := by
    have hin := hcreates.symm.subset ((mem_created a b g).2 ⟨hg, hna⟩)
    exact (mem_rising ha hb _).2 (.inl ⟨g, hin, rfl⟩)
  drops := falling_drops ha hb hdprec
  creates := rising_creates ha hb hcprec

end SchemaLedger.Diff
