import SchemaLedger.Proofs.Migration.KeyChange
import SchemaLedger.Proofs.Migration.Likeness

set_option autoImplicit false

/-!
# Rearranged schemas

Neither applying a step nor finding a difference depends on the order in which a schema is declared.
A step has like results on alike schemas, or none on both; two differences consist of like steps, and if
one of them does not exist, the other fails for the same kind of reason.
-/
namespace SchemaLedger

open Outcome (Both)

variable {a a' b b' s t : Schema} {e e' : Entity} {step step' : Step}

/-- Steps of one kind that are about like entities or fields, or the same relationships. -/
inductive Step.Like : Step → Step → Prop
  | createEntity {e e' : Entity} : e.Like e' → Like (.createEntity e) (.createEntity e')
  | dropEntity {e e' : Entity} : e.Like e' → Like (.dropEntity e) (.dropEntity e')
  | addField {f f' : Field} (n : String) : f.Like f' → Like (.addField n f) (.addField n f')
  | removeField {f f' : Field} (n : String) : f.Like f' → Like (.removeField n f) (.removeField n f')
  | alterField {f f' g g' : Field} (n : String) :
    f.Like f' → g.Like g' → Like (.alterField n f g) (.alterField n f' g')
  | addRelationship (n : String) (r : Relationship) :
    Like (.addRelationship n r) (.addRelationship n r)
  | removeRelationship (n : String) (r : Relationship) :
    Like (.removeRelationship n r) (.removeRelationship n r)
  | alterReference (n : String) (r q : Reference) :
    Like (.alterReference n r q) (.alterReference n r q)

namespace Step

theorem Like.refl (step : Step) : step.Like step := by
  cases step with
  | createEntity e => exact .createEntity (.refl e)
  | dropEntity e => exact .dropEntity (.refl e)
  | addField n f => exact .addField n (.refl f)
  | removeField n f => exact .removeField n (.refl f)
  | alterField n f g => exact .alterField n (.refl f) (.refl g)
  | addRelationship n r => exact .addRelationship n r
  | removeRelationship n r => exact .removeRelationship n r
  | alterReference n r q => exact .alterReference n r q

theorem Like.entityName (h : step.Like step') : step.entityName = step'.entityName := by
  cases h with
  | createEntity h => exact h.name
  | dropEntity h => exact h.name
  | _ => rfl

theorem Like.isChange (h : step.Like step') : step.isChange = step'.isChange := by
  cases h <;> rfl

/-! ## Applying a step -/

theorem getField_like (h : e.Like e') (hd : e.fieldNames.Nodup) (n : String) :
    Both Field.Like (e.getField n) (e'.getField n) := by
  have hfield := h.field? hd n
  rw [Entity.getField, Entity.getField]
  revert hfield
  generalize e.field? n = found
  generalize e'.field? n = found'
  rintro (hfg | -)
  · exact hfg
  · trivial

theorem change_like (h : e.Like e') (he : e.Sound) (hstep : step.Like step') :
    Both Entity.Like (step.change e) (step'.change e') := by
  cases hstep with
  | createEntity _ | dropEntity _ => exact h
  | addField n hf => exact ⟨h.name, h.fields.append (.cons hf .nil), h.relationships⟩
  | removeField n hf =>
    rw [change, change, hf.name]
    refine (getField_like h he.fieldNames _).bind fun _ _ _ _ _ => ?_
    exact ⟨h.name, h.fields.filter fun f g hfg => by rw [hfg.name], h.relationships⟩
  | @alterField old old' new new' n hold hnew =>
    rw [change, change, hold.name]
    refine (getField_like h he.fieldNames _).bind fun _ _ _ _ _ => ?_
    refine ⟨h.name, h.fields.map fun f g hfg => ?_, h.relationships⟩
    rw [hfg.name]
    split
    · exact hnew
    · exact hfg
  | addRelationship n r => exact ⟨h.name, h.fields, h.relationships.append_right [r]⟩
  | removeRelationship n r =>
    rw [change, change, h.relationship? he.relationshipNames]
    split
    · trivial
    · exact ⟨h.name, h.fields, h.relationships.filter _⟩
  | alterReference n r q =>
    rw [change, change, h.relationship? he.relationshipNames]
    split
    · exact ⟨h.name, h.fields, h.relationships.map _⟩
    · trivial

theorem checked_like (h : s.Like t) : Both Schema.Like s.checked t.checked :=
  .of_iff (Schema.checked_eq_ok s) (Schema.checked_eq_ok t) h.check_iff fun _ => h

/-- Like steps have like results on alike schemas, or none. -/
theorem apply_like (hs : s.Sound) (h : s.Like t) (hstep : step.Like step') :
    Both Schema.Like (step.apply s) (step'.apply t) := by
  by_cases hc : step.isChange = true
  · rw [apply_of_isChange s hc, apply_of_isChange t (hstep.isChange ▸ hc), ← hstep.entityName]
    refine (h.entity hs.distinct _).bind fun e e' he _ hee => ?_
    have hin := ((Schema.entity_eq_ok_iff hs.distinct _ e).1 he).1
    refine (change_like hee (hs.entities e hin) hstep).bind fun c c' _ _ hcc => ?_
    refine (Both.of_iff (revalidate_eq_ok c) (revalidate_eq_ok c') hcc.sound_iff
      fun _ => hcc).bind fun v v' _ _ hvv => ?_
    exact checked_like (h.put hs.distinct hvv)
  · cases hstep with
    | @createEntity e e' hee =>
      rw [apply, apply, ← hee.name, h.contains]
      split
      · trivial
      · exact checked_like (h.put hs.distinct hee)
    | @dropEntity e e' hee =>
      rw [apply, apply, ← hee.name]
      exact (h.entity hs.distinct _).bind fun _ _ _ _ _ => checked_like (h.erase _)
    | _ => exact absurd rfl hc

end Step

/-! ## Differences -/

namespace Diff

theorem refersTo_like {es es' : List Entity} (h : Paired Entity.Like es es') {v u : String}
    (hv : Dependency.RefersTo es v u) : Dependency.RefersTo es' v u := by
  obtain ⟨⟨e, he, rfl, r, hr, hu⟩, hne, g, hg, rfl⟩ := hv
  obtain ⟨e', he', hee⟩ := h.exists_right he
  obtain ⟨g', hg', hgg⟩ := h.exists_right hg
  exact ⟨⟨e', he', hee.name.symm, r, hee.references.subset hr, hu⟩, hne, g', hg', hgg.name.symm⟩

theorem acyclic_like {es es' : List Entity} (h : Paired Entity.Like es es')
    (ha : Dependency.Acyclic es) : Dependency.Acyclic es' := by
  have hback := h.symm (T := Entity.Like) fun _ _ => Entity.Like.symm
  exact fun n hn => ha n (Relation.TransGen.mono (fun _ _ => refersTo_like hback) _ _ hn)

theorem orderOf_eq_ok (es ordered : List Entity) (s : Schema) :
    orderOf es s = .ok ordered ↔ Dependency.order es s.names = .ok ordered :=
  Outcome.mapError_eq_ok _ _ _

/-- Whether there is an order does not depend on the order given, only the order found does. -/
theorem exists_orderOf_like {es es' ordered : List Entity} (hd : (es.map (·.name)).Nodup)
    (hd' : (es'.map (·.name)).Nodup) (h : Paired Entity.Like es es')
    (ho : orderOf es s = .ok ordered) :
    ∃ ordered', orderOf es' t = .ok ordered' ∧ Paired Entity.Like ordered ordered' := by
  rw [orderOf_eq_ok] at ho
  have hacyclic := (Dependency.exists_order_iff hd s.names).1 ⟨ordered, ho⟩
  obtain ⟨ordered', ho'⟩ := (Dependency.exists_order_iff hd' t.names).2 (acyclic_like h hacyclic)
  refine ⟨ordered', (orderOf_eq_ok _ _ _).2 ho', ?_⟩
  exact .perm_left (Dependency.order_targets_first hd ho).1
    (h.perm_right (Dependency.order_targets_first hd' ho').1.symm)

theorem alterable_like {f g f' g' : Field} (hf : f.Like f') (hg : g.Like g') (h : Alterable f g) :
    Alterable f' g' := by
  have hidentity : keepsIdentity f g = keepsIdentity f' g' := by
    change keepsIdentity f.bare g.bare = keepsIdentity f'.bare g'.bare
    rw [hf.bare, hg.bare]
  have hconvert : f.type.canConvert g.type = f'.type.canConvert g'.type := by
    change f.bare.type.canConvert g.bare.type = f'.bare.type.canConvert g'.bare.type
    rw [hf.bare, hg.bare]
  rwa [Alterable, hf.same_congr hg, hidentity, hconvert] at h

theorem migratable_like (ha : a.Like a') (hb : b.Like b') (h : Migratable a b) :
    Migratable a' b' := by
  intro n f' g' hf' hg' hname
  obtain ⟨f, hf, hff⟩ := ha.symm.exists_field hf'
  obtain ⟨g, hg, hgg⟩ := hb.symm.exists_field hg'
  exact alterable_like hff.symm hgg.symm (h n f g hf hg (hff.name.symm.trans (hname.trans hgg.name)))

theorem created_like (ha : a.Like a') (hb : b.Like b') :
    Paired Entity.Like (created a b) (created a' b') :=
  Paired.filter hb fun e e' hee => by rw [hee.name, ha.contains]

theorem kept_like (hd : a.names.Nodup) (ha : a.Like a') (hb : b.Like b') :
    Paired (fun p p' => p.1.Like p'.1 ∧ p.2.Like p'.2) (kept a b) (kept a' b') := by
  refine Paired.filterMap hb fun e e' hee => ?_
  have hfound := ha.entity? hd e.name
  rw [← hee.name]
  revert hfound
  generalize a.entity? e.name = found
  generalize a'.entity? e.name = found'
  rintro (hgg | -)
  · exact .some ⟨hgg, hee⟩
  · exact .none

/-! ### The phases of two entities -/

section Phase

variable {old old' new new' : Entity} (ho : old.Like old') (hn : new.Like new')

include ho hn

theorem replaced_like (hd : (new.relationships.map (·.name)).Nodup) :
    (replaced old new).Perm (replaced old' new') := by
  have hkept : (fun r : Relationship => isReplaced r (new.relationship? r.name)) =
      fun r => isReplaced r (new'.relationship? r.name) :=
    funext fun r => by rw [hn.relationship? hd]
  rw [replaced, replaced, hkept]
  exact ho.relationships.filter _

theorem replacedSteps_like (hd : (new.relationships.map (·.name)).Nodup)
    (make : String → Relationship → Step) (n : String) (p : Relationship → Bool) :
    Paired Step.Like (((replaced old new).filter p).map (make n))
      (((replaced old' new').filter p).map (make n)) :=
  (Paired.of_perm (((replaced_like ho hn hd).filter p).map (make n))).mono
    fun _ _ _ _ heq => heq ▸ .refl _

theorem missing_like {make : Field → Step} {make' : Field → Step} (hd : new.fieldNames.Nodup)
    (hmake : ∀ f g, f.Like g → (make f).Like (make' g)) :
    Paired Step.Like ((old.fields.filter fun f => (new.field? f.name).isNone).map make)
      ((old'.fields.filter fun f => (new'.field? f.name).isNone).map make') := by
  refine (ho.fields.filter fun f f' hff => ?_).map hmake
  have hfound := hn.field? hd f.name
  rw [← hff.name]
  revert hfound
  generalize new.field? f.name = found
  generalize new'.field? f.name = found'
  rintro (- | -) <;> rfl

theorem alterations_like (hd : old.fieldNames.Nodup) :
    Paired Step.Like (alterations old new) (alterations old' new') := by
  refine hn.fields.filterMap fun f f' hff => ?_
  have hfound := ho.field? hd f.name
  rw [← hff.name, ← ho.name]
  revert hfound
  generalize old.field? f.name = found
  generalize old'.field? f.name = found'
  rintro (hbb | -)
  · simp only [Option.bind_some]
    rw [hbb.same_congr hff]
    split
    · exact .none
    · exact .some (.alterField _ hbb hff)
  · exact .none

theorem alteredReferences_like (hd : (new.relationships.map (·.name)).Nodup) :
    (old.relationships.filterMap (alteredReference old.name new)).Perm
      (old'.relationships.filterMap (alteredReference old'.name new')) := by
  have hsame : alteredReference old.name new = alteredReference old'.name new' := by
    funext r
    simp only [alteredReference, hn.relationship? hd, ho.name]
  rw [hsame]
  exact ho.relationships.filterMap _

end Phase

/-! ### All steps -/

theorem together_like (ha : a.Sound) (hb : b.Sound) (haa : a.Like a') (hbb : b.Like b')
    {phase : Phases → List Step}
    (hphase : ∀ old new old' new' : Entity, old.Sound → new.Sound → old.Like old' → new.Like new' →
      Paired Step.Like (phase (phasesOf old new)) (phase (phasesOf old' new'))) :
    Paired Step.Like (together a b phase) (together a' b' phase) := by
  have hsound : ∀ p ∈ kept a b, p.1.Sound ∧ p.2.Sound := fun p hp =>
    have hin := (mem_kept ha.distinct p).1 hp
    ⟨ha.entities _ hin.1, hb.entities _ hin.2.1⟩
  refine ((kept_like ha.distinct haa hbb).mono (T := fun p p' => (p.1.Sound ∧ p.2.Sound) ∧
    p.1.Like p'.1 ∧ p.2.Like p'.2) fun p hp _ _ hpp => ⟨hsound p hp, hpp⟩).flatMap ?_
  exact fun p p' hpp => hphase _ _ _ _ hpp.1.1 hpp.1.2 hpp.2.1 hpp.2.2

theorem linkSteps_like {es es' : List Entity} (h : Paired Entity.Like es es')
    (make : String → Relationship → Step) :
    Paired Step.Like (es.flatMap (linkSteps make)) (es'.flatMap (linkSteps make)) := by
  refine h.flatMap fun e e' hee => ?_
  rw [linkSteps, linkSteps, hee.name]
  exact (Paired.of_perm (hee.links.map _)).mono fun _ _ _ _ heq => heq ▸ .refl _

theorem falling_like (ha : a.Sound) (hb : b.Sound) (haa : a.Like a') (hbb : b.Like b')
    {drops drops' : List Entity} (h : Paired Entity.Like drops drops') :
    Paired Step.Like (falling a b drops) (falling a' b' drops') := by
  refine ((((linkSteps_like (created_like hbb haa) _).append ?_).append ?_).append ?_).append ?_
  · refine together_like ha hb haa hbb fun old new old' new' _ hnew hoo hnn => ?_
    change Paired _ (List.map _ _) (List.map _ _)
    rw [← hoo.name]
    exact replacedSteps_like hoo hnn hnew.relationshipNames _ _ _
  · refine together_like ha hb haa hbb fun old new old' new' _ hnew hoo hnn => ?_
    change Paired _ (List.map _ _) (List.map _ _)
    rw [← hoo.name]
    exact replacedSteps_like hoo hnn hnew.relationshipNames _ _ _
  · refine together_like ha hb haa hbb fun old new old' new' _ hnew hoo hnn => ?_
    exact missing_like hoo hnn hnew.fieldNames fun f g hfg => hoo.name ▸ .removeField _ hfg
  · have hback := h.perm_left (List.reverse_perm drops)
    exact (hback.perm_right (List.reverse_perm drops').symm).map fun _ _ hee =>
      .dropEntity hee.withoutLinks

theorem rising_like (ha : a.Sound) (hb : b.Sound) (haa : a.Like a') (hbb : b.Like b')
    {creates creates' : List Entity} (h : Paired Entity.Like creates creates') :
    Paired Step.Like (rising a b creates) (rising a' b' creates') := by
  refine ((((((h.map fun _ _ hee => .createEntity hee.withoutLinks).append ?_).append ?_).append
    ?_).append ?_).append ?_).append (linkSteps_like (created_like haa hbb) _)
  · refine together_like ha hb haa hbb fun old new old' new' hold _ hoo hnn => ?_
    exact missing_like hnn hoo hold.fieldNames fun f g hfg => hoo.name ▸ .addField _ hfg
  · exact together_like ha hb haa hbb fun old new old' new' hold _ hoo hnn =>
      alterations_like hoo hnn hold.fieldNames
  · refine together_like ha hb haa hbb fun old new old' new' _ hnew hoo hnn => ?_
    exact (Paired.of_perm (alteredReferences_like hoo hnn hnew.relationshipNames)).mono
      fun _ _ _ _ heq => heq ▸ .refl _
  · refine together_like ha hb haa hbb fun old new old' new' hold _ hoo hnn => ?_
    change Paired _ (List.map _ _) (List.map _ _)
    rw [← hoo.name]
    exact replacedSteps_like hnn hoo hold.relationshipNames _ _ _
  · refine together_like ha hb haa hbb fun old new old' new' hold _ hoo hnn => ?_
    change Paired _ (List.map _ _) (List.map _ _)
    rw [← hoo.name]
    exact replacedSteps_like hnn hoo hold.relationshipNames _ _ _

theorem exists_diff_like (ha : a.Sound) (hb : b.Sound) (haa : a.Like a') (hbb : b.Like b')
    {steps : List Step} (h : diff a b = .ok steps) :
    ∃ steps', diff a' b' = .ok steps' ∧ Paired Step.Like steps steps' := by
  obtain ⟨hc, drops, creates, hd, hcr, rfl⟩ := (diff_eq_ok a b _).1 h
  obtain ⟨drops', hd', hdd⟩ := exists_orderOf_like (t := a') (nodup_created ha b)
    (nodup_created (haa.sound ha) b') (created_like hbb haa) hd
  obtain ⟨creates', hcr', hcc⟩ := exists_orderOf_like (t := b') (nodup_created hb a)
    (nodup_created (hbb.sound hb) a') (created_like haa hbb) hcr
  have hm := migratable_like haa hbb ((migratable_iff ha).1 hc)
  refine ⟨_, (diff_eq_ok a' b' _).2 ⟨(migratable_iff (haa.sound ha)).2 hm, drops', creates', hd',
    hcr', rfl⟩, ?_⟩
  exact (falling_like ha hb haa hbb hdd).append (rising_like ha hb haa hbb hcc)

theorem diff_like (ha : a.Sound) (hb : b.Sound) (haa : a.Like a') (hbb : b.Like b') :
    Both (Paired Step.Like) (diff a b) (diff a' b') := by
  cases h : diff a b with
  | ok steps =>
    obtain ⟨steps', h', hss⟩ := exists_diff_like ha hb haa hbb h
    rw [h']
    exact hss
  | error e =>
    cases h' : diff a' b' with
    | ok steps' =>
      obtain ⟨steps, hback, -⟩ :=
        exists_diff_like (haa.sound ha) (hbb.sound hb) haa.symm hbb.symm h'
      rw [h] at hback
      cases hback
    | error e' => trivial

/-- What keeps two schemas apart is a field, or else a cycle of references. -/
theorem kind_of_diff (ha : a.Sound) {fault : DiffFault} (h : diff a b = .error fault) :
    (Migratable a b → fault.kind = .cyclicDependency) ∧
      (¬ Migratable a b → fault.kind = .typeChangeUnsupported) := by
  constructor
  · intro hm
    have hphases := (Outcome.mapM_eq_ok (fun p q => ofEntity_eq_ok p.1 p.2 q) (kept a b) _).2
      ⟨(migratable_iff ha).2 hm, rfl⟩
    have hcycle : ∀ {es : List Entity} {s : Schema}, orderOf es s = .error fault →
        fault.kind = .cyclicDependency := by
      intro es s hes
      rw [orderOf] at hes
      cases ho : Dependency.order es s.names with
      | ok _ =>
        rw [ho] at hes
        cases hes
      | error path =>
        rw [ho] at hes
        cases hes
        rfl
    simp only [diff, Outcome.bind_eq_error] at h
    rcases h with h | ⟨_, -, h | ⟨_, -, h | ⟨_, -, h⟩⟩⟩
    · cases hphases.symm.trans h
    · exact hcycle h
    · exact hcycle h
    · cases h
  · intro hm
    obtain ⟨fault', h', entity, field, old, new, rfl⟩ := diff_of_not_migratable ha hm
    obtain rfl := Except.error.inj (h'.symm.trans h)
    rfl

theorem kind_like (ha : a.Sound) (haa : a.Like a') (hbb : b.Like b') {fault fault' : DiffFault}
    (h : diff a b = .error fault) (h' : diff a' b' = .error fault') : fault.kind = fault'.kind := by
  by_cases hm : Migratable a b
  · rw [(kind_of_diff ha h).1 hm,
      (kind_of_diff (haa.sound ha) h').1 (migratable_like haa hbb hm)]
  · rw [(kind_of_diff ha h).2 hm, (kind_of_diff (haa.sound ha) h').2
      fun hm' => hm (migratable_like haa.symm hbb.symm hm')]

end Diff

/-! ## Equivalent schemas -/

/-- Equivalent schemas take the same steps, to equivalent schemas if no NaN is among the defaults, and
their differences consist of like steps. Where there is none, the other fails for the same reason. -/
theorem Schema.migrates_alike (ha : a.Valid) (ha' : a'.Valid) (hb : b.Valid) (hb' : b'.Valid)
    (hwa : a.WellFormed) (hwa' : a'.WellFormed) (hwb : b.WellFormed) (hwb' : b'.WellFormed)
    (haa : a.equivalent a' = true) (hbb : b.equivalent b' = true) :
    (∀ step : Step, Both (fun t t' => t.Like t' ∧
        (step.Sound → t.PlainDefaults → t.equivalent t' = true)) (step.apply a) (step.apply a')) ∧
      Both (Paired Step.Like) (diff a b) (diff a' b') ∧
        ∀ fault fault', diff a b = .error fault → diff a' b' = .error fault' →
          fault.kind = fault'.kind := by
  rw [Schema.valid_iff_sound] at ha ha' hb hb'
  have hlike := Schema.Like.of_equivalent ha ha' hwa hwa' haa
  have hlike' := Schema.Like.of_equivalent hb hb' hwb hwb' hbb
  refine ⟨fun step => ?_, Diff.diff_like ha hb hlike hlike', fun _ _ =>
    Diff.kind_like ha hlike hlike'⟩
  refine (Step.apply_like ha hlike (.refl step)).imp fun t t' h htt => ⟨htt, fun hstep hd => ?_⟩
  exact htt.equivalent (Step.sound_apply_of_sound ha hstep h) hd.same_self

theorem Schema.migrates_alike_shelf :
    (∃ t t', (Step.addField "Book" { name := "isbn" }).apply Diff.shelf = .ok t ∧
        (Step.addField "Book" { name := "isbn" }).apply rearranged = .ok t' ∧
          t.equivalent t' = true) ∧
      ∃ steps steps', diff Diff.shelf Diff.library = .ok steps ∧
        diff rearranged ⟨3, Diff.library.entities.reverse⟩ = .ok steps' ∧
          Paired Step.Like steps steps' := by
  have ha : Diff.shelf.Valid := by decide +kernel
  have ha' : rearranged.Valid := by decide +kernel
  have hb : Diff.library.Valid := by decide +kernel
  have hb' : Schema.Valid ⟨3, Diff.library.entities.reverse⟩ := by decide +kernel
  obtain ⟨happly, hdiff, -⟩ := Schema.migrates_alike ha ha' hb hb' (by decide +kernel)
    (by decide +kernel) (by decide +kernel) (by decide +kernel) (by decide +kernel)
    (by decide +kernel)
  constructor
  · obtain ⟨t, h⟩ := Outcome.exists_ok
      (x := (Step.addField "Book" { name := "isbn" }).apply Diff.shelf) (by decide +kernel)
    obtain ⟨t', h', -, heq⟩ := (happly _).exists_ok h
    have hplain : (match (Step.addField "Book" { name := "isbn" }).apply Diff.shelf with
        | .ok t => decide t.PlainDefaults
        | .error _ => false) = true := by decide +kernel
    rw [h] at hplain
    exact ⟨t, t', h, h', heq rfl (of_decide_eq_true hplain)⟩
  · obtain ⟨steps, h⟩ := Outcome.exists_ok (x := diff Diff.shelf Diff.library) (by decide +kernel)
    obtain ⟨steps', h', hss⟩ := hdiff.exists_ok h
    exact ⟨steps, steps', h, h', hss⟩

end SchemaLedger
