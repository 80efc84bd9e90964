import SchemaLedger.Proofs.Migration.Likeness
import SchemaLedger.Proofs.Migration.Proposal
import SchemaLedger.Proofs.Migration.Recorded

set_option autoImplicit false

/-!
# Undone steps

The inverse of a step puts back what the step carries. Most steps are matched to the schema by a name
only, so a step is undone by its inverse exactly if it carries what the schema holds under that name.
-/
namespace SchemaLedger

variable {s t u : Schema} {e e' : Entity} {step : Step}

namespace Step

/-- Whether what a step takes away is what the schema holds. A changed reference is compared as the step
is applied, so nothing is left to ask of it. -/
def Agrees (s : Schema) : Step → Prop
  | .dropEntity e => ∃ g ∈ s.entities, e.Like g
  | .removeField n f => ∃ g, s.Declares (.field n g) ∧ f.Like g
  | .alterField n old _ => ∃ g, s.Declares (.field n g) ∧ old.Like g
  | .removeRelationship n r => s.Declares (.relationship n r)
  | _ => True

/-- Whether no object in a default of the step holds a name twice. -/
def WellFormed (step : Step) : Prop :=
  ∀ n f, step.Adds (.field n f) ∨ step.invert.Adds (.field n f) → f.default.wellFormed = true

theorem entityName_invert (step : Step) : step.invert.entityName = step.entityName := by
  cases step <;> rfl

theorem Sound.invert (h : step.Sound) : step.invert.Sound := by
  cases step with
  | alterField n old new => exact ⟨h.2, h.1⟩
  | addField n f | removeField n f => exact h
  | createEntity e | dropEntity e => exact h
  | addRelationship n r | removeRelationship n r => exact h
  | alterReference n old new => exact h

/-! ## Entities -/

theorem removeFrom_addTo {f : Field} (h : (addTo e f).Sound) : removeFrom (addTo e f) f.name = e := by
  have hnodup := h.fieldNames
  rw [Entity.fieldNames, addTo, List.map_append, List.nodup_append] at hnodup
  have hkeep : e.fields.filter (·.name ≠ f.name) = e.fields := by
    refine List.filter_eq_self.2 fun x hx => decide_eq_true ?_
    exact hnodup.2.2 x.name (List.mem_map_of_mem hx) f.name List.mem_cons_self
  rw [removeFrom, addTo, List.filter_append, hkeep]
  simp

theorem unrelate_relate {r : Relationship} (h : (relate e r).Sound) :
    unrelate (relate e r) r.name = e := by
  have hnodup := h.relationshipNames
  rw [relate, List.map_append, List.nodup_append] at hnodup
  have hkeep : e.relationships.filter (·.name ≠ r.name) = e.relationships := by
    refine List.filter_eq_self.2 fun x hx => decide_eq_true ?_
    exact hnodup.2.2 x.name (List.mem_map_of_mem hx) r.name List.mem_cons_self
  rw [unrelate, relate, List.filter_append, hkeep]
  simp

theorem addTo_removeFrom_like (he : e.Sound) {f g : Field} (hg : g ∈ e.fields) (hfg : f.Like g) :
    (addTo (removeFrom e f.name) f).Like e := by
  refine ⟨rfl, ?_, .refl _⟩
  rw [addTo, removeFrom, hfg.name]
  exact .perm_left (List.perm_append_singleton _ _) (.perm_right
    (.cons hfg (.refl Field.Like.refl _)) (Keyed.perm_cons_filter he.fieldNames hg).symm)

theorem relate_unrelate_like (he : e.Sound) {r : Relationship} (hr : r ∈ e.relationships) :
    (relate (unrelate e r.name) r).Like e :=
  ⟨rfl, .refl Field.Like.refl _, (List.perm_append_singleton _ _).trans
    (Keyed.perm_cons_filter he.relationshipNames hr).symm⟩

theorem replaceIn_replaceIn_like (he : e.Sound) {old new g : Field} (hg : g ∈ e.fields)
    (hold : old.Like g) (hs : (replaceIn e old.name new).Sound) :
    (replaceIn (replaceIn e old.name new) new.name old).Like e := by
  have hnodup := hs.fieldNames
  refine ⟨rfl, ?_, .refl _⟩
  rw [Entity.fieldNames, replaceIn, hold.name] at hnodup
  rw [replaceIn, replaceIn, hold.name, Keyed.map_replace_back hg old hnodup]
  refine ⟨e.fields, ?_, .refl _⟩
  rw [List.forall₂_map_left_iff, List.forall₂_same]
  intro x hx
  split
  case isTrue hname => exact Entity.field_eq_of_name_eq he.fieldNames hg hx hname.symm ▸ hold
  case isFalse => exact .refl x

theorem replaceRelationship_back (he : e.Sound) {r q : Relationship} (hr : r ∈ e.relationships)
    (hs : (replaceRelationship e r.name q).Sound) :
    replaceRelationship (replaceRelationship e r.name q) q.name r = e := by
  have hkeep : e.relationships.map (fun x => if x.name = r.name then r else x) =
      e.relationships := by
    refine (List.map_congr_left fun x hx => ?_).trans (List.map_id _)
    split
    case isTrue hname => exact List.inj_on_of_nodup_map he.relationshipNames hr hx hname.symm
    case isFalse => rfl
  rw [replaceRelationship, replaceRelationship, Keyed.map_replace_back hr r hs.relationshipNames,
    hkeep]

/-- What a step about a member has made of an entity is turned back. -/
theorem change_invert (hs : s.Sound) (he : e ∈ s.entities) (hname : step.entityName = e.name)
    (hc : step.isChange = true) (hagrees : step.Agrees s) (h : step.change e = .ok e')
    (he' : e'.Sound) : ∃ e'', step.invert.change e' = .ok e'' ∧ e''.Like e := by
  have hsound := hs.entities e he
  cases step with
  | createEntity _ | dropEntity _ => cases hc
  | addField n f =>
    obtain rfl := Except.ok.inj h
    obtain ⟨g, hg⟩ := (getField_isOk (addTo e f) f.name).2 ⟨f, by simp [addTo], rfl⟩
    exact ⟨e, (Outcome.bind_eq_ok _ _ _).2 ⟨g, hg, by rw [removeFrom_addTo he']⟩, .refl e⟩
  | removeField n f =>
    obtain rfl := hname
    obtain ⟨g, hg, hfg⟩ := hagrees
    obtain ⟨-, -, h⟩ := (Outcome.bind_eq_ok _ _ _).1 h
    obtain rfl := Except.ok.inj h
    rw [Schema.declares_field hs.distinct he] at hg
    exact ⟨_, rfl, addTo_removeFrom_like hsound hg hfg⟩
  | alterField n old new =>
    obtain rfl := hname
    obtain ⟨g, hg, hold⟩ := hagrees
    obtain ⟨-, -, h⟩ := (Outcome.bind_eq_ok _ _ _).1 h
    obtain rfl := Except.ok.inj h
    rw [Schema.declares_field hs.distinct he] at hg
    have hnew : new ∈ (replaceIn e old.name new).fields :=
      List.mem_map.2 ⟨g, hg, if_pos hold.name.symm⟩
    obtain ⟨k, hk⟩ := (getField_isOk _ new.name).2 ⟨new, hnew, rfl⟩
    exact ⟨_, (Outcome.bind_eq_ok _ _ _).2 ⟨k, hk, rfl⟩,
      replaceIn_replaceIn_like hsound hg hold he'⟩
  | addRelationship n r =>
    obtain rfl := Except.ok.inj h
    have hr : (relate e r).relationship? r.name = some r :=
      (Keyed.find?_eq_some he'.relationshipNames r.name r).2 ⟨by simp [relate], rfl⟩
    refine ⟨e, ?_, .refl e⟩
    rw [invert, change, hr, unrelate_relate he']
    rfl
  | removeRelationship n r =>
    obtain rfl := hname
    rw [change] at h
    split at h
    · cases h
    · obtain rfl := Except.ok.inj h
      have hr := (Schema.declares_relationship hs.distinct he r).1 hagrees
      exact ⟨_, rfl, relate_unrelate_like hsound hr⟩
  | alterReference n old new =>
    rw [change] at h
    split at h
    case isTrue hfound =>
      obtain rfl := Except.ok.inj h
      have hold : Relationship.single old ∈ e.relationships := List.mem_of_find?_eq_some hfound
      have hback := replaceRelationship_back hsound hold he'
      have hnew : (replaceRelationship e old.name (.single new)).relationship? new.name =
          some (.single new) :=
        (Keyed.find?_eq_some he'.relationshipNames new.name _).2
          ⟨List.mem_map.2 ⟨_, hold, if_pos rfl⟩, rfl⟩
      refine ⟨e, ?_, .refl e⟩
      rw [invert, change, if_pos hnew]
      exact congrArg Except.ok hback
    case isFalse => cases h

/-! ## Schemas -/

theorem put_put_like (hs : s.names.Nodup) (he : e ∈ s.entities) (hname : e'.name = e.name)
    {e'' : Entity} (hlike : e''.Like e) : ((s.put e').put e'').Like s := by
  refine .perm_left (Schema.put_perm (Schema.nodup_names_put hs e') e'')
    (.perm_right (.cons hlike ?_) (Schema.perm_erase hs he).symm)
  rw [hlike.name, ← hname, Schema.erase_put]
  exact .refl Entity.Like.refl _

/-- A step that agrees with the schema is undone by its inverse. -/
theorem exists_undone (hs : s.Sound) (hagrees : step.Agrees s) (h : apply s step = .ok t) :
    ∃ u, apply t step.invert = .ok u ∧ u.Like s := by
  have hcheck := (Schema.check_eq_ok_iff hs.distinct hs.entities).2 hs
  by_cases hc : step.isChange = true
  · obtain ⟨e, e', he, hchange, he', rfl, -⟩ := (apply_change s t hc).1 h
    obtain ⟨hin, hname⟩ := (Schema.entity?_eq_some hs.distinct _ e).1 he
    obtain ⟨e'', hback, hlike⟩ := change_invert hs hin hname.symm hc hagrees hchange he'
    have hname' := (declares_change hc hname.symm hchange (.entity e.name)).1
    have hu := put_put_like hs.distinct hin hname' hlike
    refine ⟨_, (apply_change _ _ (Diff.isChange_invert step ▸ hc)).2 ⟨e', e'', ?_, hback,
      hlike.symm.sound (hs.entities e hin), rfl, hu.check_iff.2 hcheck⟩, hu⟩
    refine (Schema.entity?_eq_some (Schema.nodup_names_put hs.distinct e') _ e').2 ⟨?_, ?_⟩
    · exact (Schema.mem_put hs.distinct e' e').2 (.inl rfl)
    · rw [entityName_invert, hname', hname]
  · cases step with
    | createEntity e =>
      obtain ⟨hnew, rfl, -⟩ := (apply_createEntity s t e).1 h
      have hback : (s.put e).erase e.name = s := by
        rw [Schema.erase_put, Schema.erase_of_absent hnew]
      refine ⟨s, (apply_dropEntity _ _ e).2 ⟨?_, hback.symm, hcheck⟩, .refl s⟩
      exact Schema.declares_of_mem ((Schema.mem_put hs.distinct e e).2 (.inl rfl))
    | dropEntity e =>
      obtain ⟨g, hg, hlike⟩ := hagrees
      obtain ⟨-, rfl, -⟩ := (apply_dropEntity s t e).1 h
      have hgone : ¬ (s.erase e.name).Declares (.entity e.name) := fun hd =>
        ((Schema.declares_erase s e.name _).1 hd).2 rfl
      have hu : ((s.erase e.name).put e).Like s := by
        refine .perm_left (Schema.put_perm (Schema.nodup_names_erase hs.distinct _) e)
          (.perm_right (.cons hlike ?_) (Schema.perm_erase hs.distinct hg).symm)
        rw [Schema.erase_of_absent hgone, hlike.name]
        exact .refl Entity.Like.refl _
      exact ⟨_, (apply_createEntity _ _ e).2 ⟨hgone, rfl, hu.check_iff.2 hcheck⟩, hu⟩
    | _ => exact absurd rfl hc

/-- What a step takes away is back after its inverse, so the schema has held it if it is as before. -/
theorem agrees_of_undone (hs : s.names.Nodup) (h : apply s step = .ok t)
    (hback : apply t step.invert = .ok u) (hlike : u.Like s) : step.Agrees s := by
  have ht := nodup_names_apply hs h
  -- What the inverse puts back is declared at its end, and that end is like the start.
  have hadded := fun d hd => (declares_apply ht hback d).2 (.inl hd)
  cases step with
  | dropEntity e =>
    obtain ⟨-, rfl, -⟩ := (apply_createEntity t u e).1 hback
    exact Paired.exists_right hlike ((Schema.mem_put ht e e).2 (.inl rfl))
  | removeField n f => exact hlike.exists_field (hadded _ rfl)
  | alterField n old new => exact hlike.exists_field (hadded _ rfl)
  | removeRelationship n r => exact hlike.relationship (hadded _ rfl)
  | _ => trivial

theorem undone_like_iff (hs : s.Sound) (h : apply s step = .ok t) :
    (∃ u, apply t step.invert = .ok u ∧ u.Like s) ↔ step.Agrees s := by
  constructor
  · rintro ⟨u, hback, hlike⟩
    exact agrees_of_undone hs.distinct h hback hlike
  · exact fun hagrees => exists_undone hs hagrees h

/-- The inverse of an accepted step restores the schema exactly if the step agrees with it. -/
theorem undone_iff (hs : s.Valid) (hstep : step.Sound) (h : apply s step = .ok t) :
    ((∃ u, apply t step.invert = .ok u ∧ u.Like s) ↔ step.Agrees s) ∧
      (s.PlainDefaults → step.WellFormed →
        ((∃ u, apply t step.invert = .ok u ∧ u.equivalent s = true) ↔ step.Agrees s)) := by
  rw [Schema.valid_iff_sound] at hs
  refine ⟨undone_like_iff hs h, fun hd hw => (Iff.trans ?_ (undone_like_iff hs h))⟩
  have ht := sound_apply_of_sound hs hstep h
  refine exists_congr fun u => and_congr_right fun hback => ⟨fun heq => ?_, fun hlike => ?_⟩
  · have hu := sound_apply_of_sound ht hstep.invert hback
    refine .of_equivalent hu hs ?_ ?_ heq
    · intro e he f hf
      have hdeclared := Schema.declares_field_of_mem he hf
      rcases (declares_apply ht.distinct hback _).1 hdeclared with hadd | ⟨hdeclared, -⟩
      · exact hw _ f (.inr hadd)
      rcases (declares_apply hs.distinct h _).1 hdeclared with hadd | ⟨hdeclared, -⟩
      · exact hw _ f (.inl hadd)
      · exact hd.wellFormed hdeclared
    · exact fun e he f hf => (hd e he f hf).2
  · refine hlike.equivalent (hlike.symm.sound hs) fun {n f} hf => ?_
    obtain ⟨g, hg, hfg⟩ := hlike.exists_field hf
    rw [hfg.same_congr hfg]
    exact hd.same_self hg

def tags : Schema where
  entities := [{ name := "Tag", fields := [Diff.account, { name := "label" }] }]

/-- Two removals of one name are both accepted; only the one that carries the field as it is stored is
undone. -/
theorem undone_iff_tags :
    (∃ t u, apply tags (.removeField "Tag" { name := "label" }) = .ok t ∧
        apply t (.addField "Tag" { name := "label" }) = .ok u ∧ u.equivalent tags = true) ∧
      ∃ t, apply tags (.removeField "Tag" { name := "label", type := .int }) = .ok t ∧
        ∀ u, apply t (.addField "Tag" { name := "label", type := .int }) = .ok u →
          u.equivalent tags = false := by
  have hplain : tags.PlainDefaults := by decide +kernel
  have hiff := fun (f : Field) (hf : Sound (.removeField "Tag" f)) (hw : f.default.wellFormed = true)
      {t : Schema} (h : apply tags (.removeField "Tag" f) = .ok t) =>
    (undone_iff (s := tags) (by decide +kernel) hf h).2 hplain
      (by rintro n g (hadd | hadd) <;> cases hadd; exact hw)
  constructor
  · obtain ⟨t, ht⟩ := Outcome.exists_ok (x := apply tags (.removeField "Tag" { name := "label" }))
      (by decide +kernel)
    obtain ⟨u, hu, heq⟩ := (hiff { name := "label" } rfl rfl ht).2
      ⟨_, ⟨_, List.mem_cons_self, rfl, by simp⟩, .refl _⟩
    exact ⟨t, u, ht, hu, heq⟩
  · obtain ⟨t, ht⟩ := Outcome.exists_ok
      (x := apply tags (.removeField "Tag" { name := "label", type := .int })) (by decide +kernel)
    refine ⟨t, ht, fun u hu => Bool.eq_false_iff.2 fun heq => ?_⟩
    obtain ⟨g, ⟨e, he, -, hg⟩, hlike⟩ :=
      (hiff { name := "label", type := .int } rfl rfl ht).1 ⟨u, hu, heq⟩
    obtain rfl := List.mem_singleton.1 he
    have hname := hlike.name
    have htype : LogicalType.int = g.type := congrArg Field.type hlike.bare
    simp only [List.mem_cons, List.not_mem_nil, or_false] at hg
    rcases hg with rfl | rfl
    · exact absurd hname (by decide)
    · exact absurd htype (by decide)

end Step

end SchemaLedger
