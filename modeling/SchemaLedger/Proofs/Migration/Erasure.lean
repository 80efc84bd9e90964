import SchemaLedger.Proofs.Migration.Recorded
import SchemaLedger.Proofs.Migration.Effect

set_option autoImplicit false

/-!
# Replay without defaults

Whether a step can be applied does not depend on defaults, as long as each of them fits its field. So
steps that differ in defaults only lead to schemas that differ in defaults only.
-/
namespace SchemaLedger

def Field.bare (f : Field) : Field := { f with default := .null }

def Entity.bare (e : Entity) : Entity := { e with fields := e.fields.map Field.bare }

def Schema.bare (s : Schema) : Schema := { s with entities := s.entities.map Entity.bare }

def Step.bare : Step → Step
  | .createEntity e => .createEntity e.bare
  | .dropEntity e => .dropEntity e.bare
  | .addField n f => .addField n f.bare
  | .removeField n f => .removeField n f.bare
  | .alterField n f g => .alterField n f.bare g.bare
  | .addRelationship n r => .addRelationship n r
  | .removeRelationship n r => .removeRelationship n r
  | .alterReference n r q => .alterReference n r q

/-! ## Entities -/

namespace Entity

variable (e : Entity)

@[simp]
theorem bare_name : e.bare.name = e.name := rfl

@[simp]
theorem bare_relationships : e.bare.relationships = e.relationships := rfl

theorem bare_fieldNames : e.bare.fieldNames = e.fieldNames := by
  simp [fieldNames, bare, Field.bare, Function.comp_def]

theorem bare_memberNames : e.bare.memberNames = e.memberNames := by
  rw [memberNames, bare_fieldNames]
  rfl

theorem bare_columnNames : e.bare.columnNames = e.columnNames := by
  rw [columnNames, bare_fieldNames]
  rfl

theorem bare_keys : e.bare.keys = e.keys.map Field.bare := by
  simp [keys, bare, Field.bare, List.filter_map, Function.comp_def]

theorem bare_checkNames : e.bare.checkNames = e.checkNames := by
  rw [checkNames, bare_memberNames, bare_columnNames]
  rfl

theorem bare_checkKey : e.bare.checkKey = e.checkKey := by
  rw [checkKey, checkKey, bare_keys]
  match e.keys with
  | [] => rfl
  | [_] => rfl
  | _ :: _ :: _ => simp

theorem bare_checkFields : e.bare.fields.forM e.bare.checkField = e.fields.forM e.checkField := by
  have hmap : e.bare.fields = e.fields.map Field.bare := rfl
  rw [hmap, List.forM_eq_forM, List.forM_map]
  rfl

theorem bare_check : e.bare.check = e.check := by
  rw [check, bare_checkNames, bare_checkKey, bare_checkFields]
  rfl

theorem bare_field? (n : String) : e.bare.field? n = (e.field? n).map Field.bare := by
  rw [field?, bare, field?, List.find?_map]
  rfl

theorem bare_getField (n : String) : e.bare.getField n = (e.getField n).map Field.bare := by
  rw [getField, bare_field?, bare_fieldNames, getField]
  cases e.field? n <;> rfl

end Entity

namespace Step

theorem bare_revalidate {e : Entity} (h : ∀ f ∈ e.fields, f.check = .ok ()) :
    revalidate e.bare = (revalidate e).map Entity.bare := by
  have hbare : e.bare.fields.forM Field.check = .ok () := by
    rw [Outcome.forM_eq_ok]
    intro f hf
    obtain ⟨g, -, rfl⟩ := List.mem_map.1 hf
    rfl
  have hplain : e.fields.forM Field.check = .ok () := (Outcome.forM_eq_ok _ _).2 h
  rw [revalidate, revalidate, hbare, hplain, Entity.bare_check]
  cases e.check <;> rfl

theorem bare_replaceIn (e : Entity) (n : String) (f : Field) :
    replaceIn e.bare n f.bare = (replaceIn e n f).bare := by
  simp only [replaceIn, Entity.bare, List.map_map, Entity.mk.injEq, true_and, and_true]
  refine List.map_congr_left fun x _ => ?_
  simp only [Function.comp_apply]
  by_cases h : x.name = n
  · rw [if_pos h, if_pos (show x.bare.name = n from h)]
  · rw [if_neg h, if_neg (show ¬x.bare.name = n from h)]

theorem bare_removeFrom (e : Entity) (n : String) :
    removeFrom e.bare n = (removeFrom e n).bare := by
  simp only [removeFrom, Entity.bare, List.filter_map]
  rfl

theorem bare_change (e : Entity) (step : Step) :
    step.bare.change e.bare = (step.change e).map Entity.bare := by
  cases step with
  | createEntity _ => rfl
  | dropEntity _ => rfl
  | addField n f =>
    simp only [bare, change, addTo, Entity.bare, Except.map, List.map_append, List.map_cons,
      List.map_nil]
  | removeField n f =>
    have hname : f.bare.name = f.name := rfl
    simp only [bare, change, hname, Entity.bare_getField, bare_removeFrom]
    cases e.getField f.name <;> rfl
  | alterField n f g =>
    have hname : f.bare.name = f.name := rfl
    simp only [bare, change, hname, Entity.bare_getField, bare_replaceIn]
    cases e.getField f.name <;> rfl
  | addRelationship n r => rfl
  | removeRelationship n r =>
    have hfind : e.bare.relationship? r.name = e.relationship? r.name := rfl
    simp only [bare, change, hfind]
    split <;> rfl
  | alterReference n r q =>
    have hfind : e.bare.relationship? r.name = e.relationship? r.name := rfl
    simp only [bare, change, hfind]
    split <;> rfl

/-- A changed entity holds fields of the old one and of the step. -/
theorem check_change {e e' : Entity} {step : Step} (he : ∀ f ∈ e.fields, f.check = .ok ())
    (hs : step.Sound) (h : step.change e = .ok e') : ∀ f ∈ e'.fields, f.check = .ok () := by
  intro f hf
  cases step with
  | createEntity _ =>
    cases h
    exact he f hf
  | dropEntity _ =>
    cases h
    exact he f hf
  | addField n g =>
    cases h
    rcases List.mem_append.1 hf with hf | hf
    · exact he f hf
    · rw [List.mem_singleton.1 hf]
      exact hs
  | removeField n g =>
    obtain ⟨_, -, h⟩ := (Outcome.bind_eq_ok _ _ _).1 h
    cases h
    exact he f (List.mem_filter.1 hf).1
  | alterField n g g' =>
    obtain ⟨_, -, h⟩ := (Outcome.bind_eq_ok _ _ _).1 h
    cases h
    obtain ⟨x, hx, rfl⟩ := List.mem_map.1 hf
    split
    · exact hs.2
    · exact he x hx
  | addRelationship n r =>
    cases h
    exact he f hf
  | removeRelationship n r =>
    rw [change] at h
    split at h
    · cases h
    · cases h
      exact he f hf
  | alterReference n r q =>
    rw [change] at h
    split at h
    · cases h
      exact he f hf
    · cases h

end Step

/-! ## Schemas -/

namespace Schema

variable (s : Schema)

theorem bare_names : s.bare.names = s.names := by
  simp [names, bare, Function.comp_def]

theorem bare_contains (n : String) : s.bare.contains n = s.contains n := by
  rw [Bool.eq_iff_iff, contains_iff, contains_iff, bare_names]

theorem bare_entity? (n : String) : s.bare.entity? n = (s.entity? n).map Entity.bare := by
  rw [entity?, bare, entity?, List.find?_map]
  rfl

theorem bare_entity (n : String) : s.bare.entity n = (s.entity n).map Entity.bare := by
  rw [entity, bare_entity?, bare_names, entity]
  cases s.entity? n <;> rfl

theorem bare_put (e : Entity) : (s.put e).bare = s.bare.put e.bare := by
  have hgo : ∀ es : List Entity,
      (put.go e es).map Entity.bare = put.go e.bare (es.map Entity.bare) := by
    intro es
    induction es with
    | nil => rfl
    | cons x rest ih =>
      rw [put.go, List.map_cons, put.go, Entity.bare_name, Entity.bare_name]
      split
      · rfl
      · rw [List.map_cons, ih]
  simp only [put, bare, hgo]

theorem bare_erase (n : String) : (s.erase n).bare = s.bare.erase n := by
  simp only [erase, bare, List.filter_map]
  rfl

theorem bare_checkRelationship (e : Entity) :
    s.bare.checkRelationship e.bare = s.checkRelationship e := by
  funext joins r
  cases r with
  | single r => simp only [checkRelationship, bare_contains, Entity.bare_name]
  | many l =>
    simp only [checkRelationship, bare_contains, Entity.bare_name]
    rfl

theorem bare_check : s.bare.check = s.check := by
  have hentities : s.bare.entities = s.entities.map Entity.bare := rfl
  rw [check, check, hentities, List.foldlM_map]
  simp only [bare_checkRelationship, Entity.bare_relationships]

theorem bare_checked : s.bare.checked = s.checked.map bare := by
  rw [checked, checked, bare_check]
  cases s.check <;> rfl

end Schema

/-! ## Steps -/

namespace Step

theorem bare_apply {s : Schema} (hs : s.Sound) {step : Step} (hstep : step.Sound) :
    apply s.bare step.bare = (apply s step).map Schema.bare := by
  by_cases hc : step.isChange = true
  · have hc' : step.bare.isChange = true := by cases step <;> exact hc
    have hname : step.bare.entityName = step.entityName := by cases step <;> rfl
    rw [apply_of_isChange s hc, apply_of_isChange s.bare hc', hname, Schema.bare_entity]
    cases he : s.entity step.entityName with
    | error _ => rfl
    | ok e =>
      have hmem := ((Schema.entity_eq_ok_iff hs.distinct _ e).1 he).1
      have hfields := (e.sound_iff.1 (hs.entities e hmem)).1
      have hchange := bare_change e step
      simp only [Except.map, bind, Except.bind] at hchange ⊢
      rw [hchange]
      cases hch : step.change e with
      | error _ => rfl
      | ok e' =>
        have hre := bare_revalidate (check_change hfields hstep hch)
        simp only [Except.map] at hre ⊢
        rw [hre]
        cases revalidate e' with
        | error _ => rfl
        | ok valid =>
          simp only
          rw [← Schema.bare_put, Schema.bare_checked]
          rfl
  · cases step with
    | createEntity e =>
      have hname : e.bare.name = e.name := rfl
      simp only [apply, bare, Schema.bare_contains, hname]
      split
      · rfl
      · rw [← Schema.bare_put, Schema.bare_checked]
    | dropEntity e =>
      have hname : e.bare.name = e.name := rfl
      simp only [apply, bare, hname, Schema.bare_entity]
      cases s.entity e.name with
      | error _ => rfl
      | ok g =>
        simp only [Except.map, bind, Except.bind]
        rw [← Schema.bare_erase, Schema.bare_checked]
        rfl
    | _ => exact absurd rfl hc

theorem sound_apply_of_sound {s t : Schema} (hs : s.Sound) {step : Step} (hstep : step.Sound)
    (h : apply s step = .ok t) : t.Sound :=
  sound_apply hs (fun e he => by subst he; exact hstep) h

/-- Steps that differ in defaults only can be applied to schemas that do. -/
theorem exists_apply {s t s' : Schema} (hs : s.Sound) (ht : t.Sound) (hst : t.bare = s.bare)
    {p q : Step} (hp : p.Sound) (hq : q.Sound) (hpq : q.bare = p.bare) (h : apply s p = .ok s') :
    ∃ t', apply t q = .ok t' ∧ t'.bare = s'.bare := by
  have hbare := bare_apply ht hq
  rw [hst, hpq, bare_apply hs hp, h] at hbare
  exact (Outcome.map_eq_ok _ _ _).1 hbare.symm

theorem exists_applyAll {s t s' : Schema} (hs : s.Sound) (ht : t.Sound) (hst : t.bare = s.bare)
    {ps : List Step} {f : Step → Step} (hp : ∀ p ∈ ps, p.Sound ∧ (f p).Sound ∧ (f p).bare = p.bare)
    (h : applyAll s ps = .ok s') : ∃ t', applyAll t (ps.map f) = .ok t' ∧ t'.bare = s'.bare := by
  induction ps generalizing s t with
  | nil =>
    cases h
    exact ⟨t, rfl, hst⟩
  | cons p rest ih =>
    obtain ⟨u, hu, hrest⟩ := (applyAll_cons _ _ _ _).1 h
    obtain ⟨hp1, hp2, hp3⟩ := hp p List.mem_cons_self
    obtain ⟨v, hv, hvu⟩ := exists_apply hs ht hst hp1 hp2 hp3 hu
    obtain ⟨t', ht', hbare⟩ := ih (sound_apply_of_sound hs hp1 hu)
      (sound_apply_of_sound ht hp2 hv) hvu (fun q hq => hp q (List.mem_cons_of_mem p hq)) hrest
    exact ⟨t', (applyAll_cons _ _ _ _).2 ⟨v, hv, ht'⟩, hbare⟩

theorem bare_recorded (step : Step) : step.recorded.bare = step.bare := by
  have hfield : ∀ f : Field, f.recorded.bare = f.bare := fun _ => rfl
  have hentity : ∀ e : Entity, e.recorded.bare = e.bare := by
    intro e
    simp [Entity.bare, Entity.recorded, Function.comp_def, hfield]
  cases step <;> simp [recorded, bare, hfield, hentity]

/-- Recorded steps can be replayed if the steps themselves could be applied. -/
theorem exists_applyAll_recorded {s s' : Schema} (hs : s.Sound) {steps : List Step}
    (hsteps : ∀ p ∈ steps, p.Sound) (h : applyAll s steps = .ok s') :
    ∃ t, applyAll s (steps.map recorded) = .ok t ∧ t.bare = s'.bare :=
  exists_applyAll hs hs rfl
    (fun p hp => ⟨hsteps p hp, sound_recorded (hsteps p hp), bare_recorded p⟩) h

theorem sound_applyAll_recorded {s t : Schema} (hs : s.Sound) {steps : List Step}
    (hsteps : ∀ p ∈ steps, p.Sound) (h : applyAll s (steps.map recorded) = .ok t) : t.Sound := by
  refine sound_applyAll hs (fun e he => ?_) h
  obtain ⟨p, hp, heq⟩ := List.mem_map.1 he
  have hsound := sound_recorded (hsteps p hp)
  rw [heq] at hsound
  exact hsound

end Step

end SchemaLedger
