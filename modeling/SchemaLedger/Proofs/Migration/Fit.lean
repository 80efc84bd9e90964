import Mathlib.Data.List.Induction
import SchemaLedger.Proofs.Migration.Part

set_option autoImplicit false

/-!
# Steps that fit

`Step.Fits x s step` lists what a step needs so that a part `s` of the valid schema `x` stays a part
of `x`: what is removed is there, what is added comes from `x` and is not there yet, targets exist,
and keys stay. A run whose steps fit, each at its moment, never fails.
-/
namespace SchemaLedger

namespace Step

def Fits (x s : Schema) : Step → Prop
  | .createEntity e =>
    ¬ s.Declares (.entity e.name) ∧ (∃ g ∈ x.entities, e.PartOf g) ∧
      ∀ r ∈ e.relationships, r.target = e.name ∨ s.Declares (.entity r.target)
  | .dropEntity e =>
    s.Declares (.entity e.name) ∧
      ∀ n r, s.Declares (.relationship n r) → r.target = e.name → n = e.name
  | .addField n f =>
    s.Declares (.entity n) ∧ x.Declares (.field n f) ∧
      ∀ g, s.Declares (.field n g) → g.name ≠ f.name
  | .removeField n f => s.Declares (.field n f) ∧ f.primaryKey = false
  | .alterField n old new =>
    s.Declares (.field n old) ∧ new.name = old.name ∧ new.primaryKey = old.primaryKey ∧ new.Sound
  | .addRelationship n r =>
    s.Declares (.entity n) ∧ x.Declares (.relationship n r) ∧ s.Declares (.entity r.target) ∧
      ∀ q, s.Declares (.relationship n q) → q.name ≠ r.name
  | .removeRelationship n r => s.Declares (.relationship n r)
  | .alterReference n old new =>
    s.Declares (.relationship n (.single old)) ∧ new.name = old.name ∧ new.target = old.target

theorem declares_entity_put {s : Schema} {n : String} (h : s.Declares (.entity n)) (e : Entity) :
    (s.put e).Declares (.entity n) := by
  rw [Schema.declares_entity] at h ⊢
  rw [Schema.names_put]
  split
  · exact h
  · exact List.mem_append_left _ h

theorem partOf_put {x s : Schema} (hs : s.PartOf x) {e g : Entity} (hg : g ∈ x.entities)
    (hp : e.PartOf g)
    (ht : ∀ r ∈ e.relationships, r.target = e.name ∨ s.Declares (.entity r.target)) :
    (s.put e).PartOf x := by
  refine ⟨Schema.nodup_names_put hs.distinct e, fun y hy => ?_, fun n r hr => ?_⟩
  · rcases (Schema.mem_put hs.distinct e y).1 hy with rfl | ⟨hy, -⟩
    · exact ⟨g, hg, hp⟩
    · exact hs.entities y hy
  · rcases (Schema.declares_put hs.distinct e _).1 hr with ⟨rfl, hmem⟩ | ⟨hr, -⟩
    · rcases ht r hmem with h | h
      · rw [h]
        exact ⟨e, (Schema.mem_put hs.distinct e e).2 (.inl rfl), rfl⟩
      · exact declares_entity_put h e
    · exact declares_entity_put (hs.targets n r hr) e

theorem apply_change_of_partOf {x s : Schema} (hx : x.Sound) (hs : s.PartOf x) {step : Step}
    (hc : step.isChange = true) {e e' g : Entity} (he : e ∈ s.entities)
    (hn : step.entityName = e.name) (hch : step.change e = .ok e') (hg : g ∈ x.entities)
    (hp : e'.PartOf g) (ht : ∀ r ∈ e'.relationships, s.Declares (.entity r.target)) :
    ∃ t, apply s step = .ok t ∧ t.PartOf x := by
  have hput := partOf_put hs hg hp fun r hr => .inr (ht r hr)
  refine ⟨s.put e', (apply_change s _ hc).2 ⟨e, e', ?_, hch, hp.sound (hx.entities g hg), rfl,
    hput.check hx⟩, hput⟩
  exact (Schema.entity?_eq_some hs.distinct _ e).2 ⟨he, hn.symm⟩

/-- The entity that a member belongs to, with its counterpart. -/
theorem exists_entity {x s : Schema} (hs : s.PartOf x) {n : String}
    (h : s.Declares (.entity n)) : ∃ e ∈ s.entities, e.name = n ∧ ∃ g ∈ x.entities, e.PartOf g := by
  obtain ⟨e, he, hn⟩ := h
  exact ⟨e, he, hn, hs.entities e he⟩

theorem declares_target {x s : Schema} (hs : s.PartOf x) {e : Entity} (he : e ∈ s.entities)
    {r : Relationship} (hr : r ∈ e.relationships) : s.Declares (.entity r.target) :=
  hs.targets e.name r (Schema.declares_relationship_of_mem he hr)

theorem apply_of_fits {x s : Schema} (hx : x.Sound) (hs : s.PartOf x) {step : Step}
    (h : step.Fits x s) : ∃ t, apply s step = .ok t ∧ t.PartOf x := by
  cases step with
  | createEntity e =>
    obtain ⟨hn, ⟨g, hg, hp⟩, ht⟩ := h
    have hput := partOf_put hs hg hp ht
    exact ⟨s.put e, (apply_createEntity s _ e).2 ⟨hn, rfl, hput.check hx⟩, hput⟩
  | dropEntity e =>
    obtain ⟨hn, ht⟩ := h
    have hpart : (s.erase e.name).PartOf x := by
      refine ⟨Schema.nodup_names_erase hs.distinct _, fun y hy => ?_, fun n r hr => ?_⟩
      · exact hs.entities y (List.mem_filter.1 hy).1
      · obtain ⟨hr, hne⟩ := (Schema.declares_erase s e.name _).1 hr
        exact (Schema.declares_erase s e.name _).2
          ⟨hs.targets n r hr, fun heq => hne (ht n r hr heq)⟩
    exact ⟨_, (apply_dropEntity s _ e).2 ⟨hn, rfl, hpart.check hx⟩, hpart⟩
  | addField n f =>
    obtain ⟨hn, hf, hfresh⟩ := h
    obtain ⟨e, he, rfl, g, hg, hp⟩ := exists_entity hs hn
    rw [hp.name, Schema.declares_field hx.distinct hg] at hf
    have hadd := hp.addTo (hx.entities g hg) hf fun i hi =>
      hfresh i (Schema.declares_field_of_mem he hi)
    exact apply_change_of_partOf hx hs rfl he rfl rfl hg hadd fun r hr => declares_target hs he hr
  | removeField n f =>
    obtain ⟨hf, hp⟩ := h
    obtain ⟨e, he, rfl, g, hg, hpart⟩ := exists_entity hs hf.owner
    have hm := (Schema.declares_field hs.distinct he f).1 hf
    obtain ⟨i, hi⟩ := (getField_isOk e f.name).2 ⟨f, hm, rfl⟩
    refine apply_change_of_partOf hx hs rfl he rfl ?_ hg (hpart.removeFrom hm hp)
      fun r hr => declares_target hs he hr
    simp [change, hi, bind, Except.bind]
  | alterField n old new =>
    obtain ⟨hold, hn, hp, hsound⟩ := h
    obtain ⟨e, he, rfl, g, hg, hpart⟩ := exists_entity hs hold.owner
    have hm := (Schema.declares_field hs.distinct he old).1 hold
    obtain ⟨i, hi⟩ := (getField_isOk e old.name).2 ⟨old, hm, rfl⟩
    refine apply_change_of_partOf hx hs rfl he rfl ?_ hg (hpart.replaceIn hm hn hp hsound)
      fun r hr => declares_target hs he hr
    simp [change, hi, bind, Except.bind]
  | addRelationship n r =>
    obtain ⟨hn, hr, ht, hfresh⟩ := h
    obtain ⟨e, he, rfl, g, hg, hp⟩ := exists_entity hs hn
    rw [hp.name, Schema.declares_relationship hx.distinct hg] at hr
    have hadd := hp.relate hr fun q hq => hfresh q (Schema.declares_relationship_of_mem he hq)
    refine apply_change_of_partOf hx hs rfl he rfl rfl hg hadd fun q hq => ?_
    rcases List.mem_append.1 hq with hq | hq
    · exact declares_target hs he hq
    · rw [List.mem_singleton.1 hq]
      exact ht
  | removeRelationship n r =>
    obtain ⟨e, he, rfl, g, hg, hp⟩ := exists_entity hs h.owner
    have hm := (Schema.declares_relationship hs.distinct he r).1 h
    refine apply_change_of_partOf hx hs rfl he rfl ?_ hg (hp.unrelate r.name)
      fun q hq => declares_target hs he (List.mem_filter.1 hq).1
    have hsome : (e.relationship? r.name).isNone ≠ true := fun hnone =>
      (relationship?_eq_none e r.name).1 (Option.isNone_iff_eq_none.1 hnone) r hm rfl
    simp [change, hsome]
  | alterReference n old new =>
    obtain ⟨hold, hn, ht⟩ := h
    obtain ⟨e, he, rfl, g, hg, hp⟩ := exists_entity hs hold.owner
    have hm := (Schema.declares_relationship hs.distinct he _).1 hold
    have hfound : e.relationship? old.name = some (.single old) := by
      cases hr : e.relationship? old.name with
      | none => exact absurd rfl ((relationship?_eq_none e old.name).1 hr _ hm)
      | some q =>
        have hq := List.mem_of_find?_eq_some hr
        have hqn : q.name = old.name := by simpa using List.find?_some hr
        exact congrArg some (List.inj_on_of_nodup_map hp.relationshipNames hq hm hqn)
    refine apply_change_of_partOf hx hs rfl he rfl ?_ hg (hp.replaceRelationship hm hn ht)
      fun q hq => ?_
    · simp [change, hfound]
    · obtain ⟨i, hi, rfl⟩ := List.mem_map.1 hq
      split
      · change s.Declares (.entity new.target)
        rw [ht]
        exact declares_target hs he hm
      · exact declares_target hs he hi

/-- A run stays a part of `x` if each step fits the schema that the steps before it lead to. -/
theorem applyAll_of_fits {x s : Schema} (hx : x.Sound) (hs : s.PartOf x) (steps : List Step)
    (h : ∀ before step after, steps = before ++ step :: after →
      ∀ t, applyAll s before = .ok t → t.PartOf x → step.Fits x t) :
    ∃ t, applyAll s steps = .ok t ∧ t.PartOf x := by
  induction steps using List.reverseRecOn with
  | nil => exact ⟨s, rfl, hs⟩
  | append_singleton before step ih =>
    obtain ⟨t, ht, hpart⟩ := ih fun p q r heq u hu hp =>
      h p q (r ++ [step]) (by rw [heq, List.append_assoc, List.cons_append]) u hu hp
    obtain ⟨u, hu, hpu⟩ := apply_of_fits hx hpart (h before step [] rfl t ht hpart)
    exact ⟨u, applyAll_concat ht hu, hpu⟩

end Step

end SchemaLedger
