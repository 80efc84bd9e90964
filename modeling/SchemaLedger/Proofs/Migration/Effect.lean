import SchemaLedger.Proofs.Schema.Declarations

set_option autoImplicit false

/-!
# The effect of a step

What a step that fits a schema does to its declarations: it removes some, by the name of the member
it is about, and adds others. `declares_apply` says so for every step, hand-written ones included,
and `declares_applyAll` for a list of steps in which none removes what one before it has added.
-/
namespace SchemaLedger

namespace Schema

theorem checked_eq_ok (s t : Schema) : s.checked = .ok t ↔ t = s ∧ s.check = .ok () := by
  unfold checked
  rw [Outcome.bind_eq_ok]
  constructor
  · rintro ⟨_, hc, h⟩
    exact ⟨(Except.ok.inj h).symm, hc⟩
  · rintro ⟨rfl, hc⟩
    exact ⟨(), hc, rfl⟩

theorem entity_eq_ok (s : Schema) (n : String) (e : Entity) :
    s.entity n = .ok e ↔ s.entity? n = some e := by
  unfold entity
  cases s.entity? n with
  | none => simp
  | some g => simp

theorem entity_eq_ok_iff {s : Schema} (hs : s.names.Nodup) (n : String) (e : Entity) :
    s.entity n = .ok e ↔ e ∈ s.entities ∧ e.name = n :=
  (entity_eq_ok s n e).trans (entity?_eq_some hs n e)

theorem mem_go (e x : Entity) (es : List Entity) (hd : (es.map (·.name)).Nodup) :
    x ∈ put.go e es ↔ x = e ∨ x ∈ es ∧ x.name ≠ e.name := by
  induction es with
  | nil => simp [put.go]
  | cons g rest ih =>
    obtain ⟨hg, hd⟩ := List.nodup_cons.1 hd
    rw [put.go]
    split
    · rename_i h
      have hrest : ∀ y ∈ rest, y.name ≠ e.name := by
        intro y hy hn
        exact hg (List.mem_map.2 ⟨y, hy, hn.trans h.symm⟩)
      rw [List.mem_cons, List.mem_cons]
      constructor
      · rintro (rfl | hx)
        · exact .inl rfl
        · exact .inr ⟨.inr hx, hrest x hx⟩
      · rintro (rfl | ⟨rfl | hx, hn⟩)
        · exact .inl rfl
        · exact absurd h hn
        · exact .inr hx
    · rename_i h
      rw [List.mem_cons, ih hd, List.mem_cons]
      constructor
      · rintro (rfl | rfl | ⟨hx, hn⟩)
        · exact .inr ⟨.inl rfl, h⟩
        · exact .inl rfl
        · exact .inr ⟨.inr hx, hn⟩
      · rintro (rfl | ⟨rfl | hx, hn⟩)
        · exact .inr (.inl rfl)
        · exact .inl rfl
        · exact .inr (.inr ⟨hx, hn⟩)

theorem mem_put {s : Schema} (hs : s.names.Nodup) (e x : Entity) :
    x ∈ (s.put e).entities ↔ x = e ∨ x ∈ s.entities ∧ x.name ≠ e.name := mem_go e x s.entities hs

theorem names_go (e : Entity) (es : List Entity) :
    (put.go e es).map (·.name) =
      if e.name ∈ es.map (·.name) then es.map (·.name) else es.map (·.name) ++ [e.name] := by
  induction es with
  | nil => rfl
  | cons g rest ih =>
    rw [put.go]
    by_cases h : g.name = e.name
    · simp [h]
    · simp only [h, if_false, List.map_cons, ih, List.mem_cons, Ne.symm h, false_or]
      split <;> simp

theorem names_put (s : Schema) (e : Entity) :
    (s.put e).names = if e.name ∈ s.names then s.names else s.names ++ [e.name] :=
  names_go e s.entities

theorem nodup_names_put {s : Schema} (hs : s.names.Nodup) (e : Entity) :
    (s.put e).names.Nodup := by
  rw [names_put]
  split
  · exact hs
  · rename_i h
    exact List.nodup_append.2 ⟨hs, List.nodup_singleton _, fun a ha b hb => by
      rw [List.mem_singleton] at hb
      exact fun hab => h (hb ▸ hab ▸ ha)⟩

theorem nodup_names_erase {s : Schema} (hs : s.names.Nodup) (n : String) :
    (s.erase n).names.Nodup :=
  hs.sublist (List.filter_sublist.map _)

theorem declares_put {s : Schema} (hs : s.names.Nodup) (e : Entity) (d : Declaration) :
    (s.put e).Declares d ↔ e.Declares d ∨ s.Declares d ∧ d.owner ≠ e.name := by
  simp only [Declares, mem_put hs]
  constructor
  · rintro ⟨x, rfl | ⟨hx, hn⟩, hd⟩
    · exact .inl hd
    · exact .inr ⟨⟨x, hx, hd⟩, hd.owner ▸ hn⟩
  · rintro (hd | ⟨⟨x, hx, hd⟩, hn⟩)
    · exact ⟨e, .inl rfl, hd⟩
    · exact ⟨x, .inr ⟨hx, hd.owner ▸ hn⟩, hd⟩

theorem declares_erase (s : Schema) (n : String) (d : Declaration) :
    (s.erase n).Declares d ↔ s.Declares d ∧ d.owner ≠ n := by
  simp only [Declares, erase, List.mem_filter, decide_eq_true_eq]
  constructor
  · rintro ⟨e, ⟨he, hn⟩, hd⟩
    exact ⟨⟨e, he, hd⟩, hd.owner ▸ hn⟩
  · rintro ⟨⟨e, he, hd⟩, hn⟩
    exact ⟨e, ⟨he, hd.owner ▸ hn⟩, hd⟩

end Schema

namespace Step

/-- What is new after a step. -/
def Adds : Step → Declaration → Prop
  | .createEntity e, d => e.Declares d
  | .addField n f, d => d = .field n f
  | .alterField n _ new, d => d = .field n new
  | .addRelationship n r, d => d = .relationship n r
  | .alterReference n _ new, d => d = .relationship n (.single new)
  | _, _ => False

/-- What is gone after a step, unless the step itself adds it. -/
def Removes : Step → Declaration → Prop
  | .dropEntity e, d => d.owner = e.name
  | .removeField n f, .field m g => m = n ∧ g.name = f.name
  | .alterField n old _, .field m g => m = n ∧ g.name = old.name
  | .removeRelationship n r, .relationship m q => m = n ∧ q.name = r.name
  | .alterReference n old _, .relationship m q => m = n ∧ q.name = old.name
  | _, _ => False

/-- Whether the step is about a member of an entity and not about the entity itself. -/
def isChange : Step → Bool
  | .createEntity _ => false
  | .dropEntity _ => false
  | _ => true

theorem apply_createEntity (s t : Schema) (e : Entity) :
    apply s (.createEntity e) = .ok t ↔
      ¬ s.Declares (.entity e.name) ∧ t = s.put e ∧ t.check = .ok () := by
  simp only [apply]
  rw [Schema.declares_entity, ← Schema.contains_iff]
  cases s.contains e.name with
  | true => simp
  | false =>
    simp only [Bool.false_eq_true, if_false, Schema.checked_eq_ok, not_false_eq_true, true_and]
    constructor
    · rintro ⟨rfl, hc⟩
      exact ⟨rfl, hc⟩
    · rintro ⟨rfl, hc⟩
      exact ⟨rfl, hc⟩

theorem apply_dropEntity (s t : Schema) (e : Entity) :
    apply s (.dropEntity e) = .ok t ↔
      s.Declares (.entity e.name) ∧ t = s.erase e.name ∧ t.check = .ok () := by
  simp only [apply, Outcome.bind_eq_ok, Schema.checked_eq_ok, Schema.entity_eq_ok]
  have hn := Schema.entity?_eq_none s e.name
  constructor
  · rintro ⟨g, hg, rfl, hc⟩
    refine ⟨not_not.1 fun h => ?_, rfl, hc⟩
    simp [hn.2 h] at hg
  · rintro ⟨hd, rfl, hc⟩
    cases hg : s.entity? e.name with
    | none => exact absurd hd (hn.1 hg)
    | some g => exact ⟨g, rfl, rfl, hc⟩

/-- A step about a member changes the entity and puts it back. -/
theorem apply_of_isChange (s : Schema) {step : Step} (h : step.isChange = true) :
    apply s step = (do
      let e ← s.entity step.entityName
      let changed ← step.change e
      let valid ← revalidate changed
      (s.put valid).checked) := by
  cases step with
  | createEntity _ => cases h
  | dropEntity _ => cases h
  | _ => rfl

theorem apply_change (s t : Schema) {step : Step} (h : step.isChange = true) :
    apply s step = .ok t ↔
      ∃ e e', s.entity? step.entityName = some e ∧ step.change e = .ok e' ∧ e'.Sound ∧
        t = s.put e' ∧ t.check = .ok () := by
  rw [apply_of_isChange s h]
  simp only [Outcome.bind_eq_ok, Schema.checked_eq_ok, Schema.entity_eq_ok, revalidate_eq_ok]
  constructor
  · rintro ⟨e, he, e', hc, _, ⟨rfl, hs⟩, rfl, ht⟩
    exact ⟨e, _, he, hc, hs, rfl, ht⟩
  · rintro ⟨e, e', he, hc, hs, rfl, ht⟩
    exact ⟨e, he, e', hc, e', ⟨rfl, hs⟩, rfl, ht⟩

theorem getField_isOk (e : Entity) (n : String) :
    (∃ f, e.getField n = .ok f) ↔ ∃ f ∈ e.fields, f.name = n := by
  unfold Entity.getField Entity.field?
  cases h : e.fields.find? (·.name = n) with
  | none =>
    have hn := List.find?_eq_none.1 h
    simpa using hn
  | some f =>
    simp only [Except.ok.injEq, exists_eq', true_iff]
    exact ⟨f, List.mem_of_find?_eq_some h, by simpa using List.find?_some h⟩

theorem relationship?_eq_none (e : Entity) (n : String) :
    e.relationship? n = none ↔ ∀ r ∈ e.relationships, r.name ≠ n := by
  simp [Entity.relationship?]

/-- The members of a changed entity. -/
theorem declares_change {step : Step} {e e' : Entity} (h : step.isChange = true)
    (hn : step.entityName = e.name) (hc : step.change e = .ok e') (d : Declaration) :
    e'.name = e.name ∧ (e'.Declares d ↔ step.Adds d ∨ e.Declares d ∧ ¬ step.Removes d) := by
  cases step with
  | createEntity _ => simp [isChange] at h
  | dropEntity _ => simp [isChange] at h
  | addField n f =>
    obtain rfl := Except.ok.inj hc
    obtain rfl := hn
    refine ⟨rfl, ?_⟩
    cases d <;> simp [addTo, Entity.Declares, Adds, Removes]
    grind
  | removeField n f =>
    obtain rfl := hn
    simp only [change, Outcome.bind_eq_ok, Except.ok.injEq] at hc
    obtain ⟨-, -, rfl⟩ := hc
    refine ⟨rfl, ?_⟩
    cases d <;> simp [removeFrom, Entity.Declares, Adds, Removes]
    grind
  | alterField n old new =>
    obtain rfl := hn
    simp only [change, Outcome.bind_eq_ok, Except.ok.injEq] at hc
    obtain ⟨g, hg, rfl⟩ := hc
    have hold := (getField_isOk e old.name).1 ⟨g, hg⟩
    refine ⟨rfl, ?_⟩
    cases d <;> simp [replaceIn, Entity.Declares, Adds, Removes]
    grind
  | addRelationship n r =>
    obtain rfl := Except.ok.inj hc
    obtain rfl := hn
    refine ⟨rfl, ?_⟩
    cases d <;> simp [relate, Entity.Declares, Adds, Removes]
    grind
  | removeRelationship n r =>
    obtain rfl := hn
    simp only [change] at hc
    split at hc
    · cases hc
    · obtain rfl := Except.ok.inj hc
      refine ⟨rfl, ?_⟩
      cases d <;> simp [unrelate, Entity.Declares, Adds, Removes]
      grind
  | alterReference n old new =>
    obtain rfl := hn
    simp only [change] at hc
    split at hc
    · rename_i hold
      obtain rfl := Except.ok.inj hc
      have hm := List.mem_of_find?_eq_some hold
      refine ⟨rfl, ?_⟩
      cases d <;> simp [replaceRelationship, Entity.Declares, Adds, Removes]
      have hname : (Relationship.single old).name = old.name := rfl
      grind
    · cases hc

theorem owner_of_adds {step : Step} {d : Declaration} (h : step.Adds d) :
    d.owner = step.entityName := by
  cases step with
  | createEntity e => exact h.owner.symm
  | addField _ _ | alterField _ _ _ | addRelationship _ _ | alterReference _ _ _ =>
    rw [show d = _ from h]
    rfl
  | dropEntity _ | removeField _ _ | removeRelationship _ _ => exact absurd h id

theorem owner_of_removes {step : Step} {d : Declaration} (h : step.Removes d) :
    d.owner = step.entityName := by
  cases step with
  | dropEntity e => exact h
  | createEntity _ | addField _ _ | addRelationship _ _ => exact absurd h id
  | removeField _ _ | alterField _ _ _ =>
    cases d with
    | field _ _ => exact h.1
    | entity _ | relationship _ _ => exact absurd h id
  | removeRelationship _ _ | alterReference _ _ _ =>
    cases d with
    | relationship _ _ => exact h.1
    | entity _ | field _ _ => exact absurd h id

theorem declares_apply {s t : Schema} {step : Step} (hs : s.names.Nodup)
    (h : apply s step = .ok t) (d : Declaration) :
    t.Declares d ↔ step.Adds d ∨ s.Declares d ∧ ¬ step.Removes d := by
  by_cases hc : step.isChange = true
  · obtain ⟨e, e', he, hch, -, rfl, -⟩ := (apply_change s t hc).1 h
    obtain ⟨hem, hname⟩ := (Schema.entity?_eq_some hs _ e).1 he
    obtain ⟨hn', hd⟩ := declares_change hc hname.symm hch d
    rw [Schema.declares_put hs, hd, hn']
    by_cases ho : d.owner = e.name
    · rw [Schema.declares_iff hs hem ho]
      simp [ho]
    · have ha : ¬ step.Adds d := fun ha => ho ((owner_of_adds ha).trans hname.symm)
      have hr : ¬ step.Removes d := fun hr => ho ((owner_of_removes hr).trans hname.symm)
      have he : ¬ e.Declares d := fun hd => ho hd.owner.symm
      simp [ha, hr, he, ho]
  · cases step with
    | createEntity e =>
      obtain ⟨hn, rfl, -⟩ := (apply_createEntity s t e).1 h
      rw [Schema.declares_put hs]
      have ho : s.Declares d → d.owner ≠ e.name := fun hd ho => hn (ho ▸ hd.owner)
      simp only [Adds, Removes, not_false_eq_true, and_true]
      exact or_congr_right ⟨fun h => h.1, fun h => ⟨h, ho h⟩⟩
    | dropEntity e =>
      obtain ⟨-, rfl, -⟩ := (apply_dropEntity s t e).1 h
      rw [Schema.declares_erase]
      simp [Adds, Removes]
    | _ => exact absurd rfl hc

theorem nodup_names_apply {s t : Schema} {step : Step} (hs : s.names.Nodup)
    (h : apply s step = .ok t) : t.names.Nodup := by
  by_cases hc : step.isChange = true
  · obtain ⟨-, -, -, -, -, rfl, -⟩ := (apply_change s t hc).1 h
    exact Schema.nodup_names_put hs _
  · cases step with
    | createEntity e =>
      obtain ⟨-, rfl, -⟩ := (apply_createEntity s t e).1 h
      exact Schema.nodup_names_put hs e
    | dropEntity e =>
      obtain ⟨-, rfl, -⟩ := (apply_dropEntity s t e).1 h
      exact Schema.nodup_names_erase hs _
    | _ => exact absurd rfl hc

/-- Only a created entity is taken as it is. -/
theorem sound_apply {s t : Schema} {step : Step} (hs : s.Sound)
    (hnew : ∀ e, step = .createEntity e → e.Sound) (h : apply s step = .ok t) : t.Sound := by
  have hd := nodup_names_apply hs.distinct h
  by_cases hc : step.isChange = true
  · obtain ⟨e, e', -, -, he', rfl, ht⟩ := (apply_change s t hc).1 h
    refine (Schema.check_eq_ok_iff hd fun x hx => ?_).1 ht
    rcases (Schema.mem_put hs.distinct e' x).1 hx with rfl | ⟨hx, -⟩
    · exact he'
    · exact hs.entities x hx
  · cases step with
    | createEntity e =>
      obtain ⟨-, rfl, ht⟩ := (apply_createEntity s t e).1 h
      refine (Schema.check_eq_ok_iff hd fun x hx => ?_).1 ht
      rcases (Schema.mem_put hs.distinct e x).1 hx with rfl | ⟨hx, -⟩
      · exact hnew x rfl
      · exact hs.entities x hx
    | dropEntity e =>
      obtain ⟨-, rfl, ht⟩ := (apply_dropEntity s t e).1 h
      exact (Schema.check_eq_ok_iff hd fun x hx => hs.entities x (List.mem_filter.1 hx).1).1 ht
    | _ => exact absurd rfl hc

/-! ## Lists of steps -/

theorem applyAll_cons (s t : Schema) (step : Step) (steps : List Step) :
    applyAll s (step :: steps) = .ok t ↔
      ∃ u, apply s step = .ok u ∧ applyAll u steps = .ok t := by
  unfold applyAll
  rw [List.foldlM_cons, Outcome.bind_eq_ok]

theorem applyAll_append (s t : Schema) (xs ys : List Step) :
    applyAll s (xs ++ ys) = .ok t ↔ ∃ u, applyAll s xs = .ok u ∧ applyAll u ys = .ok t :=
  Outcome.foldlM_append_eq_ok apply s t xs ys

theorem applyAll_concat {s t u : Schema} {steps : List Step} {step : Step}
    (h : applyAll s steps = .ok t) (hstep : apply t step = .ok u) :
    applyAll s (steps ++ [step]) = .ok u :=
  (applyAll_append s u steps [step]).2 ⟨t, h, (applyAll_cons t u step []).2 ⟨u, hstep, rfl⟩⟩

theorem sound_applyAll {s t : Schema} {steps : List Step} (hs : s.Sound)
    (hnew : ∀ e, .createEntity e ∈ steps → e.Sound) (h : applyAll s steps = .ok t) : t.Sound := by
  induction steps generalizing s with
  | nil =>
    obtain rfl := Except.ok.inj h
    exact hs
  | cons step rest ih =>
    obtain ⟨u, hu, ht⟩ := (applyAll_cons s t step rest).1 h
    refine ih (sound_apply hs (fun e he => hnew e ?_) hu) (fun e he => hnew e ?_) ht
    · rw [he]
      exact List.mem_cons_self
    · exact List.mem_cons_of_mem _ he

/-- A run that ends has passed through a schema after each of its steps. -/
theorem applyAll_take {s t : Schema} {steps : List Step} (h : applyAll s steps = .ok t) (k : Nat) :
    ∃ u, applyAll s (steps.take k) = .ok u := by
  rw [← List.take_append_drop k steps] at h
  obtain ⟨u, hu, -⟩ := (applyAll_append s t _ _).1 h
  exact ⟨u, hu⟩

/-- Whether a later step leaves alone what an earlier one adds. -/
def Respects (earlier later : Step) : Prop := ∀ d, earlier.Adds d → ¬ later.Removes d

theorem declares_applyAll {s t : Schema} {steps : List Step} (hs : s.names.Nodup)
    (hr : steps.Pairwise Respects) (h : applyAll s steps = .ok t) (d : Declaration) :
    t.Declares d ↔
      (∃ step ∈ steps, step.Adds d) ∨ s.Declares d ∧ ∀ step ∈ steps, ¬ step.Removes d := by
  induction steps generalizing s with
  | nil =>
    obtain rfl := Except.ok.inj h
    simp
  | cons step rest ih =>
    obtain ⟨hfirst, hrest⟩ := List.pairwise_cons.1 hr
    obtain ⟨u, hu, ht⟩ := (applyAll_cons s t step rest).1 h
    rw [ih (nodup_names_apply hs hu) hrest ht, declares_apply hs hu]
    simp only [List.mem_cons, exists_eq_or_imp, forall_eq_or_imp]
    constructor
    · rintro (ha | ⟨ha | ⟨hd, hn⟩, hall⟩)
      · exact .inl (.inr ha)
      · exact .inl (.inl ha)
      · exact .inr ⟨hd, hn, hall⟩
    · rintro ((ha | ha) | ⟨hd, hn, hall⟩)
      · exact .inr ⟨.inl ha, fun later hl => hfirst later hl d ha⟩
      · exact .inl ha
      · exact .inr ⟨.inr ⟨hd, hn⟩, hall⟩

end Step

end SchemaLedger
