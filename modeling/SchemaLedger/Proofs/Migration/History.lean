import SchemaLedger.Migration.History
import SchemaLedger.Proofs.Migration.Convergence

set_option autoImplicit false

/-!
# Replaying a history

The schema that recorded batches lead to, and the batch that is pending after them. A version is
carried along; no step looks at it.
-/
namespace SchemaLedger

namespace Step

theorem checked_withVersion (s : Schema) (v : Int) :
    (s.withVersion v).checked = s.checked.map (·.withVersion v) := by
  have hcheck : (s.withVersion v).check = s.check := rfl
  rw [Schema.checked, Schema.checked, hcheck]
  cases s.check <;> rfl

theorem apply_withVersion (s : Schema) (v : Int) (step : Step) :
    step.apply (s.withVersion v) = (step.apply s).map (·.withVersion v) := by
  have hentity : ∀ n, (s.withVersion v).entity n = s.entity n := fun _ => rfl
  have hput : ∀ e, (s.withVersion v).put e = (s.put e).withVersion v := fun _ => rfl
  have herase : ∀ n, (s.withVersion v).erase n = (s.erase n).withVersion v := fun _ => rfl
  by_cases hc : step.isChange = true
  · rw [apply_of_isChange _ hc, apply_of_isChange _ hc, hentity]
    cases s.entity step.entityName with
    | error _ => rfl
    | ok e =>
      simp only [bind, Except.bind]
      cases step.change e with
      | error _ => rfl
      | ok changed =>
        dsimp only
        cases revalidate changed with
        | error _ => rfl
        | ok valid =>
          dsimp only
          rw [hput]
          exact checked_withVersion _ v
  · cases step with
    | createEntity e =>
      have hcontains : (s.withVersion v).contains e.name = s.contains e.name := rfl
      rw [apply, apply, hcontains, hput]
      split
      · rfl
      · exact checked_withVersion _ v
    | dropEntity e =>
      rw [apply, apply, hentity, herase]
      cases s.entity e.name with
      | error _ => rfl
      | ok _ => exact checked_withVersion _ v
    | _ => exact absurd rfl hc

theorem applyAll_withVersion (s : Schema) (v : Int) (steps : List Step) :
    applyAll (s.withVersion v) steps = (applyAll s steps).map (·.withVersion v) := by
  induction steps generalizing s with
  | nil => rfl
  | cons step rest ih =>
    rw [applyAll, applyAll, List.foldlM_cons, List.foldlM_cons, apply_withVersion]
    cases step.apply s with
    | error _ => rfl
    | ok t => exact ih t

end Step

theorem Schema.sound_empty : Schema.empty.Sound := by
  rw [← Schema.valid_iff_sound]
  exact ⟨List.nodup_nil, nofun, nofun, rfl⟩

theorem Schema.Sound.withVersion {s : Schema} (h : s.Sound) (v : Int) : (s.withVersion v).Sound :=
  { h with }

theorem schemaOf_eq_ok {steps : List Step} {v : Int} {c : Schema} : schemaOf steps v = .ok c ↔
    ∃ t, Step.applyAll .empty steps = .ok t ∧ t.withVersion v = c := by
  rw [schemaOf, Outcome.map_eq_ok]

/-- More steps are replayed on the schema of those before. -/
theorem schemaOf_append {steps more : List Step} {v : Int} {c d : Schema}
    (h : schemaOf steps v = .ok c) (hd : Step.applyAll c more = .ok d) (w : Int) :
    schemaOf (steps ++ more) w = .ok (d.withVersion w) := by
  obtain ⟨t, ht, rfl⟩ := schemaOf_eq_ok.1 h
  rw [Step.applyAll_withVersion, Outcome.map_eq_ok] at hd
  obtain ⟨t', ht', rfl⟩ := hd
  refine schemaOf_eq_ok.2 ⟨t', ?_, rfl⟩
  rw [Step.applyAll_append]
  exact ⟨t, ht, ht'⟩

theorem Batch.schemaAt_append {batches : List Batch} {b : Batch} {c d : Schema}
    (h : Batch.schemaAt batches = .ok c) (hd : Step.applyAll c b.steps = .ok d) :
    Batch.schemaAt (batches ++ [b]) = .ok (d.withVersion b.version) := by
  simpa [Batch.schemaAt] using schemaOf_append h hd b.version

theorem Batch.version_of_schemaAt {batches : List Batch} {c : Schema}
    (h : Batch.schemaAt batches = .ok c) :
    c.version = (batches.getLast?.map (·.version)).getD 0 := by
  obtain ⟨t, -, rfl⟩ := schemaOf_eq_ok.1 h
  rfl

namespace Applied

variable {records : List Applied} {r : Applied} {c d : Schema}

theorem schemaAt_eq_ok : schemaAt records = .ok c ↔
    ∃ t, Step.applyAll .empty (records.flatMap (·.steps)) = .ok t ∧
      t.withVersion ((records.getLast?.map (·.version)).getD 0) = c :=
  schemaOf_eq_ok

/-- The schema of a history has the version of its last record. -/
theorem version_of_schemaAt (h : schemaAt records = .ok c) :
    c.version = (records.getLast?.map (·.version)).getD 0 := by
  obtain ⟨t, -, rfl⟩ := schemaAt_eq_ok.1 h
  rfl

theorem sound_of_schemaAt (hsteps : ∀ r ∈ records, ∀ p ∈ r.steps, p.Sound)
    (h : schemaAt records = .ok c) : c.Sound := by
  obtain ⟨t, ht, rfl⟩ := schemaAt_eq_ok.1 h
  refine Schema.Sound.withVersion (Step.sound_applyAll Schema.sound_empty (fun e he => ?_) ht) _
  obtain ⟨r, hr, hp⟩ := List.mem_flatMap.1 he
  exact hsteps r hr _ hp

/-- One more record is replayed on the schema of the others. -/
theorem schemaAt_append (h : schemaAt records = .ok c) (hr : Step.applyAll c r.steps = .ok d) :
    schemaAt (records ++ [r]) = .ok (d.withVersion r.version) := by
  simpa [schemaAt] using schemaOf_append h hr r.version

end Applied

namespace Migrator

variable {records : List Applied} {b : Batch} {rest : List Batch} {c schema : Schema}
  {label : String} {now : Timestamp}

theorem pending_desired (hc : Applied.schemaAt records = .ok c) :
    pending ⟨.desired schema, label⟩ now records =
      (Batch.between now c schema label (some (c.version + 1))).map (·.toList) := by
  rw [pending, hc]
  dsimp only
  cases hb : Batch.between now c schema label (some (c.version + 1)) <;>
    simp [liftSchema, Except.mapError, bind, Except.bind, hb, Except.map]

theorem between_eq_ok {version : Option Int} {batch : Option Batch} :
    Batch.between now c schema label version = .ok batch ↔ ∃ steps, diff c schema = .ok steps ∧
      ((steps = [] ∧ batch = none) ∨ (steps ≠ [] ∧ 1 ≤ version.getD (c.version + 1) ∧
        batch = some ⟨version.getD (c.version + 1), Batch.nameAt now label, steps⟩)) := by
  rw [Batch.between, Outcome.bind_eq_ok]
  refine exists_congr fun steps => ?_
  rw [liftDiff, Outcome.mapError_eq_ok]
  refine and_congr_right fun _ => ?_
  cases steps with
  | nil => simp [eq_comm]
  | cons step rest =>
    rw [Batch.make]
    by_cases hv : version.getD (c.version + 1) < 1
    · simp [hv, Except.map, Int.not_le.2 hv]
    · simp [hv, Except.map, Int.not_lt.1 hv, eq_comm]

/-- Nothing is pending exactly if the schema of the history does not differ from the desired one. -/
theorem pending_eq_nil (hc : Applied.schemaAt records = .ok c) :
    pending ⟨.desired schema, label⟩ now records = .ok [] ↔ diff c schema = .ok [] := by
  rw [pending_desired hc, Outcome.map_eq_ok]
  constructor
  · rintro ⟨batch, hbatch, hnil⟩
    obtain ⟨steps, hsteps, ⟨rfl, -⟩ | ⟨-, -, rfl⟩⟩ := between_eq_ok.1 hbatch
    · exact hsteps
    · cases hnil
  · intro hsteps
    exact ⟨none, between_eq_ok.2 ⟨[], hsteps, Or.inl ⟨rfl, rfl⟩⟩, rfl⟩

/-- A pending batch holds the difference, under the next version. -/
theorem pending_eq_cons (hc : Applied.schemaAt records = .ok c)
    (h : pending ⟨.desired schema, label⟩ now records = .ok (b :: rest)) :
    rest = [] ∧ b.version = c.version + 1 ∧ diff c schema = .ok b.steps := by
  rw [pending_desired hc, Outcome.map_eq_ok] at h
  obtain ⟨batch, hbatch, hcons⟩ := h
  obtain ⟨steps, hsteps, ⟨-, rfl⟩ | ⟨-, -, rfl⟩⟩ := between_eq_ok.1 hbatch
  · cases hcons
  · cases hcons
    exact ⟨rfl, rfl, hsteps⟩

end Migrator

end SchemaLedger
