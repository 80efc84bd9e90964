import SchemaLedger.Migration.Diff
import SchemaLedger.Proofs.Schema.Declarations

set_option autoImplicit false

/-!
# What the differ returns

`diff_eq_ok` says when there is a difference of two schemas and which steps it consists of: a falling
and a rising half, each a concatenation of phases. Nothing fails but a field whose type or identity
cannot change, and a cycle of references among the entities dropped or created.
-/
namespace SchemaLedger.Diff

/-- Whether a field can become another one of the same name. -/
def Alterable (old new : Field) : Prop :=
  old.same new = true ∨ keepsIdentity old new = true ∧ old.type.canConvert new.type = true

theorem alteration_eq_ok (n : String) (old new : Field) (st : Option Step) :
    alteration n old new = .ok st ↔
      Alterable old new ∧ st = if old.same new then none else some (.alterField n old new) := by
  unfold alteration Alterable
  cases hs : old.same new with
  | true => simpa using eq_comm
  | false =>
    cases hi : keepsIdentity old new with
    | false => simp
    | true =>
      cases hc : old.type.canConvert new.type with
      | false => simp
      | true => simpa using eq_comm

def alterations (old new : Entity) : List Step :=
  new.fields.filterMap fun f => (old.field? f.name).bind fun before =>
    if before.same f then none else some (.alterField old.name before f)

/-- Whether the fields that two entities share can change as they have to. -/
def Compatible (old new : Entity) : Prop :=
  ∀ f ∈ new.fields, ∀ before, old.field? f.name = some before → Alterable before f

/-- The step for a field of the new side, from the field of its name on the old side. -/
def alteredField (old : Entity) (f : Field) : Except DiffFault (Option Step) :=
  match old.field? f.name with
  | none => .ok none
  | some before => alteration old.name before f

theorem alteredField_eq_ok (old : Entity) (f : Field) (st : Option Step) :
    alteredField old f = .ok st ↔
      (∀ before, old.field? f.name = some before → Alterable before f) ∧
        st = (old.field? f.name).bind fun before =>
          if before.same f then none else some (.alterField old.name before f) := by
  unfold alteredField
  cases old.field? f.name with
  | none => simpa using eq_comm
  | some before => simp [alteration_eq_ok]

theorem alteredFields_eq_ok (old new : Entity) (steps : List Step) :
    alteredFields old new = .ok steps ↔ Compatible old new ∧ steps = alterations old new := by
  have hall := Outcome.mapM_eq_ok (alteredField_eq_ok old) new.fields
  unfold alteredFields
  rw [Outcome.bind_eq_ok]
  constructor
  · rintro ⟨ys, hys, h⟩
    obtain ⟨hc, rfl⟩ := (hall ys).1 hys
    refine ⟨hc, (Except.ok.inj h).symm.trans ?_⟩
    rw [List.filterMap_map]
    rfl
  · rintro ⟨hc, rfl⟩
    refine ⟨_, (hall _).2 ⟨hc, rfl⟩, congrArg Except.ok ?_⟩
    rw [List.filterMap_map]
    rfl

def phasesOf (old new : Entity) : Phases where
  removeLinks := ((replaced old new).filter isMany).map (.removeRelationship old.name)
  removeReferences := ((replaced old new).filter (!isMany ·)).map (.removeRelationship old.name)
  removeFields := removedFields old new
  addFields := addedFields old new
  alterFields := alterations old new
  alterReferences := old.relationships.filterMap (alteredReference old.name new)
  addReferences := ((replaced new old).filter (!isMany ·)).map (.addRelationship old.name)
  addLinks := ((replaced new old).filter isMany).map (.addRelationship old.name)

theorem ofEntity_eq_ok (old new : Entity) (p : Phases) :
    ofEntity old new = .ok p ↔ Compatible old new ∧ p = phasesOf old new := by
  rw [ofEntity, Outcome.bind_eq_ok]
  simp only [alteredFields_eq_ok]
  constructor
  · rintro ⟨_, ⟨hc, rfl⟩, h⟩
    exact ⟨hc, (Except.ok.inj h).symm⟩
  · rintro ⟨hc, rfl⟩
    exact ⟨_, ⟨hc, rfl⟩, rfl⟩

/-- A phase of all pairs is the phases of the pairs in order. -/
theorem phase_foldl {phase : Phases → List Step} (hnil : phase {} = [])
    (happ : ∀ p q, phase (p.append q) = phase p ++ phase q) (ps : List Phases) :
    phase (ps.foldl Phases.append {}) = ps.flatMap phase := by
  have hfrom : ∀ p : Phases, phase (ps.foldl Phases.append p) = phase p ++ ps.flatMap phase := by
    induction ps with
    | nil => simp
    | cons q rest ih =>
      intro p
      rw [List.foldl_cons, ih, happ, List.flatMap_cons, List.append_assoc]
  rw [hfrom, hnil, List.nil_append]

/-- One phase of all entities that stay. -/
def together (a b : Schema) (phase : Phases → List Step) : List Step :=
  (kept a b).flatMap fun p => phase (phasesOf p.1 p.2)

def falling (a b : Schema) (drops : List Entity) : List Step :=
  (created b a).flatMap (linkSteps .removeRelationship) ++ together a b (·.removeLinks) ++
    together a b (·.removeReferences) ++ together a b (·.removeFields) ++
    drops.reverse.map (fun e => .dropEntity e.withoutLinks)

def rising (a b : Schema) (creates : List Entity) : List Step :=
  creates.map (fun e => .createEntity e.withoutLinks) ++ together a b (·.addFields) ++
    together a b (·.alterFields) ++ together a b (·.alterReferences) ++
    together a b (·.addReferences) ++ together a b (·.addLinks) ++
    (created a b).flatMap (linkSteps .addRelationship)

theorem phase_together (a b : Schema) (phase : Phases → List Step) (hnil : phase {} = [])
    (happ : ∀ p q, phase (p.append q) = phase p ++ phase q) :
    phase (((kept a b).map fun p => phasesOf p.1 p.2).foldl Phases.append {}) =
      together a b phase := by
  rw [phase_foldl hnil happ, List.flatMap_map]
  rfl

theorem phases_in_order (a b : Schema) (drops creates : List Entity) :
    let all := ((kept a b).map fun p => phasesOf p.1 p.2).foldl Phases.append {}
    (created b a).flatMap (linkSteps .removeRelationship) ++ all.removeLinks ++
        all.removeReferences ++ all.removeFields ++
        drops.reverse.map (fun e => .dropEntity e.withoutLinks) ++
        creates.map (fun e => .createEntity e.withoutLinks) ++ all.addFields ++ all.alterFields ++
        all.alterReferences ++ all.addReferences ++ all.addLinks ++
        (created a b).flatMap (linkSteps .addRelationship) =
      falling a b drops ++ rising a b creates := by
  intro all
  have hall := phase_together a b
  rw [hall (·.removeLinks) rfl fun _ _ => rfl, hall (·.removeReferences) rfl fun _ _ => rfl,
    hall (·.removeFields) rfl fun _ _ => rfl, hall (·.addFields) rfl fun _ _ => rfl,
    hall (·.alterFields) rfl fun _ _ => rfl, hall (·.alterReferences) rfl fun _ _ => rfl,
    hall (·.addReferences) rfl fun _ _ => rfl, hall (·.addLinks) rfl fun _ _ => rfl]
  simp only [falling, rising, List.append_assoc]

theorem diff_eq_ok (a b : Schema) (steps : List Step) :
    diff a b = .ok steps ↔
      (∀ p ∈ kept a b, Compatible p.1 p.2) ∧
        ∃ drops creates, orderOf (created b a) a = .ok drops ∧
          orderOf (created a b) b = .ok creates ∧ steps = falling a b drops ++ rising a b creates := by
  have hphases := Outcome.mapM_eq_ok (fun p q => ofEntity_eq_ok p.1 p.2 q) (kept a b)
  have horder := phases_in_order a b
  rw [diff, Outcome.bind_eq_ok]
  simp only [Outcome.bind_eq_ok]
  constructor
  · rintro ⟨ps, hps, drops, hd, creates, hcr, h⟩
    obtain ⟨hc, rfl⟩ := (hphases ps).1 hps
    exact ⟨hc, drops, creates, hd, hcr, (Except.ok.inj h).symm.trans (horder drops creates)⟩
  · rintro ⟨hc, drops, creates, hd, hcr, rfl⟩
    exact ⟨_, (hphases _).2 ⟨hc, rfl⟩, drops, hd, creates, hcr, congrArg Except.ok (horder drops creates)⟩

end SchemaLedger.Diff
