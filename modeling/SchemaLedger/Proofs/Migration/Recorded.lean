import SchemaLedger.Migration.HistoryTable
import SchemaLedger.Proofs.Calendar
import SchemaLedger.Proofs.Json.Stored
import SchemaLedger.Proofs.Outcome
import SchemaLedger.Proofs.Schema.Reading

set_option autoImplicit false

/-!
# Recorded steps

The steps of a batch are stored as a document. What is read back of it are the steps with their
defaults as documents keep them; what is read back of the row is the record with these steps.
-/
namespace SchemaLedger

open Json (stored)

/-- The field that is read back of a stored one. -/
def Field.recorded (f : Field) : Field := { f with default := stored f.default }

def Entity.recorded (e : Entity) : Entity := { e with fields := e.fields.map Field.recorded }

namespace Step

def recorded : Step → Step
  | .createEntity e => .createEntity e.recorded
  | .dropEntity e => .dropEntity e.recorded
  | .addField n f => .addField n f.recorded
  | .removeField n f => .removeField n f.recorded
  | .alterField n f g => .alterField n f.recorded g.recorded
  | .addRelationship n r => .addRelationship n r
  | .removeRelationship n r => .removeRelationship n r
  | .alterReference n r q => .alterReference n r q

/-- A step whose entity or fields pass their own checks. -/
def Sound : Step → Prop
  | .createEntity e => e.Sound
  | .dropEntity e => e.Sound
  | .addField _ f => f.check = .ok ()
  | .removeField _ f => f.check = .ok ()
  | .alterField _ f g => f.check = .ok () ∧ g.check = .ok ()
  | _ => True

end Step

/-! ## Stored descriptions -/

theorem Field.stored_toValue (f : Field) : stored f.toValue = f.recorded.toValue :=
  Json.stored_object (by simp)

theorem Reference.stored_toValue (r : Reference) : stored r.toValue = r.toValue :=
  Json.stored_object (by simp)

theorem Relationship.stored_toValue (r : Relationship) : stored r.toValue = r.toValue := by
  cases r with
  | single r => exact Json.stored_object (by simp)
  | many l => exact Json.stored_object (by simp)

theorem Entity.stored_toValue (e : Entity) : stored e.toValue = e.recorded.toValue := by
  rw [Entity.toValue, Json.stored_object (by simp)]
  simp [Json.stored_list, Entity.toValue, Entity.recorded, Field.stored_toValue,
    Relationship.stored_toValue, Function.comp_def]

theorem Step.stored_toValue (s : Step) : stored s.toValue = s.recorded.toValue := by
  cases s with
  | createEntity e =>
    rw [Step.toValue, Json.stored_object (by simp)]
    simp [Step.recorded, Step.toValue, Entity.stored_toValue]
  | dropEntity e =>
    rw [Step.toValue, Json.stored_object (by simp)]
    simp [Step.recorded, Step.toValue, Entity.stored_toValue]
  | addField n f =>
    rw [Step.toValue, Json.stored_object (by simp)]
    simp [Step.recorded, Step.toValue, Field.stored_toValue]
  | removeField n f =>
    rw [Step.toValue, Json.stored_object (by simp)]
    simp [Step.recorded, Step.toValue, Field.stored_toValue]
  | alterField n f g =>
    rw [Step.toValue, Json.stored_object (by simp)]
    simp [Step.recorded, Step.toValue, Field.stored_toValue]
  | addRelationship n r =>
    rw [Step.toValue, Json.stored_object (by simp)]
    simp [Step.recorded, Step.toValue, Relationship.stored_toValue]
  | removeRelationship n r =>
    rw [Step.toValue, Json.stored_object (by simp)]
    simp [Step.recorded, Step.toValue, Relationship.stored_toValue]
  | alterReference n r q =>
    rw [Step.toValue, Json.stored_object (by simp)]
    simp [Step.recorded, Step.toValue, Reference.stored_toValue]

/-! ## Sound parts stay sound -/

theorem Field.check_eq_ok (f : Field) : f.check = .ok () ↔
    f.default.isNull = true ∨ f.type.canDefault = true ∧ fits f.type f.default = true := by
  unfold Field.check
  cases f.default.isNull <;> cases f.type.canDefault <;> cases fits f.type f.default <;> simp

/-- A default that fits a type still fits it after it was stored, or is gone. -/
theorem Field.fits_stored {t : LogicalType} {v : Value} (h : fits t v = true) :
    (stored v).isNull = true ∨ fits t (stored v) = true := by
  cases t with
  | json => exact Or.inr rfl
  | real =>
    cases v with
    | int n => exact Or.inr rfl
    | float x =>
      rw [Json.stored, Json.toDocument]
      cases x.isFinite with
      | false => exact Or.inl rfl
      | true => exact Or.inr rfl
    | _ => cases h
  | _ =>
    cases v <;> first
      | exact Or.inr rfl
      | cases h

theorem Field.check_recorded {f : Field} (h : f.check = .ok ()) : f.recorded.check = .ok () := by
  rw [Field.check_eq_ok] at h ⊢
  rcases h with hnull | ⟨hcan, hfits⟩
  · left
    obtain ⟨name, type, nullable, default, key, auto, unique⟩ := f
    cases default with
    | null => rfl
    | _ => cases hnull
  · exact (Field.fits_stored hfits).imp_right fun h => ⟨hcan, h⟩

theorem Field.sound_recorded {f : Field} (h : f.Sound) : f.recorded.Sound :=
  ⟨Field.check_recorded h.default, h.named, h.key, h.auto, h.unique⟩

theorem Entity.fieldNames_recorded (e : Entity) : e.recorded.fieldNames = e.fieldNames := by
  simp [Entity.fieldNames, Entity.recorded, Field.recorded, Function.comp_def]

theorem Entity.keys_recorded (e : Entity) : e.recorded.keys = e.keys.map Field.recorded := by
  simp [Entity.keys, Entity.recorded, Field.recorded, List.filter_map, Function.comp_def]

theorem Entity.sound_recorded {e : Entity} (h : e.Sound) : e.recorded.Sound := by
  obtain ⟨k, hk⟩ := h.key
  refine ⟨?_, fun f hf => ?_, h.references, k.recorded, ?_⟩
  · rw [Entity.memberNames, Entity.fieldNames_recorded]
    exact h.members
  · obtain ⟨g, hg, rfl⟩ := List.mem_map.1 hf
    exact Field.sound_recorded (h.fields g hg)
  · rw [Entity.keys_recorded, hk]
    rfl

theorem Step.sound_recorded {s : Step} (h : s.Sound) : s.recorded.Sound := by
  cases s with
  | createEntity e => exact Entity.sound_recorded h
  | dropEntity e => exact Entity.sound_recorded h
  | addField n f => exact Field.check_recorded h
  | removeField n f => exact Field.check_recorded h
  | alterField n f g => exact ⟨Field.check_recorded h.1, Field.check_recorded h.2⟩
  | _ => trivial

/-! ## Steps read back -/

theorem Step.read_toValue {s : Step} (h : s.Sound) : Step.read s.toValue = .valid s := by
  cases s with
  | createEntity e =>
    simp [Step.read, Step.toValue, Reading.tagged, Step.kinds, Step.readTagged, Reading.required,
      Entries.get?, Entity.read_toValue h]
  | dropEntity e =>
    simp [Step.read, Step.toValue, Reading.tagged, Step.kinds, Step.readTagged, Reading.required,
      Entries.get?, Entity.read_toValue h]
  | addField n f =>
    simp [Step.read, Step.toValue, Reading.tagged, Step.kinds, Step.readTagged, Reading.required,
      Entries.get?, Reading.text, Field.read_toValue h]
  | removeField n f =>
    simp [Step.read, Step.toValue, Reading.tagged, Step.kinds, Step.readTagged, Reading.required,
      Entries.get?, Reading.text, Field.read_toValue h]
  | alterField n f g =>
    simp [Step.read, Step.toValue, Reading.tagged, Step.kinds, Step.readTagged, Reading.required,
      Entries.get?, Reading.text, Field.read_toValue h.1, Field.read_toValue h.2]
  | addRelationship n r =>
    simp [Step.read, Step.toValue, Reading.tagged, Step.kinds, Step.readTagged, Reading.required,
      Entries.get?, Reading.text, Relationship.read_toValue]
  | removeRelationship n r =>
    simp [Step.read, Step.toValue, Reading.tagged, Step.kinds, Step.readTagged, Reading.required,
      Entries.get?, Reading.text, Relationship.read_toValue]
  | alterReference n r q =>
    simp [Step.read, Step.toValue, Reading.tagged, Step.kinds, Step.readTagged, Reading.required,
      Entries.get?, Reading.text, Reference.read_toValue]

theorem Step.sound_of_read {v : Value} {s : Step} (h : Step.read v = .valid s) : s.Sound := by
  obtain ⟨kind, es, h⟩ := Reading.exists_of_tagged h
  rw [Step.readTagged] at h
  split at h
  · obtain ⟨e, he, rfl⟩ := (Checked.map_eq_valid _ _ _).1 h
    obtain ⟨v, hv⟩ := Reading.exists_of_required he
    exact Entity.sound_of_read hv
  split at h
  · obtain ⟨e, he, rfl⟩ := (Checked.map_eq_valid _ _ _).1 h
    obtain ⟨v, hv⟩ := Reading.exists_of_required he
    exact Entity.sound_of_read hv
  split at h
  · simp only [Checked.seq_eq_valid, Checked.map_eq_valid] at h
    obtain ⟨_, f, ⟨n, -, rfl⟩, hf, rfl⟩ := h
    obtain ⟨v, hv⟩ := Reading.exists_of_required hf
    exact Field.check_of_read hv
  split at h
  · simp only [Checked.seq_eq_valid, Checked.map_eq_valid] at h
    obtain ⟨_, f, ⟨n, -, rfl⟩, hf, rfl⟩ := h
    obtain ⟨v, hv⟩ := Reading.exists_of_required hf
    exact Field.check_of_read hv
  split at h
  · simp only [Checked.seq_eq_valid, Checked.map_eq_valid] at h
    obtain ⟨_, g, ⟨_, f, ⟨n, -, rfl⟩, hf, rfl⟩, hg, rfl⟩ := h
    obtain ⟨v, hv⟩ := Reading.exists_of_required hf
    obtain ⟨w, hw⟩ := Reading.exists_of_required hg
    exact ⟨Field.check_of_read hv, Field.check_of_read hw⟩
  split at h
  · simp only [Checked.seq_eq_valid, Checked.map_eq_valid] at h
    obtain ⟨_, r, ⟨n, -, rfl⟩, -, rfl⟩ := h
    trivial
  split at h
  · simp only [Checked.seq_eq_valid, Checked.map_eq_valid] at h
    obtain ⟨_, r, ⟨n, -, rfl⟩, -, rfl⟩ := h
    trivial
  · simp only [Checked.seq_eq_valid, Checked.map_eq_valid] at h
    obtain ⟨_, g, ⟨_, f, ⟨n, -, rfl⟩, -, rfl⟩, -, rfl⟩ := h
    trivial

namespace HistoryTable

/-- The text of sound steps is read as the recorded steps. -/
theorem readSteps_stepsText {steps : List Step} (h : ∀ s ∈ steps, s.Sound) :
    readSteps (.text (stepsText steps)) = .ok (steps.map Step.recorded) := by
  have hdoc : stepsText steps =
      Json.render .compact (Json.toDocument (.list (steps.map Step.toValue))) := by
    rw [stepsText, Json.toDocument, Json.toDocuments_eq, List.map_map]
    rfl
  have hstored : stored (.list (steps.map Step.toValue)) =
      .list ((steps.map Step.recorded).map Step.toValue) := by
    rw [Json.stored_list, List.map_map, List.map_map]
    simp [Function.comp_def, Step.stored_toValue]
  have hread : Reading.list Step.read (.list ((steps.map Step.recorded).map Step.toValue)) =
      .valid (steps.map Step.recorded) := by
    refine Checked.each_valid (fun s hs => ?_) 0
    obtain ⟨t, ht, rfl⟩ := List.mem_map.1 hs
    exact Step.read_toValue (Step.sound_recorded (h t ht))
  rw [readSteps, hdoc, Json.read_render_toDocument Json.readable_compact, hstored]
  simp only [stepsOfDocument, hread]

/-- Whatever stands in the table, the steps that are read of it are sound. -/
theorem sound_of_readSteps {v : Value} {steps : List Step} (h : readSteps v = .ok steps) :
    ∀ s ∈ steps, s.Sound := by
  cases v with
  | text t =>
    rw [readSteps] at h
    split at h
    case h_1 document _ =>
      rw [stepsOfDocument] at h
      split at h
      case h_1 found hfound =>
        cases h
        intro s hs
        obtain ⟨v, hv⟩ := Reading.exists_of_list hfound s hs
        exact Step.sound_of_read hv
      all_goals cases h
    case h_2 => cases h
  | _ => cases h

end HistoryTable

/-! ## Rows of the history table -/

/-- The record that is read back of a stored one. -/
def Applied.recorded (r : Applied) : Applied := { r with steps := r.steps.map Step.recorded }

namespace HistoryTable

open Sql.Binding (bind? readCell)

variable {d : Dialect} {r : Applied} {row : List Value}

/-- The cells that a database keeps of a record. -/
def cells (d : Dialect) (r : Applied) : List Value :=
  match d with
  | .sqlite => [.int r.version, .text r.name, .text (stepsText r.steps), .text r.appliedAt.stored]
  | .postgresql => HistoryTable.row r

/-- The cells are what the driver is given for the columns. -/
theorem bind?_insert (d : Dialect) (r : Applied) :
    (insert r).assignments.map (fun a => bind? d a.type a.value) =
      (cells d r).map fun v => some (.plain v) := by
  cases d <;> rfl

/-- A record of sound steps is read back with what documents keep of its steps. -/
theorem decode_cells (h : ∀ s ∈ r.steps, s.Sound) : decode d (cells d r) = .ok r.recorded := by
  have hsteps := readSteps_stepsText h
  cases d with
  | sqlite =>
    have htime : Sql.Binding.denoted r.appliedAt.stored (Timestamp.ofIso? r.appliedAt.stored) =
        .ok r.appliedAt := by
      rw [Timestamp.ofIso?_stored, Sql.Binding.denoted]
    have hrow : Sql.Binding.readRow .sqlite types (cells .sqlite r) = .ok (HistoryTable.row r) := by
      simp [types, columns, version, cells, HistoryTable.row, Sql.Binding.readRow,
        Sql.Binding.read, readCell, htime, Except.map, bind, Except.bind]
    rw [decode, hrow]
    simp [HistoryTable.row, readRow, hsteps, Applied.recorded, bind, Except.bind]
  | postgresql =>
    have hrow : Sql.Binding.readRow .postgresql types (HistoryTable.row r) =
        .ok (HistoryTable.row r) := rfl
    rw [decode, cells, hrow]
    simp [HistoryTable.row, readRow, hsteps, Applied.recorded, bind, Except.bind]

theorem readRow_eq_ok {values : List Value} (h : readRow values = .ok r) :
    values.head? = some (.int r.version) ∧ ∀ s ∈ r.steps, s.Sound := by
  unfold readRow at h
  split at h
  · rw [Outcome.bind_eq_ok] at h
    obtain ⟨steps, hsteps, h⟩ := h
    cases h
    exact ⟨rfl, sound_of_readSteps hsteps⟩
  · cases h

/-- Whatever stands in a row that is read, its first cell is the version and its steps are sound. -/
theorem of_decode (h : decode d row = .ok r) :
    row.head? = some (.int r.version) ∧ ∀ s ∈ r.steps, s.Sound := by
  rw [decode, Outcome.bind_eq_ok] at h
  obtain ⟨values, hvalues, h⟩ := h
  obtain ⟨hhead, hsteps⟩ := readRow_eq_ok h
  refine ⟨?_, hsteps⟩
  cases row with
  | nil =>
    cases hvalues
    cases hhead
  | cons v rest =>
    obtain ⟨v', hv, hrest⟩ := (Outcome.bind_eq_ok _ _ _).1 hvalues
    obtain ⟨rest', -, h'⟩ := (Outcome.bind_eq_ok _ _ _).1 hrest
    cases h'
    cases hhead
    cases d with
    | sqlite =>
      cases v <;> cases hv
      rfl
    | postgresql =>
      cases hv
      rfl

end HistoryTable

end SchemaLedger
