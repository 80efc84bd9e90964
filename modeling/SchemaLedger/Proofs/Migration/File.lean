import SchemaLedger.Migration.Batch
import SchemaLedger.Proofs.Json.Lines
import SchemaLedger.Proofs.Migration.Recorded
import SchemaLedger.Proofs.Schema.Equivalence

set_option autoImplicit false

/-!
# Migration files

What is read of a file that batches were written to are the batches with their steps as documents keep
them. Nothing is lost of defaults that are documents themselves.
-/
namespace SchemaLedger

open Json (stored)

/-! ## Defaults that are kept -/

/-- The default is a document without infinities and with each name once. -/
def Field.Storable (f : Field) : Prop :=
  Json.isFiniteDocument f.default = true ∧ f.default.wellFormed = true

instance (f : Field) : Decidable f.Storable := inferInstanceAs (Decidable (_ ∧ _))

theorem Field.recorded_self {f : Field} (h : f.Storable) : f.recorded = f := by
  rw [Field.recorded, Json.stored_self h.1 h.2]

theorem Entity.recorded_self {e : Entity} (h : ∀ f ∈ e.fields, f.Storable) : e.recorded = e := by
  have hfields : e.fields.map Field.recorded = e.fields :=
    (List.map_congr_left fun f hf => Field.recorded_self (h f hf)).trans (List.map_id _)
  rw [Entity.recorded, hfields]

def Schema.Storable (s : Schema) : Prop := ∀ e ∈ s.entities, ∀ f ∈ e.fields, f.Storable

instance (s : Schema) : Decidable s.Storable :=
  inferInstanceAs (Decidable (∀ e ∈ s.entities, ∀ f ∈ e.fields, _))

theorem Schema.Storable.plainDefaults {s : Schema} (h : s.Storable) : s.PlainDefaults :=
  fun e he f hf => ⟨Json.nanFree_of_finite (h e he f hf).1, (h e he f hf).2⟩

namespace Step

/-- The fields that a step carries. -/
def fields : Step → List Field
  | .createEntity e => e.fields
  | .dropEntity e => e.fields
  | .addField _ f => [f]
  | .removeField _ f => [f]
  | .alterField _ f g => [f, g]
  | .addRelationship _ _ => []
  | .removeRelationship _ _ => []
  | .alterReference _ _ _ => []

def Storable (s : Step) : Prop := ∀ f ∈ s.fields, f.Storable

instance (s : Step) : Decidable s.Storable := inferInstanceAs (Decidable (∀ f ∈ s.fields, _))

theorem recorded_self {s : Step} (h : s.Storable) : s.recorded = s := by
  cases s with
  | createEntity e => rw [recorded, Entity.recorded_self h]
  | dropEntity e => rw [recorded, Entity.recorded_self h]
  | addField n f => rw [recorded, Field.recorded_self (h f (by simp [fields]))]
  | removeField n f => rw [recorded, Field.recorded_self (h f (by simp [fields]))]
  | alterField n f g =>
    rw [recorded, Field.recorded_self (h f (by simp [fields])),
      Field.recorded_self (h g (by simp [fields]))]
  | _ => rfl

theorem map_recorded_self {steps : List Step} (h : ∀ s ∈ steps, s.Storable) :
    steps.map recorded = steps :=
  (List.map_congr_left fun s hs => recorded_self (h s hs)).trans (List.map_id _)

end Step

/-! ## Batches read back -/

namespace Batch

/-- A batch that its checks accept. -/
structure Sound (b : Batch) : Prop where
  version : 1 ≤ b.version
  steps : ∀ s ∈ b.steps, s.Sound

def Storable (b : Batch) : Prop := ∀ s ∈ b.steps, s.Storable

instance (b : Batch) : Decidable b.Storable := inferInstanceAs (Decidable (∀ s ∈ b.steps, _))

/-- The batch that is read back of a stored one. -/
def recorded (b : Batch) : Batch := { b with steps := b.steps.map Step.recorded }

theorem recorded_self {b : Batch} (h : b.Storable) : b.recorded = b := by
  rw [recorded, Step.map_recorded_self h]

theorem sound_recorded {b : Batch} (h : b.Sound) : b.recorded.Sound := by
  refine ⟨h.version, fun s hs => ?_⟩
  obtain ⟨t, ht, rfl⟩ := List.mem_map.1 hs
  exact Step.sound_recorded (h.steps t ht)

theorem stored_toValue (b : Batch) : stored b.toValue = b.recorded.toValue := by
  rw [toValue, Json.stored_object (by simp)]
  simp [toValue, recorded, Json.stored_list, Step.stored_toValue, Function.comp_def]

theorem read_toValue {b : Batch} (h : b.Sound) : read b.toValue = .valid b := by
  have hsteps : Reading.tuple Step.read (.list (b.steps.map Step.toValue)) = .valid b.steps :=
    Checked.each_valid (fun s hs => Step.read_toValue (h.steps s hs)) 0
  have hversion : Reading.integerFrom 1 (.int b.version) = .valid b.version := by
    rw [Reading.integerFrom, Reading.integer]
    exact if_neg (Int.not_lt.2 h.version)
  simp [read, toValue, Reading.shaped, Reading.required, Reading.part, Entries.get?, Reading.text,
    hsteps, hversion]

/-- Whatever stands in the file, the batches that are read of it are sound. -/
theorem sound_of_read {v : Value} {b : Batch} (h : read v = .valid b) : b.Sound := by
  obtain ⟨es, h⟩ := Reading.exists_of_shaped h
  simp only [Checked.seq_eq_valid, Checked.map_eq_valid] at h
  obtain ⟨_, steps, ⟨_, name, ⟨version, hversion, rfl⟩, -, rfl⟩, hsteps, rfl⟩ := h
  refine ⟨?_, ?_⟩
  · obtain ⟨v, hv⟩ := Reading.exists_of_required hversion
    rw [Reading.integerFrom] at hv
    split at hv
    case h_1 n _ =>
      split at hv
      case isTrue => cases hv
      case isFalse hn =>
        cases hv
        exact Int.not_lt.1 hn
    case h_2 n hn => exact absurd hv (hn version)
  · rcases Reading.exists_of_part hsteps with rfl | ⟨v, hv⟩
    · simp
    · intro s hs
      obtain ⟨w, hw⟩ := Reading.exists_of_tuple hv s hs
      exact Step.sound_of_read hw

end Batch

namespace File

theorem readText_written {v : Value} {blanks : String} (hb : Json.Blank blanks.toList)
    (hu : Json.Unbroken blanks) : readText (Json.render .indented (Json.toDocument v) ++ blanks) =
      .ok (stored v) := by
  have hlines := Json.unbroken_append
    (Json.unbroken_renderAt Json.unbroken_indented (Json.toDocument v) 0) hu
  rw [readText, Json.render, Text.unixLines_self hlines, String.ofList_toList]
  exact Json.read_render_blank Json.readable_indented (Json.keeps_toDocument _ v) hb

/-- The text of sound batches is read as the recorded batches. -/
theorem batches_recorded (path : String) {bs : List Batch} (h : ∀ b ∈ bs, b.Sound) :
    batches path (some (ofBatches bs)) = .ok (bs.map Batch.recorded) := by
  have htext : ofBatches bs = Json.render .indented
      (Json.toDocument (.object [("migrations", .list (bs.map Batch.toValue))])) ++ "\n" := by
    simp only [ofBatches, Json.toDocument, Json.toDocumentEntries, Json.toDocuments_eq, List.map_map,
      Function.comp_def]
  have hstored : stored (.object [("migrations", .list (bs.map Batch.toValue))]) =
      .object [("migrations", .list ((bs.map Batch.recorded).map Batch.toValue))] := by
    rw [Json.stored_object (by simp), List.map_singleton, Json.stored_list, List.map_map, List.map_map]
    simp [Function.comp_def, Batch.stored_toValue]
  have hread : Batch.readAll (.list ((bs.map Batch.recorded).map Batch.toValue)) =
      .valid (bs.map Batch.recorded) := by
    refine Checked.each_valid (fun b hb => ?_) 0
    obtain ⟨c, hc, rfl⟩ := List.mem_map.1 hb
    exact Batch.read_toValue (Batch.sound_recorded (h c hc))
  rw [batches, htext, readText_written (by simp [Json.Blank, Json.isBlank]) (by simp [Json.Unbroken]),
    hstored]
  have hentry : ∀ v : Value, (Entries.get? "migrations" [("migrations", v)]).getD (.list []) = v :=
    fun v => rfl
  simp only [hentry, hread]

theorem batches_self (path : String) {bs : List Batch} (h : ∀ b ∈ bs, b.Sound)
    (hs : ∀ b ∈ bs, b.Storable) : batches path (some (ofBatches bs)) = .ok bs := by
  rw [batches_recorded path h]
  exact congrArg _ ((List.map_congr_left fun b hb => Batch.recorded_self (hs b hb)).trans
    (List.map_id _))

/-- A text that describes entities. -/
def ofEntities (es : List Entity) : String :=
  Json.render .indented (Json.toDocument (.list (es.map Entity.toValue))) ++ "\n"

/-- A description of a valid schema with storable defaults is read as the schema. -/
theorem schema_self (path : String) {es : List Entity} (h : (⟨0, es⟩ : Schema).Valid)
    (hs : (⟨0, es⟩ : Schema).Storable) : schema path (some (ofEntities es)) = .ok ⟨0, es⟩ := by
  have hstored : stored (.list (es.map Entity.toValue)) = .list (es.map Entity.toValue) := by
    rw [Json.stored_list, List.map_map]
    refine congrArg _ (List.map_congr_left fun e he => ?_)
    rw [Function.comp_apply, Entity.stored_toValue, Entity.recorded_self (hs e he)]
  rw [schema, ofEntities, readText_written (by simp [Json.Blank, Json.isBlank])
    (by simp [Json.Unbroken]), hstored]
  simp only [Schema.build_toValue h, liftSchema, Except.mapError]

end File

namespace Batch

/-- A note with a nested default, a writer and labels. -/
def note : Entity where
  name := "Note"
  fields := [{ name := "id", type := .bigint, primaryKey := true, auto := true },
    { name := "layout", type := .json, default := .object [("size", .list [.int 2, .null]),
      ("title", .object [("text", .text "\r\n"), ("bold", .bool true)])] }]
  relationships := [.single { name := "writer", target := "Note", nullable := true },
    .many { name := "labels", target := "Note" }]

def rating : Field := { name := "rating", type := .real, default := .float .zero }

def notes : List Batch :=
  [⟨1, "one", [.createEntity note]⟩,
    ⟨2, "two", [.addField "Note" rating, .alterField "Note" rating { rating with name := "rank" },
      .alterReference "Note" { name := "writer", target := "Note", nullable := true }
        { name := "writer", target := "Note" }]⟩]

end Batch

end SchemaLedger
