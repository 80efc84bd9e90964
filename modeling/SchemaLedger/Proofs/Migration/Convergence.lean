import SchemaLedger.Proofs.Migration.Agreement
import SchemaLedger.Proofs.Migration.DiffReplay

set_option autoImplicit false

/-!
# After a difference was recorded

The steps from `a` to `b` are applied, recorded and read back. The schema that the record leads to is
like `b`, and the difference that is left is empty exactly if the defaults survive being stored.
-/
namespace SchemaLedger

namespace Step

theorem adds_recorded {step : Step} {n : String} {f : Field}
    (h : step.recorded.Adds (.field n f)) : ∃ g, g.recorded = f ∧ step.Adds (.field n g) := by
  cases step with
  | createEntity e =>
    obtain ⟨rfl, hf⟩ := h
    obtain ⟨g, hg, rfl⟩ := List.mem_map.1 hf
    exact ⟨g, rfl, rfl, hg⟩
  | addField m g =>
    cases h
    exact ⟨g, rfl, rfl⟩
  | alterField m g g' =>
    cases h
    exact ⟨g', rfl, rfl⟩
  | addRelationship m r => cases h
  | alterReference m r q => cases h
  | _ => exact h.elim

theorem removes_recorded (step : Step) (d : Declaration) :
    step.recorded.Removes d ↔ step.Removes d := by
  cases step <;> cases d <;> exact Iff.rfl

/-- What a step removes it removes by its name. -/
theorem removes_field_congr (step : Step) (n : String) {f g : Field} (h : f.name = g.name) :
    step.Removes (.field n f) ↔ step.Removes (.field n g) := by
  cases step <;> simp [Removes, Declaration.owner, h]

theorem Respects.recorded {p q : Step} (h : Respects p q) : Respects p.recorded q.recorded := by
  intro d hadd hrem
  rw [removes_recorded] at hrem
  cases d with
  | entity n =>
    refine h (.entity n) ?_ hrem
    cases p <;> first
      | exact hadd
      | cases hadd
  | field n f =>
    obtain ⟨g, rfl, hg⟩ := adds_recorded hadd
    have hname : g.recorded.name = g.name := rfl
    exact h _ hg ((removes_field_congr q n hname).1 hrem)
  | relationship n r =>
    refine h (.relationship n r) ?_ hrem
    cases p <;> first
      | exact hadd
      | cases hadd

end Step

namespace Diff

open Step (applyAll)
open Schema (Alike)
open Json (stored)

variable {a b c d : Schema} {steps down up : List Step} {n : String}

/-- A draft leads to a schema like the one it is for. -/
theorem Draft.alike (h : Draft a b down up) (ha : a.Sound) (hb : b.Sound)
    (hrun : applyAll a (down ++ up) = .ok c) : Alike c b := by
  have hfield : ∀ n f, c.Declares (.field n f) → ∃ g, b.Declares (.field n g) ∧
      g.bare = f.bare := by
    intro n f hf
    rcases h.field_of_end ha hb hrun hf with hfb | ⟨hfa, g, hg, hn, hin⟩
    · exact ⟨f, hfb, rfl⟩
    · refine ⟨g, hg, (Field.bare_of_same ?_).symm⟩
      by_contra hs
      exact hin ((h.altered n f g).2 ⟨hfa, hg, hn, Bool.eq_false_iff.2 hs⟩)
  intro x
  cases x with
  | entity n =>
    rw [Schema.declares_bare_entity, Schema.declares_bare_entity, h.entity_iff ha hb hrun]
  | relationship n r =>
    rw [Schema.declares_bare_relationship, Schema.declares_bare_relationship,
      h.relationship_iff ha hb hrun]
  | field n f =>
    rw [Schema.declares_bare_field, Schema.declares_bare_field]
    constructor
    · rintro ⟨g, hg, rfl⟩
      exact hfield n g hg
    · rintro ⟨g, hg, rfl⟩
      obtain ⟨g', hg', hn⟩ := h.exists_field ha hb hrun hg
      obtain ⟨g'', hg'', hbare⟩ := hfield n g' hg'
      obtain rfl := hb.field_unique hg hg'' (hn.symm.trans (Field.name_of_bare hbare).symm)
      exact ⟨g', hg', hbare.symm⟩

/-- The steps of a draft hold sound entities and fields only. -/
theorem Draft.sound_steps (h : Draft a b down up) (ha : a.Sound) (hb : b.Sound) :
    ∀ p ∈ down ++ up, p.Sound := by
  have hcheck : ∀ {s : Schema} {n f}, s.Sound → s.Declares (.field n f) → f.check = .ok () := by
    rintro s _ f hs ⟨e, he, -, hf⟩
    exact ((hs.entities e he).fields f hf).default
  intro p hp
  have hprop := h.proposed p hp
  cases p with
  | createEntity e =>
    obtain ⟨-, g, hg, rfl⟩ := hprop
    exact (withoutLinks_partOf (hb.entities g hg)).sound (hb.entities g hg)
  | dropEntity e =>
    rcases List.mem_append.1 hp with hp | hp
    · obtain ⟨g, hg, rfl⟩ := h.sources e hp
      exact (withoutLinks_partOf (ha.entities g hg)).sound (ha.entities g hg)
    · exact absurd (h.rises _ hp) (by simp [shrinks])
  | addField n f => exact hcheck hb hprop.2.1
  | removeField n f => exact hcheck ha hprop.2.1
  | alterField n f g => exact ⟨hcheck ha hprop.1, hcheck hb hprop.2.1⟩
  | _ => trivial

/-- The steps of a difference hold sound entities and fields only. -/
theorem sound_of_diff (ha : a.Sound) (hb : b.Sound) (hdiff : diff a b = .ok steps) :
    ∀ p ∈ steps, p.Sound := by
  obtain ⟨down, up, rfl, h⟩ := draft_of_diff ha hb hdiff
  exact h.sound_steps ha hb

/-- Whether each field of `b` is as it should be in `a`, or has a default that documents keep. -/
def Survives (a b : Schema) : Prop :=
  ∀ n f, b.Declares (.field n f) →
    (∃ g, a.Declares (.field n g) ∧ g.same f = true) ∨ (stored f.default).same f.default = true

theorem same_recorded (f : Field) :
    f.recorded.same f = (stored f.default).same f.default := by
  simp [Field.same, Field.recorded]

/-- The steps of a draft put no field that was in place before. -/
theorem Draft.not_same_of_adds (h : Draft a b down up) (ha : a.Sound) {p : Step}
    (hp : p ∈ down ++ up) {e g : Field} (hadd : p.Adds (.field n g))
    (he : a.Declares (.field n e)) (hname : e.name = g.name) : e.same g = false := by
  have hprop := h.proposed p hp
  cases p with
  | createEntity _ =>
    obtain ⟨rfl, -⟩ := hadd
    exact absurd he.owner hprop.1
  | addField _ _ =>
    cases hadd
    exact absurd hname (hprop.2.2 e he)
  | alterField _ old new =>
    cases hadd
    obtain ⟨hold, -, hnames, hs⟩ := (h.altered _ _ _).1 hp
    obtain rfl := ha.field_unique he hold (hname.trans hnames.symm)
    exact hs
  | addRelationship _ _ => cases hadd
  | alterReference _ _ _ => cases hadd
  | _ => exact hadd.elim

/-- A recorded draft can be replayed and leads to a schema like `b`. Its fields are those of `a` that
were right, and the others as documents keep them. -/
theorem Draft.replay_recorded (h : Draft a b down up) (ha : a.Sound) (hb : b.Sound)
    (hrun : applyAll a (down ++ up) = .ok c) :
    ∃ d, applyAll a ((down ++ up).map Step.recorded) = .ok d ∧ d.Sound ∧ Alike d b ∧
      ∀ n f g, d.Declares (.field n f) → b.Declares (.field n g) → f.name = g.name →
        (a.Declares (.field n f) ∧ f.same g = true) ∨ (f = g.recorded ∧
          ∀ e, a.Declares (.field n e) → e.name = g.name → e.same g = false) := by
  obtain ⟨d, hd, hbare⟩ := Step.exists_applyAll_recorded ha (h.sound_steps ha hb) hrun
  have hsound := Step.sound_applyAll_recorded ha (h.sound_steps ha hb) hd
  refine ⟨d, hd, hsound, (Alike.of_bare hbare).trans (h.alike ha hb hrun), ?_⟩
  intro n f g hf hg hn
  have hrespects : ((down ++ up).map Step.recorded).Pairwise Step.Respects :=
    (h.respects ha hb).map Step.recorded fun p q hpq => hpq.recorded
  rcases (Step.declares_applyAll ha.distinct hrespects hd _).1 hf with ⟨q, hq, hadd⟩ | ⟨hfa, hleft⟩
  · obtain ⟨p, hp, rfl⟩ := List.mem_map.1 hq
    obtain ⟨x, rfl, hx⟩ := Step.adds_recorded hadd
    obtain rfl := hb.field_unique ((h.proposed p hp).declares hx) hg hn
    exact Or.inr ⟨rfl, fun e he hname => h.not_same_of_adds ha hp hx he hname⟩
  · refine Or.inl ⟨hfa, ?_⟩
    by_contra hs
    have hin := (h.altered n f g).2 ⟨hfa, hg, hn, Bool.eq_false_iff.2 hs⟩
    exact hleft _ (List.mem_map_of_mem hin) ⟨rfl, rfl⟩

/-- A difference is left exactly where a default does not survive, and it never goes away. -/
theorem diff_after_record (ha : a.Sound) (hb : b.Sound) (hdiff : diff a b = .ok steps)
    (hrun : applyAll a steps = .ok c) :
    ∃ d rest, applyAll a (steps.map Step.recorded) = .ok d ∧ d.Sound ∧ diff d b = .ok rest ∧
      (rest = [] ↔ Survives a b) ∧ (Survives d b → Survives a b) := by
  obtain ⟨down, up, rfl, h⟩ := draft_of_diff ha hb hdiff
  obtain ⟨d, hd, hsound, halike, hfields⟩ := h.replay_recorded ha hb hrun
  obtain ⟨rest, hrest, hmem⟩ := diff_of_alike hsound hb halike
  refine ⟨d, rest, hd, hsound, hrest, ⟨fun hnil n g hg => ?_, fun hsurv => ?_⟩, ?_⟩
  · obtain ⟨f, hf, hbare⟩ := halike.symm.exists_field hg
    have hn := Field.name_of_bare hbare
    have hs : f.same g = true := by
      by_contra hs
      have hin := (hmem (.alterField n f g)).2 ⟨n, f, g, hf, hg, hn, Bool.eq_false_iff.2 hs, rfl⟩
      rw [hnil] at hin
      cases hin
    rcases hfields n f g hf hg hn with ⟨hfa, -⟩ | ⟨rfl, -⟩
    · exact Or.inl ⟨f, hfa, hs⟩
    · exact Or.inr ((same_recorded g).symm.trans hs)
  · rw [List.eq_nil_iff_forall_not_mem]
    intro st hst
    obtain ⟨n, f, g, hf, hg, hn, hs, -⟩ := (hmem st).1 hst
    refine absurd ?_ (Bool.eq_false_iff.1 hs)
    rcases hfields n f g hf hg hn with ⟨-, hsame⟩ | ⟨rfl, hno⟩
    · exact hsame
    · rcases hsurv n g hg with ⟨e, he, hsame⟩ | hstored
      · have hname := Field.name_of_bare (Field.bare_of_same hsame)
        exact absurd hsame (Bool.eq_false_iff.1 (hno e he hname))
      · exact (same_recorded g).trans hstored
  · intro hsurv n g hg
    rcases hsurv n g hg with ⟨f, hf, hsame⟩ | hstored
    · have hn := Field.name_of_bare (Field.bare_of_same hsame)
      rcases hfields n f g hf hg hn with ⟨hfa, -⟩ | ⟨rfl, -⟩
      · exact Or.inl ⟨f, hfa, hsame⟩
      · exact Or.inr ((same_recorded g).symm.trans hsame)
    · exact Or.inr hstored

/-- Where no difference is left, all defaults are in place. -/
theorem survives_of_diff_nil (ha : a.Sound) (hb : b.Sound) (h : diff a b = .ok []) :
    Survives a b := by
  obtain ⟨d, rest, hd, -, hrest, hiff, -⟩ := diff_after_record (c := a) ha hb h rfl
  cases hd
  rw [h] at hrest
  exact hiff.1 (Except.ok.inj hrest).symm

/-- Defaults that are finite documents survive. -/
theorem survives_of_finite (h : ∀ n f, b.Declares (.field n f) →
    Json.isFiniteDocument f.default = true ∧ f.default.wellFormed = true) : Survives a b := by
  intro n f hf
  obtain ⟨hfinite, hwell⟩ := h n f hf
  exact Or.inr (Json.same_stored hfinite hwell)

end Diff

end SchemaLedger
