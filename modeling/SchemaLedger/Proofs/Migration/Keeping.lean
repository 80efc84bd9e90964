import SchemaLedger.Proofs.Migration.Convergence
import SchemaLedger.Proofs.Migration.File
import SchemaLedger.Proofs.Migration.Shape

set_option autoImplicit false

/-!
# Differences that are kept

The difference of two schemas with storable defaults consists of steps that a file keeps as they are.
Replayed it leads to a schema that matches the goal, again with storable defaults, and turned around it
leads back.
-/
namespace SchemaLedger

theorem Schema.Storable.field {s : Schema} (h : s.Storable) {n : String} {f : Field}
    (hf : s.Declares (.field n f)) : f.Storable := by
  obtain ⟨e, he, -, hm⟩ := hf
  exact h e he f hm

theorem Schema.storable_of_declares {s : Schema}
    (h : ∀ n f, s.Declares (.field n f) → f.Storable) : s.Storable :=
  fun _ he _ hf => h _ _ (Schema.declares_field_of_mem he hf)

theorem Schema.Matches.sameKeys {a b c : Schema} (h : a.Matches b) (hk : Diff.SameKeys b c) :
    Diff.SameKeys a c := by
  intro n k l hn hl hkp hlp
  obtain ⟨g, hg, hsame⟩ := h.field n k hn
  have hbare := Field.bare_of_same hsame
  have hkey := congrArg Field.primaryKey hbare
  exact (Field.name_of_bare hbare).trans (hk n g l hg hl (hkey.symm.trans hkp) hlp)

namespace Diff

open Step (applyAll invertAll)
open Schema (Matches)

variable {a b c : Schema} {steps down up : List Step}

theorem Draft.storable_steps (h : Draft a b down up) (ha : a.Storable) (hb : b.Storable) :
    ∀ p ∈ down ++ up, p.Storable := by
  intro p hp
  have hprop := h.proposed p hp
  cases p with
  | createEntity e =>
    obtain ⟨-, g, hg, rfl⟩ := hprop
    exact hb g hg
  | dropEntity e =>
    rcases List.mem_append.1 hp with hp | hp
    · obtain ⟨g, hg, rfl⟩ := h.sources e hp
      exact ha g hg
    · exact absurd (h.rises _ hp) (by simp [shrinks])
  | addField n f => exact List.forall_mem_singleton.2 (hb.field hprop.2.1)
  | removeField n f => exact List.forall_mem_singleton.2 (ha.field hprop.2.1)
  | alterField n f g =>
    exact List.forall_mem_cons.2
      ⟨ha.field hprop.1, List.forall_mem_singleton.2 (hb.field hprop.2.1)⟩
  | _ => exact List.forall_mem_nil _

theorem Draft.storable_end (h : Draft a b down up) (ha : a.Sound) (hb : b.Sound)
    (hsa : a.Storable) (hsb : b.Storable) (hrun : applyAll a (down ++ up) = .ok c) :
    c.Storable := by
  refine Schema.storable_of_declares fun n f hf => ?_
  rcases h.field_of_end ha hb hrun hf with hfb | ⟨hfa, -⟩
  · exact hsb.field hfb
  · exact hsa.field hfa

theorem Draft.equivalent_back (h : Draft a b down up) (ha : a.Sound) (hb : b.Sound)
    (hd : a.PlainDefaults) (hrun : applyAll a (down ++ up) = .ok c) :
    ∃ d, applyAll c (invertAll (down ++ up)) = .ok d ∧ d.equivalent a = true := by
  obtain ⟨d, hback, hds, -⟩ := h.returns ha hb hrun
  have hc := h.sound ha hb (List.append_nil _).symm hrun
  have hinv := h.toPlan.invert ha hb hrun h.sources
  refine ⟨d, hback, ?_⟩
  rw [invertAll_append] at hback
  have hfield : ∀ n f, d.Declares (.field n f) → ∃ g, a.Declares (.field n g) ∧ g.name = f.name ∧
      f.same g = true := by
    intro n f hf
    have hfa := h.field_of_return ha hb hrun hback hf
    exact ⟨f, hfa, rfl, hd.same_self hfa⟩
  exact Schema.equivalent_of_declares hds ha (hinv.entity_iff hc ha hback)
    (hinv.relationship_iff hc ha hback) hfield fun n g hg => hinv.exists_field hc ha hback hg

/-- Steps that a file keeps, to a schema that matches `b`, and back. -/
structure Kept (a b : Schema) (steps : List Step) (c : Schema) : Prop where
  run : applyAll a steps = .ok c
  sound : c.Sound
  storable : c.Storable
  goal : Matches c b
  lasting : ∀ p ∈ steps, p.Sound ∧ p.Storable
  back : ∃ d, applyAll c (invertAll steps) = .ok d ∧ d.equivalent a = true

theorem exists_kept (ha : a.Sound) (hb : b.Sound) (hsa : a.Storable) (hsb : b.Storable)
    (hk : SameKeys a b) (h : diff a b = .ok steps) : ∃ c, Kept a b steps c := by
  obtain ⟨down, up, rfl, hdraft⟩ := draft_of_diff ha hb h
  obtain ⟨c, hc, -⟩ := hdraft.runs ha hb hk
  have hsound := hdraft.sound ha hb (List.append_nil _).symm hc
  refine ⟨c, hc, hsound, hdraft.storable_end ha hb hsa hsb hc, ?_, ?_, ?_⟩
  · exact Schema.matches_of_equivalent hsound hb (hdraft.equivalent ha hb hsb.plainDefaults hc)
  · exact fun p hp => ⟨hdraft.sound_steps ha hb p hp, hdraft.storable_steps hsa hsb p hp⟩
  · exact hdraft.equivalent_back ha hb hsa.plainDefaults hc

end Diff

end SchemaLedger
