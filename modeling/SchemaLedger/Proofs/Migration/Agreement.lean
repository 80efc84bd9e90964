import SchemaLedger.Proofs.Migration.DiffPlan
import SchemaLedger.Proofs.Migration.Erasure

set_option autoImplicit false

/-!
# Schemas that differ in defaults only

Between two schemas that agree in all but defaults there always is a difference, and it alters those
fields whose defaults are not the same.
-/
namespace SchemaLedger

variable {a b c : Schema} {n : String}

theorem Field.bare_of_same {f g : Field} (h : f.same g = true) : f.bare = g.bare := by
  simp only [same, Bool.and_eq_true, decide_eq_true_eq] at h
  obtain ⟨⟨⟨⟨⟨⟨h1, h2⟩, h3⟩, -⟩, h4⟩, h5⟩, h6⟩ := h
  simp only [bare, h1, h2, h3, h4, h5, h6]

theorem Field.name_of_bare {f g : Field} (h : f.bare = g.bare) : f.name = g.name := by
  have hname := congrArg Field.name h
  exact hname

namespace Schema

theorem declares_bare_entity (s : Schema) (n : String) :
    s.bare.Declares (.entity n) ↔ s.Declares (.entity n) := by
  rw [declares_entity, declares_entity, bare_names]

theorem declares_bare_relationship (s : Schema) (n : String) (r : Relationship) :
    s.bare.Declares (.relationship n r) ↔ s.Declares (.relationship n r) := by
  constructor
  · rintro ⟨_, hin, hd⟩
    obtain ⟨e, he, rfl⟩ := List.mem_map.1 hin
    exact ⟨e, he, hd⟩
  · rintro ⟨e, he, hd⟩
    exact ⟨e.bare, List.mem_map_of_mem he, hd⟩

theorem declares_bare_field (s : Schema) (n : String) (f : Field) :
    s.bare.Declares (.field n f) ↔ ∃ g, s.Declares (.field n g) ∧ g.bare = f := by
  constructor
  · rintro ⟨_, hin, rfl, hf⟩
    obtain ⟨e, he, rfl⟩ := List.mem_map.1 hin
    obtain ⟨g, hg, rfl⟩ := List.mem_map.1 hf
    exact ⟨g, ⟨e, he, rfl, hg⟩, rfl⟩
  · rintro ⟨g, ⟨e, he, rfl, hg⟩, rfl⟩
    exact ⟨e.bare, List.mem_map_of_mem he, rfl, List.mem_map_of_mem hg⟩

/-- Two schemas that declare the same but for defaults. -/
def Alike (a b : Schema) : Prop := ∀ d, a.bare.Declares d ↔ b.bare.Declares d

theorem Alike.of_bare (h : a.bare = b.bare) : Alike a b := by
  intro d
  rw [h]

theorem Alike.symm (h : Alike a b) : Alike b a := fun d => (h d).symm

theorem Alike.trans (h : Alike a b) (h' : Alike b c) : Alike a c := fun d => (h d).trans (h' d)

theorem Alike.entity (h : Alike a b) (n : String) :
    a.Declares (.entity n) ↔ b.Declares (.entity n) := by
  rw [← declares_bare_entity, h, declares_bare_entity]

theorem Alike.relationship (h : Alike a b) (n : String) (r : Relationship) :
    a.Declares (.relationship n r) ↔ b.Declares (.relationship n r) := by
  rw [← declares_bare_relationship, h, declares_bare_relationship]

theorem Alike.exists_field (h : Alike a b) {f : Field} (hf : a.Declares (.field n f)) :
    ∃ g, b.Declares (.field n g) ∧ g.bare = f.bare :=
  (declares_bare_field b n f.bare).1 ((h _).1 ((declares_bare_field a n f.bare).2 ⟨f, hf, rfl⟩))

theorem Alike.field (h : Alike a b) (hb : b.Sound) {f g : Field} (hf : a.Declares (.field n f))
    (hg : b.Declares (.field n g)) (hn : f.name = g.name) : f.bare = g.bare := by
  obtain ⟨g', hg', hbare⟩ := h.exists_field hf
  obtain rfl := hb.field_unique hg' hg ((Field.name_of_bare hbare).trans hn)
  exact hbare.symm

end Schema

namespace Diff

open Schema (Alike)

theorem alterable_of_bare {f g : Field} (h : f.bare = g.bare) : Alterable f g := by
  right
  have htype := congrArg Field.type h
  have hkey := congrArg Field.primaryKey h
  have hauto := congrArg Field.auto h
  simp only [Field.bare] at htype hkey hauto
  simp [keepsIdentity, LogicalType.canConvert, htype, hkey, hauto]

theorem created_of_alike (h : Alike a b) : created a b = [] := by
  rw [List.eq_nil_iff_forall_not_mem]
  intro e he
  obtain ⟨hb, ha⟩ := (mem_created a b e).1 he
  exact ha ((h.entity e.name).2 (Schema.declares_of_mem hb))

theorem not_obsolete_of_alike (h : Alike a b) (n : String) (r : Relationship) :
    ¬Obsolete a b n r := by
  rintro ⟨hr, hno⟩
  exact (hno r ((h.relationship n r).1 hr) rfl).1 rfl

/-- What differs in defaults only is brought into line by altering fields. -/
theorem diff_of_alike (ha : a.Sound) (hb : b.Sound) (h : Alike a b) :
    ∃ steps, diff a b = .ok steps ∧ ∀ st, st ∈ steps ↔ ∃ n f g, a.Declares (.field n f) ∧
      b.Declares (.field n g) ∧ f.name = g.name ∧ f.same g = false ∧ st = .alterField n f g := by
  refine ⟨falling a b [] ++ rising a b [], (diff_eq_ok a b _).2 ⟨?_, [], [], ?_, ?_, rfl⟩, ?_⟩
  · exact (migratable_iff ha).2 fun n f g hf hg hn => alterable_of_bare (h.field hb hf hg hn)
  · rw [created_of_alike h.symm]
    rfl
  · rw [created_of_alike h]
    rfl
  · intro st
    rw [List.mem_append, mem_falling ha hb, mem_rising ha hb]
    constructor
    · rintro ((⟨n, r, hp, -⟩ | ⟨n, f, hp, -⟩ | ⟨g, hg, -⟩) | ⟨g, hg, -⟩ | ⟨n, f, hp, -⟩ | hst |
        ⟨n, r, q, hp, hne, -⟩ | ⟨n, r, hp, -⟩)
      · exact absurd hp.1 (not_obsolete_of_alike h n r)
      · obtain ⟨g, hg, hbare⟩ := h.exists_field hp.2.1
        exact absurd (Field.name_of_bare hbare) (hp.2.2 g hg)
      · cases hg
      · cases hg
      · obtain ⟨g, hg, hbare⟩ := h.symm.exists_field hp.2.1
        exact absurd (Field.name_of_bare hbare) (hp.2.2 g hg)
      · exact hst
      · obtain ⟨hr, hq, hn, -⟩ := hp
        have heq := hb.relationship_unique ((h.relationship _ _).1 hr) hq hn
        exact absurd (Relationship.single.inj heq) hne
      · exact absurd hp.1 (not_obsolete_of_alike h.symm n r)
    · exact fun hst => Or.inr (Or.inr (Or.inr (Or.inl hst)))

end Diff

end SchemaLedger
