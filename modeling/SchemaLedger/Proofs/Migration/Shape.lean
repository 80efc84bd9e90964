import SchemaLedger.Proofs.Migration.Agreement
import SchemaLedger.Proofs.Migration.DiffReplay
import SchemaLedger.Proofs.Schema.Equivalence
import SchemaLedger.Proofs.Value.Sameness

set_option autoImplicit false

/-!
# Schemas of one shape

Sound schemas are equivalent exactly if they declare the same, fields being compared by their values.
No difference is left between them, and between all others there is one.
-/
namespace SchemaLedger

variable {a b c : Schema} {f g k : Field}

theorem Field.same_iff : f.same g = true ↔ f.bare = g.bare ∧ f.default.same g.default = true := by
  constructor
  · intro h
    refine ⟨Field.bare_of_same h, ?_⟩
    simp only [same, Bool.and_eq_true] at h
    exact h.1.1.1.2
  · rintro ⟨hbare, hdefault⟩
    simp only [bare, Field.mk.injEq] at hbare
    simp [same, hbare, hdefault]

theorem Field.same_trans (h : f.same g = true) (h' : g.same k = true) : f.same k = true := by
  rw [same_iff] at h h' ⊢
  exact ⟨h.1.trans h'.1, Value.same_trans _ _ _ h.2 h'.2⟩

theorem Field.same_symm (hf : f.default.wellFormed = true) (hg : g.default.wellFormed = true)
    (h : f.same g = true) : g.same f = true := by
  rw [same_iff] at h ⊢
  exact ⟨h.1.symm, Value.same_symm _ _ hf hg h.2⟩

namespace Schema

theorem PlainDefaults.wellFormed (h : a.PlainDefaults) {n : String}
    (hf : a.Declares (.field n f)) : f.default.wellFormed = true := by
  obtain ⟨e, he, -, hm⟩ := hf
  exact (h e he f hm).2

/-- Both declare the same entities and relationships, and fields that are the same. -/
structure Matches (a b : Schema) : Prop where
  entity : ∀ n, a.Declares (.entity n) ↔ b.Declares (.entity n)
  relationship : ∀ n r, a.Declares (.relationship n r) ↔ b.Declares (.relationship n r)
  field : ∀ n f, a.Declares (.field n f) → ∃ g, b.Declares (.field n g) ∧ f.same g = true
  back : ∀ n g, b.Declares (.field n g) → ∃ f, a.Declares (.field n f) ∧ f.name = g.name

theorem sameFields_iff {xs ys : List Field} : sameFields xs ys = true ↔ xs.length = ys.length ∧
    ∀ x ∈ xs, ∃ y, ys.find? (·.name = x.name) = some y ∧ x.same y = true := by
  rw [sameFields, Bool.and_eq_true, decide_eq_true_eq, List.all_eq_true]
  refine and_congr_right fun _ => forall₂_congr fun x _ => ?_
  cases ys.find? (·.name = x.name) <;> simp

theorem sameRelationships_iff {xs ys : List Relationship} : sameRelationships xs ys = true ↔
    xs.length = ys.length ∧ ∀ x ∈ xs, ys.find? (·.name = x.name) = some x := by
  rw [sameRelationships, Bool.and_eq_true, decide_eq_true_eq, List.all_eq_true]
  simp

theorem equivalent_eq_true : a.equivalent b = true ↔ a.entities.length = b.entities.length ∧
    ∀ x ∈ a.entities, ∃ y, b.entity? x.name = some y ∧ sameShape x y = true := by
  rw [equivalent, Bool.and_eq_true, decide_eq_true_eq, List.all_eq_true]
  refine and_congr_right fun _ => forall₂_congr fun x _ => ?_
  cases b.entity? x.name <;> simp

theorem fields_of_sameShape {x y : Entity} (h : sameShape x y = true) :
    x.fields.length = y.fields.length ∧
      ∀ f ∈ x.fields, ∃ g ∈ y.fields, g.name = f.name ∧ f.same g = true := by
  rw [sameShape, Bool.and_eq_true, sameFields_iff] at h
  refine ⟨h.1.1, fun f hf => ?_⟩
  obtain ⟨g, hg, hsame⟩ := h.1.2 f hf
  exact ⟨g, List.mem_of_find?_eq_some hg, by simpa using List.find?_some hg, hsame⟩

theorem relationships_of_sameShape {x y : Entity} (h : sameShape x y = true) :
    x.relationships.length = y.relationships.length ∧
      ∀ r ∈ x.relationships, r ∈ y.relationships := by
  rw [sameShape, Bool.and_eq_true, sameRelationships_iff] at h
  exact ⟨h.2.1, fun r hr => List.mem_of_find?_eq_some (h.2.2 r hr)⟩

theorem matches_of_equivalent (ha : a.Sound) (hb : b.Sound) (h : a.equivalent b = true) :
    Matches a b := by
  obtain ⟨hlen, hall⟩ := equivalent_eq_true.1 h
  have hpartner : ∀ x ∈ a.entities, ∃ y ∈ b.entities, y.name = x.name ∧ sameShape x y = true := by
    intro x hx
    obtain ⟨y, hy, hshape⟩ := hall x hx
    obtain ⟨hin, hname⟩ := (entity?_eq_some hb.distinct x.name y).1 hy
    exact ⟨y, hin, hname, hshape⟩
  have hback := Keyed.exists_partner ha.distinct hb.distinct hlen.ge hpartner
  refine ⟨fun n => ⟨?_, ?_⟩, fun n r => ⟨?_, ?_⟩, ?_, ?_⟩
  · rintro ⟨x, hx, rfl⟩
    obtain ⟨y, hy, hname, -⟩ := hpartner x hx
    exact ⟨y, hy, hname⟩
  · rintro ⟨y, hy, rfl⟩
    obtain ⟨x, hx, hname, -⟩ := hback y hy
    exact ⟨x, hx, hname⟩
  · rintro ⟨x, hx, rfl, hr⟩
    obtain ⟨y, hy, hname, hshape⟩ := hpartner x hx
    exact ⟨y, hy, hname, (relationships_of_sameShape hshape).2 r hr⟩
  · rintro ⟨y, hy, rfl, hr⟩
    obtain ⟨x, hx, hname, hshape⟩ := hback y hy
    obtain ⟨hlength, hin⟩ := relationships_of_sameShape hshape
    obtain ⟨q, hq, -, rfl⟩ := Keyed.exists_partner (ha.entities x hx).relationshipNames
      (hb.entities y hy).relationshipNames hlength.ge (fun q hq => ⟨q, hin q hq, rfl, rfl⟩) r hr
    exact ⟨x, hx, hname, hq⟩
  · rintro n f ⟨x, hx, rfl, hf⟩
    obtain ⟨y, hy, hname, hshape⟩ := hpartner x hx
    obtain ⟨g, hg, -, hsame⟩ := (fields_of_sameShape hshape).2 f hf
    exact ⟨g, ⟨y, hy, hname, hg⟩, hsame⟩
  · rintro n g ⟨y, hy, rfl, hg⟩
    obtain ⟨x, hx, hname, hshape⟩ := hback y hy
    obtain ⟨hlength, hfields⟩ := fields_of_sameShape hshape
    obtain ⟨f, hf, hfg, -⟩ := Keyed.exists_partner (ha.entities x hx).fieldNames
      (hb.entities y hy).fieldNames hlength.ge hfields g hg
    exact ⟨f, ⟨x, hx, hname, hf⟩, hfg⟩

theorem equivalent_iff_matches (ha : a.Sound) (hb : b.Sound) :
    a.equivalent b = true ↔ Matches a b := by
  refine ⟨matches_of_equivalent ha hb, fun h => ?_⟩
  refine equivalent_of_declares ha hb h.entity h.relationship (fun n f hf => ?_) h.back
  obtain ⟨g, hg, hsame⟩ := h.field n f hf
  exact ⟨g, hg, (Field.name_of_bare (Field.bare_of_same hsame)).symm, hsame⟩

namespace Matches

theorem exists_same (h : Matches a b) (hb : b.Sound) {n : String} {g : Field}
    (hg : b.Declares (.field n g)) : ∃ f, a.Declares (.field n f) ∧ f.same g = true := by
  obtain ⟨f, hf, hname⟩ := h.back n g hg
  obtain ⟨g', hg', hsame⟩ := h.field n f hf
  obtain rfl := hb.field_unique hg' hg ((Field.name_of_bare (Field.bare_of_same hsame)).symm.trans
    hname)
  exact ⟨f, hf, hsame⟩

theorem withVersion (h : Matches a b) (v : Int) : Matches (a.withVersion v) b := { h with }

theorem trans (h : Matches a b) (h' : Matches b c) : Matches a c := by
  refine ⟨fun n => (h.entity n).trans (h'.entity n),
    fun n r => (h.relationship n r).trans (h'.relationship n r), fun n f hf => ?_, fun n k hk => ?_⟩
  · obtain ⟨g, hg, hfg⟩ := h.field n f hf
    obtain ⟨k, hk, hgk⟩ := h'.field n g hg
    exact ⟨k, hk, Field.same_trans hfg hgk⟩
  · obtain ⟨g, hg, hgk⟩ := h'.back n k hk
    obtain ⟨f, hf, hfg⟩ := h.back n g hg
    exact ⟨f, hf, hfg.trans hgk⟩

theorem symm (h : Matches a b) (ha : a.PlainDefaults) (hb : b.PlainDefaults) (hs : b.Sound) :
    Matches b a := by
  refine ⟨fun n => (h.entity n).symm, fun n r => (h.relationship n r).symm, fun n g hg => ?_,
    fun n f hf => ?_⟩
  · obtain ⟨f, hf, hsame⟩ := h.exists_same hs hg
    exact ⟨f, hf, Field.same_symm (ha.wellFormed hf) (hb.wellFormed hg) hsame⟩
  · obtain ⟨g, hg, hsame⟩ := h.field n f hf
    exact ⟨g, hg, (Field.name_of_bare (Field.bare_of_same hsame)).symm⟩

theorem alike (h : Matches a b) (hb : b.Sound) : Alike a b := by
  intro d
  cases d with
  | entity n => rw [declares_bare_entity, declares_bare_entity, h.entity]
  | relationship n r => rw [declares_bare_relationship, declares_bare_relationship, h.relationship]
  | field n f =>
    rw [declares_bare_field, declares_bare_field]
    constructor
    · rintro ⟨g, hg, rfl⟩
      obtain ⟨k, hk, hsame⟩ := h.field n g hg
      exact ⟨k, hk, (Field.bare_of_same hsame).symm⟩
    · rintro ⟨g, hg, rfl⟩
      obtain ⟨k, hk, hsame⟩ := h.exists_same hb hg
      exact ⟨k, hk, Field.bare_of_same hsame⟩

/-- No difference is left between schemas of one shape. -/
theorem diff_eq_nil (h : Matches a b) (ha : a.Sound) (hb : b.Sound) : diff a b = .ok [] := by
  obtain ⟨steps, hdiff, hmem⟩ := Diff.diff_of_alike ha hb (h.alike hb)
  rw [hdiff]
  refine congrArg _ (List.eq_nil_iff_forall_not_mem.2 fun st hst => ?_)
  obtain ⟨n, f, g, hf, hg, hname, hsame, -⟩ := (hmem st).1 hst
  obtain ⟨g', hg', hsame'⟩ := h.field n f hf
  obtain rfl := hb.field_unique hg' hg ((Field.name_of_bare (Field.bare_of_same hsame')).symm.trans
    hname)
  exact absurd hsame' (Bool.eq_false_iff.1 hsame)

end Matches

/-- Whatever one schema has and the other lacks takes a step, so schemas without a difference match. -/
theorem matches_of_diff_eq_nil (ha : a.Sound) (hb : b.Sound) (h : diff a b = .ok []) :
    Matches a b := by
  obtain ⟨down, up, hsplit, hdraft⟩ := Diff.draft_of_diff ha hb h
  have hrun : Step.applyAll a (down ++ up) = .ok a := hsplit ▸ rfl
  refine ⟨hdraft.entity_iff ha hb hrun, hdraft.relationship_iff ha hb hrun, fun n f hf => ?_,
    fun n g hg => hdraft.exists_field ha hb hrun hg⟩
  have hpartner : ∃ g, b.Declares (.field n g) ∧ f.name = g.name := by
    rcases hdraft.field_of_end ha hb hrun hf with hfb | ⟨-, g, hg, hn, -⟩
    · exact ⟨f, hfb, rfl⟩
    · exact ⟨g, hg, hn⟩
  obtain ⟨g, hg, hn⟩ := hpartner
  refine ⟨g, hg, ?_⟩
  by_contra hs
  have hin := (hdraft.altered n f g).2 ⟨hf, hg, hn, Bool.eq_false_iff.2 hs⟩
  rw [← hsplit] at hin
  cases hin

/-- A difference is empty exactly between equivalent schemas; between others it has a step or fails. -/
theorem diff_eq_nil_iff (ha : a.Valid) (hb : b.Valid) :
    (diff a b = .ok [] ↔ a.equivalent b = true) ∧
      (a.equivalent b = false →
        (∃ e, diff a b = .error e) ∨ ∃ first rest, diff a b = .ok (first :: rest)) := by
  rw [valid_iff_sound] at ha hb
  have hiff : diff a b = .ok [] ↔ a.equivalent b = true := by
    rw [equivalent_iff_matches ha hb]
    exact ⟨matches_of_diff_eq_nil ha hb, fun h => h.diff_eq_nil ha hb⟩
  refine ⟨hiff, fun hne => ?_⟩
  cases hdiff : diff a b with
  | error e => exact .inl ⟨e, rfl⟩
  | ok steps =>
    cases steps with
    | nil =>
      rw [hiff.1 hdiff] at hne
      cases hne
    | cons first rest => exact .inr ⟨first, rest, rfl⟩

/-- The shelf of books in another order and under another version. -/
def rearranged : Schema := ⟨7, Diff.shelf.entities.reverse⟩

theorem diff_eq_nil_iff_shelf :
    diff Diff.shelf rearranged = .ok [] ∧
      ∃ first rest, diff Diff.shelf Diff.library = .ok (first :: rest) := by
  refine ⟨(diff_eq_nil_iff (by decide +kernel) (by decide +kernel)).1.2 (by decide +kernel), ?_⟩
  rcases (diff_eq_nil_iff (a := Diff.shelf) (b := Diff.library) (by decide +kernel)
    (by decide +kernel)).2 (by decide +kernel) with ⟨e, he⟩ | h
  · obtain ⟨steps, hsteps⟩ := Outcome.exists_ok (x := diff Diff.shelf Diff.library)
      (by decide +kernel)
    rw [hsteps] at he
    cases he
  · exact h

end Schema

end SchemaLedger
