import SchemaLedger.Proofs.Migration.DiffPlan
import SchemaLedger.Proofs.Migration.Inverse
import SchemaLedger.Proofs.Schema.Equivalence

set_option autoImplicit false

/-!
# Replaying a difference

The steps from `a` to `b` lead from `a` to a schema of the shape of `b`, and turned around they lead back
to one of the shape of `a`. The first needs the keys of the entities in both to keep their names; the
second does not, as steps that change a key cannot be replayed at all.
-/
namespace SchemaLedger.Diff

open Step (applyAll invertAll)

variable {a b c : Schema} {steps : List Step}

theorem orders_of_diff (ha : a.Sound) (hb : b.Sound) (h : diff a b = .ok steps) :
    ∃ drops creates, drops.Perm (created b a) ∧ creates.Perm (created a b) ∧
      drops.Pairwise Dependency.Precedes ∧ creates.Pairwise Dependency.Precedes ∧
        steps = falling a b drops ++ rising a b creates := by
  obtain ⟨-, drops, creates, hd, hc, rfl⟩ := (diff_eq_ok a b steps).1 h
  obtain ⟨hdperm, hdprec⟩ :=
    Dependency.order_targets_first (nodup_created ha b) ((Outcome.mapError_eq_ok _ _ _).1 hd)
  obtain ⟨hcperm, hcprec⟩ :=
    Dependency.order_targets_first (nodup_created hb a) ((Outcome.mapError_eq_ok _ _ _).1 hc)
  exact ⟨drops, creates, hdperm, hcperm, hdprec, hcprec, rfl⟩

/-- The two halves of a difference, and what makes it more than a plan: it alters a field only if it has
to, and what it drops it drops as it was. -/
structure Draft (a b : Schema) (down up : List Step) : Prop extends Plan a b down up where
  migratable : Migratable a b
  altered : ∀ n f g, .alterField n f g ∈ down ++ up ↔ a.Declares (.field n f) ∧
    b.Declares (.field n g) ∧ f.name = g.name ∧ f.same g = false
  sources : ∀ e, .dropEntity e ∈ down → ∃ g ∈ a.entities, e = g.withoutLinks

theorem draft_of_diff (ha : a.Sound) (hb : b.Sound) (h : diff a b = .ok steps) :
    ∃ down up, steps = down ++ up ∧ Draft a b down up := by
  obtain ⟨drops, creates, hdperm, hcperm, hdprec, hcprec, rfl⟩ := orders_of_diff ha hb h
  have hm := (migratable_iff ha).1 ((diff_eq_ok a b _).1 h).1
  refine ⟨_, _, rfl, plan_of_orders ha hb hm hdperm hcperm hdprec hcprec, hm,
    fun n f g => alterField_mem ha hb n f g, fun e he => ?_⟩
  have hin : .dropEntity e ∈ falling a b drops ++ rising a b creates := List.mem_append_left _ he
  obtain ⟨g, hg, rfl⟩ := (dropEntity_mem ha hb e).1 hin
  exact ⟨g, (List.mem_filter.1 (hdperm.subset hg)).1, rfl⟩

variable {down up : List Step}

theorem Draft.equivalent (h : Draft a b down up) (ha : a.Sound) (hb : b.Sound)
    (hd : b.PlainDefaults) (hrun : applyAll a (down ++ up) = .ok c) : c.equivalent b = true := by
  have hc := h.sound ha hb (List.append_nil _).symm hrun
  refine Schema.equivalent_of_declares hc hb (h.entity_iff ha hb hrun)
    (h.relationship_iff ha hb hrun) (fun n f hf => ?_) fun n g hg => h.exists_field ha hb hrun hg
  rcases h.field_of_end ha hb hrun hf with hfb | ⟨hfa, g, hg, hn, hin⟩
  · exact ⟨f, hfb, rfl, hd.same_self hfb⟩
  · refine ⟨g, hg, hn.symm, ?_⟩
    by_contra hs
    exact hin ((h.altered n f g).2 ⟨hfa, hg, hn, Bool.eq_false_iff.2 hs⟩)

theorem Draft.sameKeys (h : Draft a b down up) (ha : a.Sound) (hb : b.Sound)
    (hrun : applyAll a (down ++ up) = .ok c) : SameKeys a b :=
  h.toPlan.sameKeys ha hb (fun n f g hf hg hn => (h.migratable n f g hf hg hn).primaryKey) hrun

/-- The way back leads to fields of `a` only. -/
theorem Draft.field_of_return (h : Draft a b down up) (ha : a.Sound) (hb : b.Sound)
    (hrun : applyAll a (down ++ up) = .ok c) {d : Schema}
    (hback : applyAll c (invertAll up ++ invertAll down) = .ok d) {n : String} {f : Field}
    (hf : d.Declares (.field n f)) : a.Declares (.field n f) := by
  have hc := h.sound ha hb (List.append_nil _).symm hrun
  have hinv := h.toPlan.invert ha hb hrun h.sources
  rcases hinv.field_of_end hc ha hback hf with hfa | ⟨hfc, g, hg, hn, hin⟩
  · exact hfa
  · rcases (h.end_iff ha hb hrun _).1 hfc with ⟨st, hst, hadd⟩ | ⟨hfa, -⟩
    · have hprop := h.proposed st hst
      cases st with
      | createEntity e => exact absurd (hadd.1 ▸ hg.owner) hprop.1
      | addField m i =>
        cases hadd
        exact absurd hn.symm (hprop.2.2 g hg)
      | alterField m old new =>
        cases hadd
        obtain rfl := ha.field_unique hprop.1 hg (hprop.2.2.1.trans hn)
        rw [← invertAll_append, mem_invertAll] at hin
        exact absurd hst hin
      | alterReference _ _ _ | addRelationship _ _ => cases hadd
      | _ => exact absurd hadd id
    · exact hfa

theorem Draft.returns (h : Draft a b down up) (ha : a.Sound) (hb : b.Sound)
    (hrun : applyAll a (down ++ up) = .ok c) :
    ∃ d, applyAll c (invertAll (down ++ up)) = .ok d ∧ d.Sound ∧ d.PartOf a := by
  have hc := h.sound ha hb (List.append_nil _).symm hrun
  have hinv := h.toPlan.invert ha hb hrun h.sources
  have hkeys : SameKeys c a := by
    intro n k l hk hl hkp hlp
    rcases h.field_of_end ha hb hrun hk with hkb | ⟨hka, -⟩
    · exact (h.sameKeys ha hb hrun n l k hl hkb hlp hkp).symm
    · rw [ha.key_unique hka hl hkp hlp]
  obtain ⟨d, hd, hpart⟩ := hinv.runs hc ha hkeys
  rw [← invertAll_append] at hd
  exact ⟨d, hd, hpart.sound ha, hpart⟩

/-- Every schema on the way is valid, and the last one has the shape of the goal. -/
theorem applyAll_diff (ha : a.Valid) (hb : b.Valid) (hd : b.PlainDefaults) (hk : SameKeys a b)
    (h : diff a b = .ok steps) :
    ∃ c, applyAll a steps = .ok c ∧ c.equivalent b = true ∧
      ∀ k, ∃ s, applyAll a (steps.take k) = .ok s ∧ s.Valid := by
  rw [Schema.valid_iff_sound] at ha hb
  obtain ⟨down, up, rfl, hdraft⟩ := draft_of_diff ha hb h
  obtain ⟨c, hc, -⟩ := hdraft.runs ha hb hk
  refine ⟨c, hc, hdraft.equivalent ha hb hd hc, fun k => ?_⟩
  obtain ⟨s, hs⟩ := Step.applyAll_take hc k
  exact ⟨s, hs, (Schema.valid_iff_sound s).2
    (hdraft.sound ha hb (List.take_append_drop k _).symm hs)⟩

def account : Field := { name := "id", type := .bigint, primaryKey := true, auto := true }

/-- Books, each with a writer. -/
def shelf : Schema where
  entities := [
    { name := "Author", fields := [account, { name := "name" }] },
    { name := "Book", fields := [account, { name := "title" }],
      relationships := [.single { name := "writer", target := "Author" }] }]

/-- A field and a relationship have exchanged their names, and the entity they refer to is new. -/
def library : Schema where
  entities := [
    { name := "Book", fields := [account, { name := "writer", default := .text "anonymous" }],
      relationships := [.many { name := "title", target := "Title" }] },
    { name := "Title", fields := [account, { name := "text" }] }]

theorem applyAll_diff_library :
    ∃ steps c, diff shelf library = .ok steps ∧ applyAll shelf steps = .ok c ∧
      c.equivalent library = true := by
  obtain ⟨steps, h⟩ := Outcome.exists_ok (x := diff shelf library) (by decide +kernel)
  obtain ⟨c, hc, heq, -⟩ := applyAll_diff (by decide +kernel) (by decide +kernel) (by decide +kernel)
    (by decide +kernel) h
  exact ⟨steps, c, h, hc, heq⟩

/-- A difference that can be replayed can be undone. -/
theorem applyAll_invertAll_diff (ha : a.Valid) (hb : b.Valid) (hd : a.PlainDefaults)
    (h : diff a b = .ok steps) (hrun : applyAll a steps = .ok c) :
    ∃ d, applyAll c (invertAll steps) = .ok d ∧ d.equivalent a = true ∧
      ∀ k, ∃ s, applyAll c ((invertAll steps).take k) = .ok s ∧ s.Valid := by
  rw [Schema.valid_iff_sound] at ha hb
  obtain ⟨down, up, rfl, hdraft⟩ := draft_of_diff ha hb h
  have hc := hdraft.sound ha hb (List.append_nil _).symm hrun
  have hinv := hdraft.toPlan.invert ha hb hrun hdraft.sources
  obtain ⟨d, hback, hds, -⟩ := hdraft.returns ha hb hrun
  refine ⟨d, hback, ?_, fun k => ?_⟩
  · rw [invertAll_append] at hback
    refine Schema.equivalent_of_declares hds ha (hinv.entity_iff hc ha hback)
      (hinv.relationship_iff hc ha hback) (fun n f hf => ?_)
      fun n g hg => hinv.exists_field hc ha hback hg
    have hfa := hdraft.field_of_return ha hb hrun hback hf
    exact ⟨f, hfa, rfl, hd.same_self hfa⟩
  · obtain ⟨s, hs⟩ := Step.applyAll_take hback k
    rw [invertAll_append] at hs
    refine ⟨s, by rw [invertAll_append]; exact hs, (Schema.valid_iff_sound s).2 ?_⟩
    exact hinv.sound hc ha (List.take_append_drop k _).symm hs

theorem applyAll_invertAll_diff_library :
    ∃ steps c d, diff shelf library = .ok steps ∧ applyAll shelf steps = .ok c ∧
      applyAll c (invertAll steps) = .ok d ∧ d.equivalent shelf = true := by
  obtain ⟨c, hrun⟩ := Outcome.exists_ok (x := (diff shelf library).toOption.elim
    (.ok shelf) (applyAll shelf)) (by decide +kernel)
  obtain ⟨steps, h⟩ := Outcome.exists_ok (x := diff shelf library) (by decide +kernel)
  rw [h] at hrun
  obtain ⟨d, hd, heq, -⟩ := applyAll_invertAll_diff (by decide +kernel) (by decide +kernel)
    (by decide +kernel) h hrun
  exact ⟨steps, c, d, h, hrun, hd, heq⟩

end SchemaLedger.Diff
