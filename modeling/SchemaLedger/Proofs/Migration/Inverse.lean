import SchemaLedger.Proofs.Migration.Replay

set_option autoImplicit false

/-!
# Plans turned around

If a plan from `a` to `b` leads to `c`, its steps in reverse order, each inverted, are a plan from `c`
to `a`. That a plan can be replayed at all means that it keeps the keys, so the inverse can be, too.
-/
namespace SchemaLedger.Diff

open Step (applyAll invertAll)

theorem grows_invert (st : Step) : grows st.invert = shrinks st := by
  cases st <;> rfl

theorem shrinks_invert (st : Step) : shrinks st.invert = grows st := by
  cases st <;> rfl

theorem mem_invertAll (st : Step) (steps : List Step) :
    st ∈ invertAll steps ↔ st.invert ∈ steps := by
  simp only [invertAll, List.mem_map, List.mem_reverse]
  constructor
  · rintro ⟨s, hs, rfl⟩
    rw [invert_invert]
    exact hs
  · exact fun h => ⟨st.invert, h, invert_invert st⟩

theorem invertAll_append (xs ys : List Step) :
    invertAll (xs ++ ys) = invertAll ys ++ invertAll xs := by
  simp [invertAll]

theorem pairwise_invertAll {R Q : Step → Step → Prop} (h : ∀ s t, R t s → Q s.invert t.invert)
    {steps : List Step} (hs : steps.Pairwise R) : (invertAll steps).Pairwise Q := by
  rw [invertAll, List.pairwise_map, List.pairwise_reverse]
  exact hs.imp fun {t s} hts => h s t hts

variable {a b c : Schema} {down up : List Step}

/-- A plan that can be replayed removes no key, as an entity without one is not valid. -/
theorem Plan.sameKeys (hp : Plan a b down up) (ha : a.Sound) (hb : b.Sound)
    (hmatch : ∀ n f g, a.Declares (.field n f) → b.Declares (.field n g) → f.name = g.name →
      f.primaryKey = g.primaryKey)
    (hrun : applyAll a (down ++ up) = .ok c) : SameKeys a b := by
  intro n k l hk hl hkp hlp
  by_contra hne
  have hno : ∀ g, b.Declares (.field n g) → g.name ≠ k.name := by
    intro g hg hn
    have hgp := hmatch n k g hk hg hn.symm
    obtain rfl := hb.key_unique hg hl (hgp.symm.trans hkp) hlp
    exact hne hn.symm
  have hin := hp.removed (.removeField n k) ⟨hl.owner, hk, hno⟩ rfl rfl
  obtain ⟨before, after, hsplit⟩ := List.append_of_mem hin
  have hall : down ++ up = (before ++ [.removeField n k]) ++ (after ++ up) := by
    rw [hsplit, List.append_assoc, List.append_assoc, List.cons_append, List.cons_append,
      List.nil_append]
  have hfirst := hrun
  rw [hall, Step.applyAll_append] at hfirst
  obtain ⟨t, ht, -⟩ := hfirst
  obtain ⟨f, hf, hfp⟩ := (hp.sound ha hb hall ht).exists_key
    (hp.keeps_entity ha hb hall ht hk.owner hl.owner)
  rcases (hp.declares ha hb hall ht _).1 hf with ⟨st, hst, hadd⟩ | ⟨hfa, hleft⟩
  · have hdown : st ∈ down := by
      rw [hsplit]
      rcases List.mem_append.1 hst with hst | hst
      · exact List.mem_append_left _ hst
      · rw [List.mem_singleton.1 hst]
        exact List.mem_append_right _ List.mem_cons_self
    have hprop := hp.proposed st (List.mem_append_left _ hdown)
    have hfall := hp.falls st hdown
    cases st with
    | createEntity _ | addField _ _ | addRelationship _ _ => cases hfall
    | alterField m old new =>
      cases hadd
      obtain rfl := ha.key_unique hprop.1 hk (hprop.2.2.2.trans hfp) hkp
      exact hno f hprop.2.1 hprop.2.2.1.symm
    | alterReference _ _ _ => cases hadd
    | _ => exact hadd
  · obtain rfl := ha.key_unique hfa hk hfp hkp
    exact hleft (.removeField n f) (List.mem_append_right _ List.mem_cons_self) ⟨rfl, rfl⟩

theorem Obsolete.congr_right {n : String} {r : Relationship} {b' : Schema}
    (h : ∀ n r, b.Declares (.relationship n r) ↔ b'.Declares (.relationship n r)) :
    Obsolete a b n r ↔ Obsolete a b' n r := by
  simp only [Obsolete, h]

theorem Obsolete.congr_left {n : String} {r : Relationship} {a' : Schema}
    (h : ∀ n r, a.Declares (.relationship n r) ↔ a'.Declares (.relationship n r)) :
    Obsolete a b n r ↔ Obsolete a' b n r := by
  simp only [Obsolete, h]

section Invert

variable (hp : Plan a b down up) (ha : a.Sound) (hb : b.Sound)
  (hrun : applyAll a (down ++ up) = .ok c)

include hp ha hb hrun

/-- A step that fills a slot of `c` empties it on the way back. -/
theorem Plan.proposes_back (hdrops : ∀ e, .dropEntity e ∈ down → ∃ g ∈ a.entities, e = g.withoutLinks)
    {st : Step} (hst : st ∈ down ++ up) : Proposes c a st.invert := by
  have hprop := hp.proposed st hst
  have hentity := hp.entity_iff ha hb hrun
  have hrel := hp.relationship_iff ha hb hrun
  have hadded : ∀ d, st.Adds d → c.Declares d := fun d hd =>
    (hp.end_iff ha hb hrun d).2 (.inl ⟨st, hst, hd⟩)
  cases st with
  | createEntity e =>
    refine ⟨hadded _ rfl, hprop.1, fun q hq => ?_⟩
    obtain ⟨-, g, hg, rfl⟩ := hprop
    rw [hrel] at hq
    rw [mem_references_withoutLinks, Entity.mem_references]
    exact (Schema.declares_relationship hb.distinct hg _).1 hq
  | dropEntity e =>
    refine ⟨fun hc => hprop.2.1 ((hentity _).1 hc), hdrops e ?_⟩
    rcases List.mem_append.1 hst with hst | hst
    · exact hst
    · exact absurd (hp.rises _ hst) (by simp [shrinks])
  | addField n f => exact ⟨hprop.1, hadded _ rfl, hprop.2.2⟩
  | removeField n f =>
    refine ⟨(hentity n).2 hprop.1, hprop.2.1, fun g hg hn => ?_⟩
    rcases hp.field_of_end ha hb hrun hg with hg | ⟨-, i, hi, hin, -⟩
    · exact hprop.2.2 g hg hn
    · exact hprop.2.2 i hi (hin.symm.trans hn)
  | alterField n old new => exact ⟨hadded _ rfl, hprop.1, hprop.2.2.1.symm, hprop.2.2.2.symm⟩
  | addRelationship n r => exact ⟨(Obsolete.congr_left hrel).2 hprop.1, hprop.2⟩
  | removeRelationship n r =>
    exact ⟨(Obsolete.congr_right hrel).2 hprop.1, fun h => (hentity n).2 (hprop.2 h)⟩
  | alterReference n old new => exact ⟨hadded _ rfl, hprop.1, hprop.2.2.1.symm, hprop.2.2.2.symm⟩

theorem Plan.invert
    (hdrops : ∀ e, .dropEntity e ∈ down → ∃ g ∈ a.entities, e = g.withoutLinks) :
    Plan c a (invertAll up) (invertAll down) where
  proposed st hst := by
    rw [← invertAll_append, mem_invertAll] at hst
    rw [← invert_invert st]
    exact hp.proposes_back ha hb hrun hdrops hst
  apart := by
    rw [← invertAll_append]
    refine pairwise_invertAll (fun s t h => ⟨fun x hs ht => ?_, fun x hs ht => ?_⟩) hp.apart
    · rw [emptied?_invert] at hs ht
      exact h.2 x ht hs
    · rw [filled?_invert] at hs ht
      exact h.1 x ht hs
  falls st hst := by
    rw [← invert_invert st, grows_invert]
    exact hp.rises _ ((mem_invertAll st up).1 hst)
  rises st hst := by
    rw [← invert_invert st, shrinks_invert]
    exact hp.falls _ ((mem_invertAll st down).1 hst)
  removed st hst hc hs := by
    refine (mem_invertAll st up).2 (hp.added _ ?_ (isChange_invert st ▸ hc) (grows_invert st ▸ hs))
    have hrel := hp.relationship_iff ha hb hrun
    cases st with
    | removeField n f =>
      refine ⟨hst.1, ?_, hst.2.2⟩
      rcases hp.field_of_end ha hb hrun hst.2.1 with hf | ⟨hf, -⟩
      · exact hf
      · exact absurd rfl (hst.2.2 f hf)
    | removeRelationship n r => exact ⟨(Obsolete.congr_left hrel).1 hst.1, hst.2⟩
    | dropEntity _ => cases hc
    | _ => cases hs
  added st hst hc hg := by
    refine (mem_invertAll st down).2
      (hp.removed _ ?_ (isChange_invert st ▸ hc) (shrinks_invert st ▸ hg))
    have hentity := hp.entity_iff ha hb hrun
    have hrel := hp.relationship_iff ha hb hrun
    cases st with
    | addField n f =>
      refine ⟨(hentity n).1 hst.1, hst.2.1, fun g hg hn => ?_⟩
      obtain ⟨i, hi, hin⟩ := hp.exists_field ha hb hrun hg
      exact hst.2.2 i hi (hin.trans hn)
    | addRelationship n r =>
      exact ⟨(Obsolete.congr_right hrel).1 hst.1, fun h => (hentity n).1 (hst.2 h)⟩
    | createEntity _ => cases hc
    | _ => cases hg
  amended n old new hst hne := by
    rw [← invertAll_append, mem_invertAll]
    refine hp.amended n new old ⟨hst.2.1, ?_, hst.2.2.1.symm, hst.2.2.2.symm⟩ hne.symm
    exact (hp.relationship_iff ha hb hrun n _).1 hst.1
  dropped n hnc hna := by
    obtain ⟨g, hg, rfl⟩ := (hp.entity_iff ha hb hrun n).1 hnc
    exact ⟨g.withoutLinks, (mem_invertAll _ up).2 (hp.created g hg hna), rfl⟩
  created g hg hnc := by
    have hnb : ¬ b.Declares (.entity g.name) := fun h => hnc ((hp.entity_iff ha hb hrun _).2 h)
    obtain ⟨e, he, hn⟩ := hp.dropped g.name ⟨g, hg, rfl⟩ hnb
    obtain ⟨i, hi, rfl⟩ := hdrops e he
    obtain rfl := Schema.eq_of_name_eq ha.distinct hi hg hn
    exact (mem_invertAll _ down).2 he
  drops := by
    refine pairwise_invertAll (fun s t h d hd => ?_) hp.creates
    obtain ⟨e, rfl, hprec⟩ := h d (by rw [← invert_invert s, hd]; rfl)
    exact ⟨e, rfl, hprec⟩
  creates := by
    refine pairwise_invertAll (fun s t h e he => ?_) hp.drops
    obtain ⟨d, rfl, hprec⟩ := h e (by rw [← invert_invert t, he]; rfl)
    exact ⟨d, rfl, hprec⟩

end Invert

end SchemaLedger.Diff
