import SchemaLedger.Proofs.Migration.Proposal

set_option autoImplicit false

/-!
# Plans replay

The first half of a plan leads from `a` through parts of `a` to a part of both schemas, the second one
from there through parts of `b` to `b`. So each step fits, and no step of a plan fails.
-/
namespace SchemaLedger.Diff

open Dependency (Precedes)
open Step (applyAll)

variable {a b : Schema}

/-! ## What proposed steps add and remove -/

theorem Proposes.declares {st : Step} (h : Proposes a b st) {d : Declaration} (hd : st.Adds d) :
    b.Declares d := by
  cases st with
  | createEntity e =>
    obtain ⟨-, g, hg, rfl⟩ := h
    refine ⟨g, hg, ?_⟩
    cases d with
    | entity n => exact hd
    | field n f => exact hd
    | relationship n r => exact ⟨hd.1, (references_sublist g.relationships).subset hd.2⟩
  | addField n f =>
    rw [show d = _ from hd]
    exact h.2.1
  | alterField n old new =>
    rw [show d = _ from hd]
    exact h.2.1
  | addRelationship n r =>
    rw [show d = _ from hd]
    exact h.1.1
  | alterReference n old new =>
    rw [show d = _ from hd]
    exact h.2.1
  | dropEntity _ | removeField _ _ | removeRelationship _ _ => exact absurd hd id

theorem Proposes.owner {st : Step} (h : Proposes a b st) {d : Declaration} (hd : st.Removes d) :
    a.Declares (.entity d.owner) := by
  rw [Step.owner_of_removes hd]
  cases st with
  | dropEntity e => exact h.1
  | removeField n f => exact h.2.1.owner
  | alterField n old new => exact h.1.owner
  | removeRelationship n r => exact h.1.1.owner
  | alterReference n old new => exact h.1.owner
  | createEntity _ | addField _ _ | addRelationship _ _ => exact absurd hd id

/-- Only a drop removes an entity, and not one that stays. -/
theorem Proposes.not_removes_entity {st : Step} (h : Proposes a b st) {n : String}
    (hn : b.Declares (.entity n)) : ¬ st.Removes (.entity n) := by
  cases st with
  | dropEntity e =>
    intro hr
    exact h.2.1 ((show n = e.name from hr) ▸ hn)
  | _ => exact id

theorem respects_of_proposes (ha : a.Sound) (hb : b.Sound) {s t : Step} (hs : Proposes a b s)
    (ht : Proposes a b t) (hst : Apart s t) (hpos : grows s = true → shrinks t = false) :
    s.Respects t := by
  intro d hadd hrem
  have hbd := hs.declares hadd
  cases t with
  | createEntity _ | addField _ _ | addRelationship _ _ => exact hrem
  | dropEntity e => exact ht.2.1 ((show d.owner = e.name from hrem) ▸ hbd.owner)
  | removeField n f =>
    cases d with
    | field m g =>
      obtain ⟨rfl, hn⟩ := hrem
      exact ht.2.2 g hbd hn
    | _ => exact hrem
  | alterField n old new =>
    cases d with
    | field m g =>
      obtain ⟨rfl, hn⟩ := hrem
      cases s with
      | createEntity e => exact hs.1 (hadd.1 ▸ ht.1.owner)
      | addField _ f =>
        cases hadd
        exact hs.2.2 old ht.1 hn.symm
      | alterField _ _ _ =>
        cases hadd
        exact hst.2 (.field m g.name) rfl (by rw [filled?, ← ht.2.2.1, hn])
      | alterReference _ _ _ | addRelationship _ _ => cases hadd
      | _ => exact hadd
    | _ => exact hrem
  | removeRelationship n r =>
    cases d with
    | relationship m q =>
      obtain ⟨rfl, hn⟩ := hrem
      cases s with
      | createEntity e => exact hs.1 (hadd.1 ▸ ht.1.1.owner)
      | addRelationship _ _ => exact absurd (hpos rfl) (by simp [shrinks])
      | alterReference _ old new =>
        cases hadd
        exact ht.1.not_altered ha hs.1 hs.2.1 hs.2.2.1 hs.2.2.2 (hn.symm.trans hs.2.2.1.symm)
      | addField _ _ | alterField _ _ _ => cases hadd
      | _ => exact hadd
    | _ => exact hrem
  | alterReference n old new =>
    cases d with
    | relationship m q =>
      obtain ⟨rfl, hn⟩ := hrem
      cases s with
      | createEntity e => exact hs.1 (hadd.1 ▸ ht.1.owner)
      | addRelationship _ r =>
        cases hadd
        exact hs.1.not_altered hb ht.2.1 ht.1 ht.2.2.1.symm ht.2.2.2.symm (hn.trans ht.2.2.1)
      | alterReference _ _ new' =>
        cases hadd
        exact hst.2 (.relationship m new'.name) rfl (by rw [filled?, ← ht.2.2.1, ← hn]; rfl)
      | addField _ _ | alterField _ _ _ => cases hadd
      | _ => exact hadd
    | _ => exact hrem

/-! ## Moments of a run -/

variable {down up before after : List Step} {step : Step} {t : Schema}

theorem Plan.respects (hp : Plan a b down up) (ha : a.Sound) (hb : b.Sound) :
    (down ++ up).Pairwise Step.Respects := by
  have hpos : (down ++ up).Pairwise fun s t => grows s = true → shrinks t = false := by
    refine List.pairwise_append.2 ⟨?_, ?_, ?_⟩
    · refine List.pairwise_of_forall_mem_list fun s hs t _ hg => ?_
      simp [hp.falls s hs] at hg
    · exact List.pairwise_of_forall_mem_list fun s _ t ht _ => hp.rises t ht
    · intro s _ t ht _
      exact hp.rises t ht
  refine (hp.apart.and hpos).imp_of_mem fun hs ht h => ?_
  exact respects_of_proposes ha hb (hp.proposed _ hs) (hp.proposed _ ht) h.1 h.2

theorem Plan.declares (hp : Plan a b down up) (ha : a.Sound) (hb : b.Sound)
    (hsplit : down ++ up = before ++ after) (hrun : applyAll a before = .ok t) (d : Declaration) :
    t.Declares d ↔
      (∃ st ∈ before, st.Adds d) ∨ a.Declares d ∧ ∀ st ∈ before, ¬ st.Removes d := by
  have hr := hp.respects ha hb
  rw [hsplit] at hr
  exact Step.declares_applyAll ha.distinct (List.pairwise_append.1 hr).1 hrun d

theorem emptied?_of_removes {st : Step} {d : Declaration} (hr : st.Removes d)
    (hd : ∀ e, st ≠ .dropEntity e) : emptied? st = some (slotOf d) := by
  cases st with
  | dropEntity e => exact absurd rfl (hd e)
  | createEntity _ | addField _ _ | addRelationship _ _ => exact absurd hr id
  | removeField _ _ | alterField _ _ _ =>
    cases d with
    | field m g => rw [emptied?, slotOf, hr.1, hr.2]
    | _ => exact absurd hr id
  | removeRelationship _ _ | alterReference _ _ _ =>
    cases d with
    | relationship m q => rw [emptied?, slotOf, hr.1, hr.2]
    | _ => exact absurd hr id

/-- No member of a dropped entity is removed after the drop. -/
theorem Plan.drops_last (hp : Plan a b down up) :
    (down ++ up).Pairwise fun s t =>
      ∀ e, s = .dropEntity e → shrinks t = true → ∃ g, t = .dropEntity g := by
  refine List.pairwise_append.2 ⟨hp.drops.imp fun h e he _ => ?_, ?_, ?_⟩
  · obtain ⟨g, hg, -⟩ := h e he
    exact ⟨g, hg⟩
  · refine List.pairwise_of_forall_mem_list fun s _ t ht e _ hs => ?_
    simp [hp.rises t ht] at hs
  · intro s _ t ht e _ hs
    simp [hp.rises t ht] at hs

theorem Plan.emptied_once (hp : Plan a b down up)
    (hsplit : down ++ up = before ++ step :: after) {d : Declaration}
    (hslot : emptied? step = some (slotOf d)) {st : Step} (hst : st ∈ before) : ¬ st.Removes d := by
  intro hr
  have hapart := hp.apart
  have hlast := hp.drops_last
  rw [hsplit] at hapart hlast
  have hne := (List.pairwise_append.1 hapart).2.2 st hst step List.mem_cons_self
  have hlate := (List.pairwise_append.1 hlast).2.2 st hst step List.mem_cons_self
  have hprop := hp.proposed step (by simp [hsplit])
  by_cases hdrop : ∃ e, st = .dropEntity e
  · obtain ⟨e, rfl⟩ := hdrop
    have howner : step.entityName = e.name := by
      rw [← owner_of_emptied? hslot, owner_slotOf]
      exact hr
    have hgone : ¬ b.Declares (.entity step.entityName) := by
      rw [howner]
      exact (hp.proposed (.dropEntity e) (by simp [hsplit, hst])).2.1
    cases step with
    | createEntity _ | addField _ _ | addRelationship _ _ => cases hslot
    | dropEntity g => exact hne.1 _ rfl (congrArg (some ∘ Slot.entity) howner)
    | removeField _ _ | removeRelationship _ _ =>
      obtain ⟨g, hg⟩ := hlate e rfl rfl
      cases hg
    | alterField _ _ _ | alterReference _ _ _ => exact hgone hprop.2.1.owner
  · exact hne.1 _ (emptied?_of_removes hr fun e he => hdrop ⟨e, he⟩) hslot

theorem filled?_of_adds {st : Step} {d : Declaration} (hr : st.Adds d)
    (hd : ∀ e, st ≠ .createEntity e) : filled? st = some (slotOf d) := by
  cases st with
  | createEntity e => exact absurd rfl (hd e)
  | dropEntity _ | removeField _ _ | removeRelationship _ _ => exact absurd hr id
  | addField _ _ | alterField _ _ _ | addRelationship _ _ | alterReference _ _ _ =>
    rw [show d = _ from hr]
    rfl

theorem Plan.filled_once (hp : Plan a b down up) (hb : b.Sound)
    (hsplit : down ++ up = before ++ step :: after) {d : Declaration}
    (hslot : filled? step = some (slotOf d)) {st : Step} (hst : st ∈ before) : ¬ st.Adds d := by
  intro hadd
  have hapart := hp.apart
  rw [hsplit] at hapart
  have hne := (List.pairwise_append.1 hapart).2.2 st hst step List.mem_cons_self
  have hprop := hp.proposed step (by simp [hsplit])
  have hst' := hp.proposed st (by simp [hsplit, hst])
  by_cases hcreate : ∃ e, st = .createEntity e
  · obtain ⟨e, rfl⟩ := hcreate
    have howner : step.entityName = e.name := by
      rw [← owner_of_filled? hslot, owner_slotOf]
      exact Step.owner_of_adds hadd
    have hnew : ¬ a.Declares (.entity step.entityName) := by
      rw [howner]
      exact hst'.1
    cases step with
    | dropEntity _ | removeField _ _ | removeRelationship _ _ => cases hslot
    | createEntity g => exact hne.2 _ rfl (congrArg (some ∘ Slot.entity) howner)
    | addField _ _ => exact hnew hprop.1
    | alterField _ _ _ | alterReference _ _ _ => exact hnew hprop.1.owner
    | addRelationship n r =>
      -- Only a many-to-many relationship can be missing in an entity just created.
      cases d with
      | relationship m q =>
        obtain ⟨rfl, hn⟩ : n = m ∧ r.name = q.name := by simpa [filled?, slotOf] using hslot
        obtain rfl := hb.relationship_unique (hst'.declares hadd) hprop.1.1 hn.symm
        obtain ⟨-, g, -, rfl⟩ := hst'
        obtain ⟨i, -, rfl⟩ := List.mem_map.1 hadd.2
        exact hnew (hprop.2 rfl)
      | _ => simp [filled?, slotOf] at hslot
  · exact hne.2 _ (filled?_of_adds hadd fun e he => hcreate ⟨e, he⟩) hslot

/-- What a step removes is there when its turn comes. -/
theorem Plan.still (hp : Plan a b down up) (ha : a.Sound) (hb : b.Sound)
    (hsplit : down ++ up = before ++ step :: after) (hrun : applyAll a before = .ok t)
    {d : Declaration} (hd : a.Declares d) (hslot : emptied? step = some (slotOf d)) :
    t.Declares d :=
  (hp.declares ha hb hsplit hrun d).2 (.inr ⟨hd, fun _ hst => hp.emptied_once hsplit hslot hst⟩)

theorem Plan.keeps_entity (hp : Plan a b down up) (ha : a.Sound) (hb : b.Sound)
    (hsplit : down ++ up = before ++ after) (hrun : applyAll a before = .ok t) {n : String}
    (hna : a.Declares (.entity n)) (hnb : b.Declares (.entity n)) : t.Declares (.entity n) := by
  refine (hp.declares ha hb hsplit hrun _).2 (.inr ⟨hna, fun st hst => ?_⟩)
  refine (hp.proposed st ?_).not_removes_entity hnb
  rw [hsplit]
  exact List.mem_append_left _ hst

theorem Plan.sound (hp : Plan a b down up) (ha : a.Sound) (hb : b.Sound)
    (hsplit : down ++ up = before ++ after) (hrun : applyAll a before = .ok t) : t.Sound := by
  refine Step.sound_applyAll ha (fun e he => ?_) hrun
  obtain ⟨-, g, hg, rfl⟩ := hp.proposed (.createEntity e) (by
    rw [hsplit]
    exact List.mem_append_left _ he)
  exact (withoutLinks_partOf (hb.entities g hg)).sound (hb.entities g hg)

/-! ## The first half -/

/-- A relationship that refers to an entity with no place in `b` has to go. -/
theorem obsolete_of_target (hb : b.Sound) {n : String} {r : Relationship}
    (hr : a.Declares (.relationship n r)) (ht : ¬ b.Declares (.entity r.target)) :
    Obsolete a b n r := by
  refine ⟨hr, fun q hq _ => ⟨?_, ?_⟩⟩
  · rintro rfl
    exact ht (hb.targets n q hq)
  · cases q with
    | many _ => rfl
    | single i =>
      cases r with
      | many _ => rfl
      | single j =>
        refine decide_eq_false fun heq => ht ?_
        change b.Declares (.entity j.target)
        rw [← heq]
        exact hb.targets n _ hq

/-- When an entity is dropped, nothing else refers to it any more. -/
theorem Plan.unreferenced (hp : Plan a b down up) (ha : a.Sound) (hb : b.Sound) {e : Entity}
    (hsplit : down = before ++ .dropEntity e :: after) (hrun : applyAll a before = .ok t)
    {n : String} {r : Relationship} (hr : t.Declares (.relationship n r))
    (ht : r.target = e.name) : n = e.name := by
  have hall : down ++ up = before ++ .dropEntity e :: (after ++ up) := by
    rw [hsplit, List.append_assoc, List.cons_append]
  have hmem : ∀ st ∈ down, st ∈ down ++ up := fun st hst => List.mem_append_left _ hst
  have he : Proposes a b (.dropEntity e) := hp.proposed _ (hmem _ (by simp [hsplit]))
  have hgone : ¬ b.Declares (.entity r.target) := ht ▸ he.2.1
  have hlast : ∀ st ∈ after, ∃ i, st = .dropEntity i ∧ Precedes i e := by
    intro st hst
    have hdrops := hp.drops
    rw [hsplit] at hdrops
    exact (List.pairwise_cons.1 (List.pairwise_append.1 hdrops).2.1).1 st hst e rfl
  rcases (hp.declares ha hb hall hrun _).1 hr with ⟨st, hst, hadd⟩ | ⟨hra, hleft⟩
  · have hdown : st ∈ down := by
      rw [hsplit]
      exact List.mem_append_left _ hst
    exact absurd (hb.targets n r ((hp.proposed st (hmem st hdown)).declares hadd)) hgone
  · have hobs := obsolete_of_target hb hra hgone
    -- A step that removes `r` is in the first half, so it came before or is among the drops.
    have hremoved : (isMany r = false → b.Declares (.entity n)) → False := by
      intro hn
      have hin := hp.removed (.removeRelationship n r) ⟨hobs, hn⟩ rfl rfl
      rw [hsplit] at hin
      rcases List.mem_append.1 hin with hin | hin
      · exact hleft _ hin ⟨rfl, rfl⟩
      · rcases List.mem_cons.1 hin with heq | hin
        · cases heq
        · obtain ⟨i, heq, -⟩ := hlast _ hin
          cases heq
    by_cases hnb : b.Declares (.entity n)
    · exact (hremoved fun _ => hnb).elim
    · cases r with
      | many l => exact (hremoved fun h => by cases h).elim
      | single q =>
        obtain ⟨i, hi, rfl⟩ := hp.dropped n hra.owner hnb
        rw [hsplit] at hi
        rcases List.mem_append.1 hi with hi | hi
        · exact absurd rfl (hleft _ hi)
        · rcases List.mem_cons.1 hi with heq | hi
          · cases heq
            rfl
          · obtain ⟨j, heq, hprec⟩ := hlast _ hi
            cases heq
            have hprop := hp.proposed _ (hmem (.dropEntity i) (by simp [hsplit, hi]))
            exact hprec q (hprop.2.2 q hra) ht

theorem Plan.fits_down (hp : Plan a b down up) (ha : a.Sound) (hb : b.Sound) (hk : SameKeys a b)
    (hsplit : down = before ++ step :: after) (hrun : applyAll a before = .ok t) :
    step.Fits a t := by
  have hall : down ++ up = before ++ step :: (after ++ up) := by
    rw [hsplit, List.append_assoc, List.cons_append]
  have hin : step ∈ down := by simp [hsplit]
  have hprop := hp.proposed step (List.mem_append_left _ hin)
  have hfall := hp.falls step hin
  cases step with
  | createEntity _ | addField _ _ | addRelationship _ _ => cases hfall
  | dropEntity e =>
    refine ⟨hp.still ha hb hall hrun hprop.1 rfl, fun n r hr ht => ?_⟩
    exact hp.unreferenced ha hb hsplit hrun hr ht
  | removeField n f =>
    refine ⟨hp.still ha hb hall hrun hprop.2.1 rfl, ?_⟩
    obtain ⟨l, hl, hlp⟩ := hb.exists_key hprop.1
    refine Bool.eq_false_iff.2 fun hfp => ?_
    exact hprop.2.2 l hl (hk n f l hprop.2.1 hl hfp hlp).symm
  | alterField n old new =>
    exact ⟨hp.still ha hb hall hrun hprop.1 rfl, hprop.2.2.1.symm, hprop.2.2.2.symm,
      hb.field_sound hprop.2.1⟩
  | removeRelationship n r => exact hp.still ha hb hall hrun hprop.1.1 rfl
  | alterReference n old new =>
    exact ⟨hp.still ha hb hall hrun hprop.1 rfl, hprop.2.2.1.symm, hprop.2.2.2.symm⟩

/-! ## Between the halves -/

theorem like_of_not_obsolete {n : String} {r : Relationship} (hr : a.Declares (.relationship n r))
    (h : ¬ Obsolete a b n r) : ∃ q, b.Declares (.relationship n q) ∧ r.Like q := by
  have hex : ∃ q, b.Declares (.relationship n q) ∧ q.name = r.name ∧
      (q = r ∨ altersInPlace q r = true) := by
    by_contra hno
    push Not at hno
    refine h ⟨hr, fun q hq hn => ?_⟩
    obtain ⟨hne, halt⟩ := hno q hq hn
    exact ⟨hne, Bool.eq_false_iff.2 halt⟩
  obtain ⟨q, hq, hn, rfl | halt⟩ := hex
  · exact ⟨q, hq, .refl q⟩
  · refine ⟨q, hq, ?_⟩
    cases q with
    | many _ => cases halt
    | single i =>
      cases r with
      | many _ => cases halt
      | single j => exact ⟨hn.symm, (of_decide_eq_true halt).symm⟩

/-- After the first half the schema is a part of both ends. -/
theorem Plan.middle_partOf (hp : Plan a b down up) (ha : a.Sound) (hb : b.Sound)
    (hk : SameKeys a b) (hrun : applyAll a down = .ok t) (ht : t.PartOf a) : t.PartOf b := by
  have hdecl := hp.declares ha hb rfl hrun
  have hprop : ∀ st ∈ down, Proposes a b st := fun st hst =>
    hp.proposed st (List.mem_append_left _ hst)
  have hentity : ∀ n, t.Declares (.entity n) → b.Declares (.entity n) := by
    intro n hn
    rcases (hdecl _).1 hn with ⟨st, hst, hadd⟩ | ⟨hna, hleft⟩
    · exact (hprop st hst).declares hadd
    · by_contra hnb
      obtain ⟨e, he, rfl⟩ := hp.dropped n hna hnb
      exact hleft _ he rfl
  refine ⟨ht.distinct, fun e he => ?_, ht.targets⟩
  obtain ⟨g, hg, hname⟩ := hentity e.name ⟨e, he, rfl⟩
  obtain ⟨i, hi, hpart⟩ := ht.entities e he
  have hbn : b.Declares (.entity e.name) := hname ▸ Schema.declares_of_mem hg
  refine ⟨g, hg, hname.symm, hpart.fieldNames, hpart.relationshipNames, fun f hf => ?_,
    fun r hr => ?_, hpart.key⟩
  · refine ⟨(hpart.fields f hf).1, ?_⟩
    have hmem : ∀ l, b.Declares (.field e.name l) → l ∈ g.fields := by
      intro l hl
      rw [← show g.name = e.name from hname, Schema.declares_field hb.distinct hg] at hl
      exact hl
    rcases (hdecl _).1 (Schema.declares_field_of_mem he hf) with ⟨st, hst, hadd⟩ | ⟨hfa, hleft⟩
    · exact ⟨f, hmem f ((hprop st hst).declares hadd), rfl, rfl⟩
    · by_contra hno
      push Not at hno
      have hfresh : ∀ l, b.Declares (.field e.name l) → l.name ≠ f.name := fun l hl hn =>
        hno l (hmem l hl) hn (hk.iff ha hb hfa hl hn.symm).symm
      exact hleft _ (hp.removed (.removeField e.name f) ⟨hbn, hfa, hfresh⟩ rfl rfl) ⟨rfl, rfl⟩
  · have hmem : ∀ q, b.Declares (.relationship e.name q) → q ∈ g.relationships := by
      intro q hq
      rw [← show g.name = e.name from hname, Schema.declares_relationship hb.distinct hg] at hq
      exact hq
    rcases (hdecl _).1 (Schema.declares_relationship_of_mem he hr) with
      ⟨st, hst, hadd⟩ | ⟨hra, hleft⟩
    · exact ⟨r, hmem r ((hprop st hst).declares hadd), .refl r⟩
    · have hno : ¬ Obsolete a b e.name r := fun hobs =>
        hleft _ (hp.removed (.removeRelationship e.name r) ⟨hobs, fun _ => hbn⟩ rfl rfl) ⟨rfl, rfl⟩
      obtain ⟨q, hq, hlike⟩ := like_of_not_obsolete hra hno
      exact ⟨q, hmem q hq, hlike⟩

/-! ## The second half -/

/-- In the second half the entities of `b` are there, except when an entity that does not need them is
created. -/
theorem Plan.arrives (hp : Plan a b down up) (ha : a.Sound) (hb : b.Sound)
    (hsplit : up = before ++ step :: after) (hrun : applyAll a (down ++ before) = .ok t) {n : String}
    (hn : b.Declares (.entity n)) :
    t.Declares (.entity n) ∨ ∃ e d, step = .createEntity e ∧ d.name = n ∧ Precedes e d := by
  have hall : down ++ up = (down ++ before) ++ step :: after := by rw [hsplit, List.append_assoc]
  by_cases hna : a.Declares (.entity n)
  · exact .inl (hp.keeps_entity ha hb hall hrun hna hn)
  · obtain ⟨g, hg, rfl⟩ := hn
    have hin := hp.created g hg hna
    rw [hsplit] at hin
    rcases List.mem_append.1 hin with hin | hin
    · refine .inl ((hp.declares ha hb hall hrun _).2 (.inl ⟨.createEntity g.withoutLinks, ?_, rfl⟩))
      exact List.mem_append_right _ hin
    · refine .inr ?_
      rcases List.mem_cons.1 hin with rfl | hin
      · exact ⟨_, _, rfl, rfl, fun _ _ _ => rfl⟩
      · have hcreates := hp.creates
        rw [hsplit] at hcreates
        obtain ⟨d, hd, hprec⟩ :=
          (List.pairwise_cons.1 (List.pairwise_append.1 hcreates).2.1).1 _ hin _ rfl
        exact ⟨d, _, hd, rfl, hprec⟩

theorem Plan.arrives_of_member (hp : Plan a b down up) (ha : a.Sound) (hb : b.Sound)
    (hsplit : up = before ++ step :: after) (hrun : applyAll a (down ++ before) = .ok t)
    (hstep : step.isChange = true) {n : String} (hn : b.Declares (.entity n)) :
    t.Declares (.entity n) := by
  rcases hp.arrives ha hb hsplit hrun hn with h | ⟨e, d, rfl, -, -⟩
  · exact h
  · cases hstep

theorem Plan.fresh_field (hp : Plan a b down up) (ha : a.Sound) (hb : b.Sound) {n : String}
    {f : Field} (hsplit : down ++ up = before ++ .addField n f :: after)
    (hrun : applyAll a before = .ok t) {g : Field} (hg : t.Declares (.field n g)) :
    g.name ≠ f.name := by
  intro hn
  obtain ⟨hna, hf, hno⟩ := hp.proposed (.addField n f) (by simp [hsplit])
  rcases (hp.declares ha hb hsplit hrun _).1 hg with ⟨st, hst, hadd⟩ | ⟨hga, -⟩
  · have hprop := hp.proposed st (by simp [hsplit, hst])
    obtain rfl := hb.field_unique (hprop.declares hadd) hf hn
    exact hp.filled_once hb hsplit rfl hst hadd
  · exact hno g hga hn

theorem Plan.fresh_relationship (hp : Plan a b down up) (ha : a.Sound) (hb : b.Sound) {n : String}
    {r : Relationship} (hsplit : up = before ++ .addRelationship n r :: after)
    (hrun : applyAll a (down ++ before) = .ok t) {q : Relationship}
    (hq : t.Declares (.relationship n q)) : q.name ≠ r.name := by
  intro hn
  have hall : down ++ up = (down ++ before) ++ .addRelationship n r :: after := by
    rw [hsplit, List.append_assoc]
  obtain ⟨hobs, -⟩ := hp.proposed (.addRelationship n r) (by simp [hsplit])
  rcases (hp.declares ha hb hall hrun _).1 hq with ⟨st, hst, hadd⟩ | ⟨hqa, hleft⟩
  · have hprop := hp.proposed st (by
      rw [hall]
      exact List.mem_append_left _ hst)
    obtain rfl := hb.relationship_unique (hprop.declares hadd) hobs.1 hn
    exact hp.filled_once hb hall rfl hst hadd
  · obtain ⟨hne, halt⟩ := hobs.2 q hqa hn
    have hback : Obsolete a b n q := by
      refine ⟨hqa, fun i hi hin => ?_⟩
      obtain rfl := hb.relationship_unique hi hobs.1 (hin.trans hn)
      exact ⟨hne.symm, altersInPlace_comm i q ▸ halt⟩
    have hin := hp.removed (.removeRelationship n q) ⟨hback, fun _ => hobs.1.owner⟩ rfl rfl
    exact hleft _ (List.mem_append_left _ hin) ⟨rfl, rfl⟩

theorem Plan.fits_up (hp : Plan a b down up) (ha : a.Sound) (hb : b.Sound)
    (hsplit : up = before ++ step :: after) (hrun : applyAll a (down ++ before) = .ok t) :
    step.Fits b t := by
  have hall : down ++ up = (down ++ before) ++ step :: after := by rw [hsplit, List.append_assoc]
  have hin : step ∈ up := by simp [hsplit]
  have hprop := hp.proposed step (List.mem_append_right _ hin)
  have hrise := hp.rises step hin
  cases step with
  | dropEntity _ | removeField _ _ | removeRelationship _ _ => cases hrise
  | createEntity e =>
    obtain ⟨hna, g, hg, rfl⟩ := hprop
    refine ⟨fun ht => ?_, ⟨g, hg, withoutLinks_partOf (hb.entities g hg)⟩, fun r hr => ?_⟩
    · rcases (hp.declares ha hb hall hrun _).1 ht with ⟨st, hst, hadd⟩ | ⟨h, -⟩
      · exact hp.filled_once hb hall rfl hst hadd
      · exact hna h
    · have hmem := (references_sublist g.relationships).subset hr
      have htarget := hb.targets g.name r (Schema.declares_relationship_of_mem hg hmem)
      rcases hp.arrives ha hb hsplit hrun htarget with h | ⟨e, d, heq, hd, hprec⟩
      · exact .inr h
      · cases heq
        obtain ⟨q, hq, rfl⟩ := List.mem_map.1 hr
        have hlinks := (Entity.mem_references g.withoutLinks q).2 hr
        exact .inl (hd.symm.trans (hprec q hlinks hd.symm).symm)
  | addField n f =>
    refine ⟨hp.keeps_entity ha hb hall hrun hprop.1 hprop.2.1.owner, hprop.2.1, fun g hg => ?_⟩
    exact hp.fresh_field ha hb hall hrun hg
  | alterField n old new =>
    exact ⟨hp.still ha hb hall hrun hprop.1 rfl, hprop.2.2.1.symm, hprop.2.2.2.symm,
      hb.field_sound hprop.2.1⟩
  | addRelationship n r =>
    refine ⟨hp.arrives_of_member ha hb hsplit hrun rfl hprop.1.1.owner, hprop.1.1,
      hp.arrives_of_member ha hb hsplit hrun rfl (hb.targets n r hprop.1.1), fun q hq => ?_⟩
    exact hp.fresh_relationship ha hb hsplit hrun hq
  | alterReference n old new =>
    exact ⟨hp.still ha hb hall hrun hprop.1 rfl, hprop.2.2.1.symm, hprop.2.2.2.symm⟩

/-! ## The whole run -/

theorem Plan.runs (hp : Plan a b down up) (ha : a.Sound) (hb : b.Sound) (hk : SameKeys a b) :
    ∃ c, applyAll a (down ++ up) = .ok c ∧ c.PartOf b := by
  obtain ⟨m, hm, hma⟩ := Step.applyAll_of_fits ha (.refl ha) down
    fun _ _ _ hsplit _ ht _ => hp.fits_down ha hb hk hsplit ht
  have hmb := hp.middle_partOf ha hb hk hm hma
  obtain ⟨c, hc, hcb⟩ := Step.applyAll_of_fits hb hmb up
    fun before _ _ hsplit t ht _ =>
      hp.fits_up ha hb hsplit ((Step.applyAll_append a t down before).2 ⟨m, hm, ht⟩)
  exact ⟨c, (Step.applyAll_append a c down up).2 ⟨m, hm, hc⟩, hcb⟩

/-! ## Where the run leads -/

variable {c : Schema}

theorem Plan.end_iff (hp : Plan a b down up) (ha : a.Sound) (hb : b.Sound)
    (hrun : applyAll a (down ++ up) = .ok c) (d : Declaration) :
    c.Declares d ↔
      (∃ st ∈ down ++ up, st.Adds d) ∨ a.Declares d ∧ ∀ st ∈ down ++ up, ¬ st.Removes d :=
  hp.declares ha hb (List.append_nil _).symm hrun d

/-- What is left of `a` belongs to an entity that stays. -/
theorem Plan.owner_of_left (hp : Plan a b down up) {d : Declaration} (hd : a.Declares d)
    (hleft : ∀ st ∈ down ++ up, ¬ st.Removes d) : b.Declares (.entity d.owner) := by
  by_contra hgone
  obtain ⟨e, he, hn⟩ := hp.dropped d.owner hd.owner hgone
  exact hleft _ (List.mem_append_left _ he) hn.symm

theorem Plan.entity_iff (hp : Plan a b down up) (ha : a.Sound) (hb : b.Sound)
    (hrun : applyAll a (down ++ up) = .ok c) (n : String) :
    c.Declares (.entity n) ↔ b.Declares (.entity n) := by
  constructor
  · intro hc
    rcases (hp.end_iff ha hb hrun _).1 hc with ⟨st, hst, hadd⟩ | ⟨hna, hleft⟩
    · exact (hp.proposed st hst).declares hadd
    · exact hp.owner_of_left hna hleft
  · intro hnb
    by_cases hna : a.Declares (.entity n)
    · exact hp.keeps_entity ha hb (List.append_nil _).symm hrun hna hnb
    · obtain ⟨g, hg, rfl⟩ := hnb
      have hin := hp.created g hg hna
      exact (hp.end_iff ha hb hrun _).2 (.inl ⟨_, List.mem_append_right _ hin, rfl⟩)

/-- A relationship of `a` that no step takes away is one of `b`. -/
theorem Plan.relationship_of_left (hp : Plan a b down up) {n : String} {r : Relationship}
    (hra : a.Declares (.relationship n r))
    (hleft : ∀ st ∈ down ++ up, ¬ st.Removes (.relationship n r)) :
    b.Declares (.relationship n r) := by
  have hnb := hp.owner_of_left hra hleft
  have hno : ¬ Obsolete a b n r := by
    intro hobs
    have hin := hp.removed (.removeRelationship n r) ⟨hobs, fun _ => hnb⟩ rfl rfl
    exact hleft _ (List.mem_append_left _ hin) ⟨rfl, rfl⟩
  obtain ⟨q, hq, hlike⟩ := like_of_not_obsolete hra hno
  cases r with
  | many l => exact Relationship.like_many hlike ▸ hq
  | single old =>
    cases q with
    | many _ => exact hlike.elim
    | single new =>
      by_cases heq : old = new
      · exact heq ▸ hq
      · have hin := hp.amended n old new ⟨hra, hq, hlike.1, hlike.2⟩ heq
        exact absurd ⟨rfl, rfl⟩ (hleft _ hin)

/-- A step that takes a relationship of both sides away puts it back. -/
theorem Proposes.adds_of_removes (ha : a.Sound) (hb : b.Sound) {st : Step}
    (hprop : Proposes a b st) {n : String} {r : Relationship}
    (hra : a.Declares (.relationship n r)) (hrb : b.Declares (.relationship n r))
    (hrem : st.Removes (.relationship n r)) : st.Adds (.relationship n r) := by
  cases st with
  | dropEntity e => exact absurd ((show n = e.name from hrem) ▸ hrb.owner) hprop.2.1
  | removeRelationship m i =>
    obtain ⟨rfl, hn⟩ := hrem
    obtain rfl := ha.relationship_unique hprop.1.1 hra hn.symm
    exact absurd rfl (hprop.1.2 _ hrb rfl).1
  | alterReference m old new =>
    obtain ⟨rfl, hn⟩ := hrem
    obtain rfl := hb.relationship_unique hprop.2.1 hrb (hprop.2.2.1.symm.trans hn.symm)
    rfl
  | _ => exact hrem.elim

/-- A relationship that `a` has no counterpart of is put by the step for it or for its entity. -/
theorem Plan.adds_of_obsolete (hp : Plan a b down up) {n : String} {r : Relationship}
    (hrb : b.Declares (.relationship n r)) (hobs : Obsolete b a n r) :
    ∃ st ∈ down ++ up, st.Adds (.relationship n r) := by
  by_cases hadd : isMany r = false → a.Declares (.entity n)
  · have hin := hp.added (.addRelationship n r) ⟨hobs, hadd⟩ rfl rfl
    exact ⟨_, List.mem_append_right _ hin, rfl⟩
  · obtain ⟨hm, hna⟩ := Classical.not_imp.1 hadd
    obtain ⟨g, hg, rfl, hr⟩ := hrb
    have hin := hp.created g hg hna
    refine ⟨_, List.mem_append_right _ hin, rfl, ?_⟩
    cases r with
    | many _ => cases hm
    | single q => exact List.mem_map_of_mem ((Entity.mem_references g q).2 hr)

theorem Plan.relationship_iff (hp : Plan a b down up) (ha : a.Sound) (hb : b.Sound)
    (hrun : applyAll a (down ++ up) = .ok c) (n : String) (r : Relationship) :
    c.Declares (.relationship n r) ↔ b.Declares (.relationship n r) := by
  rw [hp.end_iff ha hb hrun]
  constructor
  · rintro (⟨st, hst, hadd⟩ | ⟨hra, hleft⟩)
    · exact (hp.proposed st hst).declares hadd
    · exact hp.relationship_of_left hra hleft
  · intro hrb
    by_cases hobs : Obsolete b a n r
    · exact .inl (hp.adds_of_obsolete hrb hobs)
    · obtain ⟨q, hq, hlike⟩ := like_of_not_obsolete hrb hobs
      by_cases heq : q = r
      · rw [heq] at hq
        by_contra hno
        push Not at hno
        obtain ⟨st, hst, hrem⟩ := hno.2 hq
        exact hno.1 st hst ((hp.proposed st hst).adds_of_removes ha hb hq hrb hrem)
      · cases r with
        | many l => exact absurd (Relationship.like_many hlike) heq
        | single new =>
          cases q with
          | many _ => exact hlike.elim
          | single old =>
            have hne : old ≠ new := fun h => heq (congrArg Relationship.single h)
            have hin := hp.amended n old new ⟨hq, hrb, hlike.1.symm, hlike.2.symm⟩ hne
            exact .inl ⟨_, hin, rfl⟩

/-- A field of `c` is the one of `b`, or that of `a` if the plan does not alter it. -/
theorem Plan.field_of_end (hp : Plan a b down up) (ha : a.Sound) (hb : b.Sound)
    (hrun : applyAll a (down ++ up) = .ok c) {n : String} {f : Field}
    (hf : c.Declares (.field n f)) :
    b.Declares (.field n f) ∨ a.Declares (.field n f) ∧
      ∃ g, b.Declares (.field n g) ∧ f.name = g.name ∧ .alterField n f g ∉ down ++ up := by
  rcases (hp.end_iff ha hb hrun _).1 hf with ⟨st, hst, hadd⟩ | ⟨hfa, hleft⟩
  · exact .inl ((hp.proposed st hst).declares hadd)
  · have hnb := hp.owner_of_left hfa hleft
    refine .inr ⟨hfa, ?_⟩
    by_contra hno
    push Not at hno
    by_cases hex : ∃ g, b.Declares (.field n g) ∧ g.name = f.name
    · obtain ⟨g, hg, hn⟩ := hex
      exact hleft _ (hno g hg hn.symm) ⟨rfl, rfl⟩
    · push Not at hex
      have hin := hp.removed (.removeField n f) ⟨hnb, hfa, hex⟩ rfl rfl
      exact hleft _ (List.mem_append_left _ hin) ⟨rfl, rfl⟩

theorem Plan.exists_field (hp : Plan a b down up) (ha : a.Sound) (hb : b.Sound)
    (hrun : applyAll a (down ++ up) = .ok c) {n : String} {g : Field}
    (hg : b.Declares (.field n g)) : ∃ f, c.Declares (.field n f) ∧ f.name = g.name := by
  by_cases hex : ∃ f, a.Declares (.field n f) ∧ f.name = g.name
  · obtain ⟨f, hf, hn⟩ := hex
    by_cases hin : .alterField n f g ∈ down ++ up
    · exact ⟨g, (hp.end_iff ha hb hrun _).2 (.inl ⟨_, hin, rfl⟩), rfl⟩
    · refine ⟨f, (hp.end_iff ha hb hrun _).2 (.inr ⟨hf, fun st hst hrem => ?_⟩), hn⟩
      have hprop := hp.proposed st hst
      cases st with
      | dropEntity e => exact hprop.2.1 ((show n = e.name from hrem) ▸ hg.owner)
      | removeField m i =>
        obtain ⟨rfl, hi⟩ := hrem
        exact hprop.2.2 g hg (hn.symm.trans hi)
      | alterField m old new =>
        obtain ⟨rfl, hi⟩ := hrem
        obtain rfl := ha.field_unique hf hprop.1 hi
        obtain rfl := hb.field_unique hprop.2.1 hg (hprop.2.2.1.symm.trans hn)
        exact hin hst
      | _ => exact hrem
  · push Not at hex
    by_cases hna : a.Declares (.entity n)
    · have hin := hp.added (.addField n g) ⟨hna, hg, hex⟩ rfl rfl
      exact ⟨g, (hp.end_iff ha hb hrun _).2 (.inl ⟨_, List.mem_append_right _ hin, rfl⟩), rfl⟩
    · obtain ⟨e, he, rfl, hm⟩ := hg
      have hin := hp.created e he hna
      exact ⟨g, (hp.end_iff ha hb hrun _).2 (.inl ⟨_, List.mem_append_right _ hin, rfl, hm⟩), rfl⟩

end SchemaLedger.Diff
