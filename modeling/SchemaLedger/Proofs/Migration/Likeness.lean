import SchemaLedger.Proofs.Migration.Shape
import SchemaLedger.Proofs.Paired

set_option autoImplicit false

/-!
# Schemas alike

Schemas that differ in the order of declarations only, and in how a default is written. The relation is
kept by whatever makes one schema of another, and alike schemas are sound or not together. Without a
NaN, and if no object holds a name twice, they are alike exactly if they are equivalent.
-/
namespace SchemaLedger

variable {a b : Schema} {e e' : Entity} {f g f' g' : Field}

/-! ## Fields -/

/-- Fields that no comparison tells apart. A NaN is like itself only. -/
structure Field.Like (f g : Field) : Prop where
  bare : f.bare = g.bare
  default : f.default = g.default ∨ f.default.same g.default = true ∧ g.default.same f.default = true
  check : f.check = .ok () ↔ g.check = .ok ()

namespace Field

theorem Like.refl (f : Field) : f.Like f := ⟨rfl, .inl rfl, .rfl⟩

theorem Like.symm (h : f.Like g) : g.Like f :=
  ⟨h.bare.symm, h.default.imp Eq.symm And.symm, h.check.symm⟩

theorem Like.name (h : f.Like g) : f.name = g.name := name_of_bare h.bare

theorem Like.of_same (hf : f.check = .ok ()) (hg : g.check = .ok ())
    (hwf : f.default.wellFormed = true) (hwg : g.default.wellFormed = true)
    (h : f.same g = true) : f.Like g := by
  obtain ⟨hbare, hdefault⟩ := same_iff.1 h
  exact ⟨hbare, .inr ⟨hdefault, Value.same_symm _ _ hwf hwg hdefault⟩, by simp [hf, hg]⟩

theorem Like.same_left (h : f.Like f') (hsame : f.same g = true) : f'.same g = true := by
  rw [same_iff] at hsame ⊢
  refine ⟨h.bare.symm.trans hsame.1, ?_⟩
  rcases h.default with heq | ⟨-, hback⟩
  · exact heq ▸ hsame.2
  · exact Value.same_trans _ _ _ hback hsame.2

theorem Like.same_right (h : g.Like g') (hsame : f.same g = true) : f.same g' = true := by
  rw [same_iff] at hsame ⊢
  refine ⟨hsame.1.trans h.bare, ?_⟩
  rcases h.default with heq | ⟨hto, -⟩
  · exact heq ▸ hsame.2
  · exact Value.same_trans _ _ _ hsame.2 hto

theorem Like.same_congr (hf : f.Like f') (hg : g.Like g') : f.same g = f'.same g' := by
  rw [Bool.eq_iff_iff]
  exact ⟨fun h => hg.same_right (hf.same_left h), fun h => hg.symm.same_right (hf.symm.same_left h)⟩

theorem Like.sound (h : f.Like g) (hf : f.Sound) : g.Sound := by
  have hbare := h.bare
  simp only [Field.bare, Field.mk.injEq, true_and] at hbare
  obtain ⟨hname, htype, hnullable, hkey, hauto, hunique⟩ := hbare
  exact ⟨h.check.1 hf.default, hname ▸ hf.named, by rw [← hkey, ← hnullable, ← htype]; exact hf.key,
    by rw [← hkey, ← hauto, ← htype]; exact hf.auto, by rw [← hunique, ← htype]; exact hf.unique⟩

end Field

/-! ## Entities -/

/-- Entities of one name, whose fields are the same in pairs. -/
structure Entity.Counterpart (e e' : Entity) : Prop where
  name : e.name = e'.name
  fields : Paired (fun f g => f.same g = true) e.fields e'.fields
  relationships : e.relationships.Perm e'.relationships

/-- Entities of one name with like fields and the same relationships, in any order. -/
structure Entity.Like (e e' : Entity) : Prop where
  name : e.name = e'.name
  fields : Paired Field.Like e.fields e'.fields
  relationships : e.relationships.Perm e'.relationships

namespace Entity

theorem Like.refl (e : Entity) : e.Like e := ⟨rfl, .refl Field.Like.refl _, .refl _⟩

theorem Like.symm (h : e.Like e') : e'.Like e :=
  ⟨h.name.symm, h.fields.symm fun _ _ => Field.Like.symm, h.relationships.symm⟩

namespace Like

variable (h : e.Like e')

include h

theorem fieldNames : e.fieldNames.Perm e'.fieldNames :=
  (h.fields.map (S := (· = ·)) fun _ _ hfg => hfg.name).perm

theorem memberNames : e.memberNames.Perm e'.memberNames :=
  h.fieldNames.append (h.relationships.map _)

theorem references : e.references.Perm e'.references := h.relationships.filterMap _

theorem links : e.links.Perm e'.links := h.relationships.filterMap _

theorem withoutLinks : e.withoutLinks.Like e'.withoutLinks :=
  ⟨h.name, h.fields, h.references.map _⟩

theorem keys : Paired Field.Like e.keys e'.keys := by
  refine h.fields.filter fun f g hfg => ?_
  have hkey := congrArg Field.primaryKey hfg.bare
  exact hkey

theorem field? (hd : e.fieldNames.Nodup) (n : String) :
    Option.Rel Field.Like (e.field? n) (e'.field? n) :=
  h.fields.find? Field.name (fun _ _ hfg => hfg.name) hd n

theorem relationship? (hd : (e.relationships.map (·.name)).Nodup) (n : String) :
    e.relationship? n = e'.relationship? n := by
  have hfind := (Paired.of_perm h.relationships).find? Relationship.name
    (fun _ _ hrq => congrArg _ hrq) hd n
  rw [Entity.relationship?, Entity.relationship?]
  revert hfind
  generalize List.find? _ e.relationships = found
  generalize List.find? _ e'.relationships = found'
  rintro (rfl | -) <;> rfl

theorem sound (he : e.Sound) : e'.Sound := by
  refine ⟨h.memberNames.nodup_iff.1 he.members, fun g hg => ?_, fun r hr => ?_, ?_⟩
  · obtain ⟨f, hf, hfg⟩ := h.fields.exists_left hg
    exact hfg.sound (he.fields f hf)
  · exact he.references r (h.references.symm.subset hr)
  · obtain ⟨k, hk⟩ := he.key
    obtain ⟨zs, hzs, hperm⟩ := hk ▸ h.keys
    obtain ⟨l, _, -, hnil, rfl⟩ := List.forall₂_cons_left_iff.1 hzs
    obtain rfl := List.forall₂_nil_left_iff.1 hnil
    exact ⟨l, (List.perm_singleton.1 hperm.symm)⟩

end Like

theorem Like.sound_iff (h : e.Like e') : e.Sound ↔ e'.Sound := ⟨h.sound, h.symm.sound⟩

end Entity

/-! ## Schemas -/

/-- Whether no object in a default holds a name twice. -/
def Schema.WellFormed (s : Schema) : Prop :=
  ∀ e ∈ s.entities, ∀ f ∈ e.fields, f.default.wellFormed = true

instance (s : Schema) : Decidable s.WellFormed :=
  inferInstanceAs (Decidable (∀ e ∈ s.entities, ∀ f ∈ e.fields, _))

namespace Schema

theorem entities_of_equivalent (ha : a.Sound) (hb : b.Sound) (h : a.equivalent b = true) :
    Paired Entity.Counterpart a.entities b.entities := by
  obtain ⟨hlen, hall⟩ := equivalent_eq_true.1 h
  refine Paired.of_keyed ha.distinct hlen.ge fun e he => ?_
  obtain ⟨e', he', hshape⟩ := hall e he
  obtain ⟨hin, hname⟩ := (entity?_eq_some hb.distinct e.name e').1 he'
  obtain ⟨hfields, hsame⟩ := fields_of_sameShape hshape
  obtain ⟨hrelationships, hsub⟩ := relationships_of_sameShape hshape
  refine ⟨e', hin, hname, hname.symm, ?_, ?_⟩
  · exact Paired.of_keyed (ha.entities e he).fieldNames hfields.ge hsame
  · exact (List.subperm_of_subset (List.Nodup.of_map _ (ha.entities e he).relationshipNames)
      hsub).perm_of_length_le hrelationships.ge

/-- Schemas with like entities in any order. The version does not count. -/
def Like (a b : Schema) : Prop := Paired Entity.Like a.entities b.entities

theorem Like.refl (s : Schema) : s.Like s := Paired.refl Entity.Like.refl _

theorem Like.symm (h : a.Like b) : b.Like a := Paired.symm h fun _ _ => Entity.Like.symm

theorem perm_erase {s : Schema} (hs : s.names.Nodup) {e : Entity} (he : e ∈ s.entities) :
    s.entities.Perm (e :: (s.erase e.name).entities) := Keyed.perm_cons_filter hs he

theorem erase_of_absent {s : Schema} {n : String} (h : ¬ s.Declares (.entity n)) : s.erase n = s :=
  congrArg (Schema.mk s.version) (List.filter_eq_self.2 fun _ he =>
    decide_eq_true fun hn => h (hn ▸ declares_of_mem he))

theorem erase_put (s : Schema) (e : Entity) : (s.put e).erase e.name = s.erase e.name := by
  obtain ⟨version, entities⟩ := s
  refine congrArg (Schema.mk version) ?_
  change (put.go e entities).filter _ = entities.filter _
  induction entities with
  | nil => simp [put.go]
  | cons x rest ih =>
    rw [put.go]
    split
    case isTrue hname => simp [hname]
    case isFalse hname => rw [List.filter_cons, List.filter_cons, ih]

theorem put_perm {s : Schema} (hs : s.names.Nodup) (e : Entity) :
    (s.put e).entities.Perm (e :: (s.erase e.name).entities) := by
  have hin : e ∈ (s.put e).entities := (mem_put hs e e).2 (.inl rfl)
  exact erase_put s e ▸ perm_erase (nodup_names_put hs e) hin

namespace Like

variable (h : a.Like b)

include h

theorem names : a.names.Perm b.names :=
  (Paired.map (S := (· = ·)) h fun _ _ hee => hee.name).perm

theorem contains (n : String) : a.contains n = b.contains n := by
  rw [Bool.eq_iff_iff, contains_iff, contains_iff, h.names.mem_iff]

theorem declares_entity (n : String) : a.Declares (.entity n) ↔ b.Declares (.entity n) := by
  rw [Schema.declares_entity, Schema.declares_entity, h.names.mem_iff]

theorem exists_field {n : String} {f : Field} (hf : a.Declares (.field n f)) :
    ∃ g, b.Declares (.field n g) ∧ f.Like g := by
  obtain ⟨e, he, rfl, hmem⟩ := hf
  obtain ⟨e', he', hee⟩ := Paired.exists_right h he
  obtain ⟨g, hg, hfg⟩ := hee.fields.exists_right hmem
  exact ⟨g, ⟨e', he', hee.name.symm, hg⟩, hfg⟩

theorem relationship {n : String} {r : Relationship} (hr : a.Declares (.relationship n r)) :
    b.Declares (.relationship n r) := by
  obtain ⟨e, he, rfl, hmem⟩ := hr
  obtain ⟨e', he', hee⟩ := Paired.exists_right h he
  exact ⟨e', he', hee.name.symm, hee.relationships.subset hmem⟩

theorem allJoinNames : a.allJoinNames.Perm b.allJoinNames := by
  refine (Paired.flatMap (S := (· = ·)) h fun e e' hee => ?_).perm
  rw [joinNames, joinNames, hee.name]
  exact .of_perm ((hee.relationships.filterMap _).map _)

theorem entity? (hs : a.names.Nodup) (n : String) :
    Option.Rel Entity.Like (a.entity? n) (b.entity? n) :=
  Paired.find? Entity.name h (fun _ _ hee => hee.name) hs n

theorem entity (hs : a.names.Nodup) (n : String) :
    Outcome.Both Entity.Like (a.entity n) (b.entity n) := by
  have hfind := h.entity? hs n
  rw [Schema.entity, Schema.entity]
  revert hfind
  generalize a.entity? n = found
  generalize b.entity? n = found'
  rintro (hee | -)
  · exact hee
  · trivial

theorem check_iff : a.check = .ok () ↔ b.check = .ok () := by
  have htargets : ∀ {s t : Schema}, s.Like t →
      (∀ e ∈ s.entities, ∀ r ∈ e.relationships, r.target ∈ s.names) →
        ∀ e ∈ t.entities, ∀ r ∈ e.relationships, r.target ∈ t.names := by
    intro s t hst hs e' he' r hr
    obtain ⟨e, he, hee⟩ := Paired.exists_left hst he'
    exact hst.names.subset (hs e he r (hee.relationships.symm.subset hr))
  rw [check_eq_ok, check_eq_ok, h.allJoinNames.nodup_iff]
  refine and_congr ⟨htargets h, htargets h.symm⟩ (and_congr_left fun _ => ?_)
  simp only [h.allJoinNames.mem_iff, h.names.mem_iff]

theorem erase (n : String) : (a.erase n).Like (b.erase n) :=
  Paired.filter h fun e e' hee => by rw [hee.name]

theorem put (hs : a.names.Nodup) (hee : e.Like e') : (a.put e).Like (b.put e') := by
  have hrest := h.erase e.name
  refine .perm_left (put_perm hs e) (.perm_right (.cons hee hrest) ?_)
  rw [hee.name]
  exact (put_perm (h.names.nodup_iff.1 hs) e').symm

theorem sound (hs : a.Sound) : b.Sound := by
  refine (check_eq_ok_iff (h.names.nodup_iff.1 hs.distinct) fun e' he' => ?_).1 (h.check_iff.1
    ((check_eq_ok_iff hs.distinct hs.entities).2 hs))
  obtain ⟨e, he, hee⟩ := Paired.exists_left h he'
  exact hee.sound (hs.entities e he)

/-- Alike schemas are equivalent if no default is a NaN, which is not the same as itself. -/
theorem equivalent (hs : a.Sound)
    (hd : ∀ {n : String} {f : Field}, a.Declares (.field n f) → f.same f = true) :
    a.equivalent b = true := by
  refine (equivalent_iff_matches hs (h.sound hs)).2
    ⟨h.declares_entity, fun n r => ⟨h.relationship, h.symm.relationship⟩, fun n f hf => ?_,
      fun n g hg => ?_⟩
  · obtain ⟨g, hg, hfg⟩ := h.exists_field hf
    exact ⟨g, hg, hfg.same_right (hd hf)⟩
  · obtain ⟨f, hf, hgf⟩ := h.symm.exists_field hg
    exact ⟨f, hf, hgf.name.symm⟩

end Like

theorem Like.of_equivalent (ha : a.Sound) (hb : b.Sound) (hwa : a.WellFormed) (hwb : b.WellFormed)
    (h : a.equivalent b = true) : a.Like b := by
  refine (entities_of_equivalent ha hb h).mono fun e he e' he' hee => ⟨hee.name, ?_, hee.relationships⟩
  refine hee.fields.mono fun f hf g hg hsame => ?_
  exact .of_same ((ha.entities e he).fields f hf).default ((hb.entities e' he').fields g hg).default
    (hwa e he f hf) (hwb e' he' g hg) hsame

end Schema

end SchemaLedger
