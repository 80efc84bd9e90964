import SchemaLedger.Proofs.Migration.Effect

set_option autoImplicit false

/-!
# Parts of a schema

A schema on the way from one schema to another is valid because it is a part of one of the two: it
has no names of its own, its keys are there, and its references have targets. A field may still
differ from its counterpart in all but name and key, and a single reference in whether it may be
empty. `Fits` says when a step leads from a part to a part.
-/
namespace SchemaLedger

/-- Whether two relationships differ at most in whether a reference may be empty. -/
def Relationship.Like : Relationship → Relationship → Prop
  | .single a, .single b => a.name = b.name ∧ a.target = b.target
  | .many a, .many b => a = b
  | _, _ => False

theorem Relationship.Like.refl (r : Relationship) : r.Like r := by
  cases r with
  | single a => exact ⟨rfl, rfl⟩
  | many a => rfl

theorem Relationship.Like.name {r q : Relationship} (h : r.Like q) : r.name = q.name := by
  cases r with
  | single a =>
    cases q with
    | single b => exact h.1
    | many b => exact h.elim
  | many a =>
    cases q with
    | single b => exact h.elim
    | many b => exact congrArg ManyLink.name h

theorem Relationship.like_many {l : ManyLink} {q : Relationship}
    (h : (Relationship.many l).Like q) : q = .many l := by
  cases q with
  | single b => exact h.elim
  | many b => rw [show l = b from h]

structure Entity.PartOf (e x : Entity) : Prop where
  name : e.name = x.name
  fieldNames : e.fieldNames.Nodup
  relationshipNames : (e.relationships.map (·.name)).Nodup
  fields : ∀ f ∈ e.fields, f.Sound ∧ ∃ g ∈ x.fields, g.name = f.name ∧ g.primaryKey = f.primaryKey
  relationships : ∀ r ∈ e.relationships, ∃ q ∈ x.relationships, r.Like q
  key : ∃ k ∈ e.fields, k.primaryKey = true

structure Schema.PartOf (s x : Schema) : Prop where
  distinct : s.names.Nodup
  entities : ∀ e ∈ s.entities, ∃ g ∈ x.entities, e.PartOf g
  targets : ∀ n r, s.Declares (.relationship n r) → s.Declares (.entity r.target)

namespace Entity

theorem exists_keys_eq {e : Entity} (hd : e.fieldNames.Nodup)
    (hu : ∀ k ∈ e.keys, ∀ l ∈ e.keys, k = l) (hk : ∃ k ∈ e.fields, k.primaryKey = true) :
    ∃ k, e.keys = [k] := by
  obtain ⟨k, hm, hp⟩ := hk
  have hkeys := (mem_keys e k).2 ⟨hm, hp⟩
  have hn : e.keys.Nodup := (List.Nodup.of_map _ hd).filter _
  cases h : e.keys with
  | nil => simp [h] at hkeys
  | cons a rest =>
    cases rest with
    | nil => exact ⟨a, rfl⟩
    | cons b rest =>
      rw [h] at hn hu
      have hab := hu a (by simp) b (by simp)
      exact absurd hn (by simp [hab])

theorem PartOf.refl {e : Entity} (h : e.Sound) : e.PartOf e := by
  obtain ⟨k, hk⟩ := h.key
  have hm := (mem_keys e k).1 (hk ▸ List.mem_singleton_self k)
  exact ⟨rfl, h.fieldNames, h.relationshipNames,
    fun f hf => ⟨h.fields f hf, f, hf, rfl, rfl⟩, fun r hr => ⟨r, hr, .refl r⟩, k, hm.1, hm.2⟩

theorem PartOf.sound {e x : Entity} (h : e.PartOf x) (hx : x.Sound) : e.Sound := by
  refine ⟨List.nodup_append.2 ⟨h.fieldNames, h.relationshipNames, ?_⟩, fun f hf => (h.fields f hf).1,
    fun r hr => ?_, exists_keys_eq h.fieldNames (fun k hk l hl => ?_) h.key⟩
  · intro n hn m hm
    obtain ⟨f, hf, rfl⟩ := List.mem_map.1 hn
    obtain ⟨r, hr, rfl⟩ := List.mem_map.1 hm
    obtain ⟨-, g, hg, hgf, -⟩ := h.fields f hf
    obtain ⟨q, hq, hrq⟩ := h.relationships r hr
    rw [← hgf, hrq.name]
    exact hx.apart hg hq
  · obtain ⟨q, hq, hrq⟩ := h.relationships _ ((mem_references e r).1 hr)
    cases q with
    | single b =>
      rw [show r.name = b.name from hrq.1]
      exact hx.references b ((mem_references x b).2 hq)
    | many b => exact hrq.elim
  · obtain ⟨hke, hkp⟩ := (mem_keys e k).1 hk
    obtain ⟨hle, hlp⟩ := (mem_keys e l).1 hl
    obtain ⟨-, g, hg, hgn, hgp⟩ := h.fields k hke
    obtain ⟨-, i, hi, hin, hip⟩ := h.fields l hle
    have hgi := hx.key_unique hg hi (hgp.trans hkp) (hip.trans hlp)
    exact field_eq_of_name_eq h.fieldNames hke hle (by rw [← hgn, ← hin, hgi])

/-! ## Changes of one entity -/

theorem PartOf.addTo {e x : Entity} (h : e.PartOf x) (hx : x.Sound) {f : Field} (hf : f ∈ x.fields)
    (hn : ∀ g ∈ e.fields, g.name ≠ f.name) : (Step.addTo e f).PartOf x := by
  refine ⟨h.name, ?_, h.relationshipNames, ?_, h.relationships, ?_⟩
  · simp only [Entity.fieldNames, Step.addTo, List.map_append, List.map_cons, List.map_nil]
    refine List.nodup_append.2 ⟨h.fieldNames, List.nodup_singleton _, ?_⟩
    intro a ha b hb
    obtain ⟨g, hg, rfl⟩ := List.mem_map.1 ha
    rw [List.mem_singleton.1 hb]
    exact hn g hg
  · intro g hg
    rcases List.mem_append.1 hg with hg | hg
    · exact h.fields g hg
    · rw [List.mem_singleton.1 hg]
      exact ⟨hx.fields f hf, f, hf, rfl, rfl⟩
  · obtain ⟨k, hk, hp⟩ := h.key
    exact ⟨k, List.mem_append_left _ hk, hp⟩

theorem PartOf.removeFrom {e x : Entity} (h : e.PartOf x) {f : Field} (hf : f ∈ e.fields)
    (hp : f.primaryKey = false) : (Step.removeFrom e f.name).PartOf x := by
  refine ⟨h.name, h.fieldNames.sublist (List.filter_sublist.map _), h.relationshipNames, ?_,
    h.relationships, ?_⟩
  · exact fun g hg => h.fields g (List.mem_filter.1 hg).1
  · obtain ⟨k, hk, hkp⟩ := h.key
    refine ⟨k, List.mem_filter.2 ⟨hk, ?_⟩, hkp⟩
    refine decide_eq_true fun hn => ?_
    rw [field_eq_of_name_eq h.fieldNames hk hf hn, hp] at hkp
    cases hkp

theorem PartOf.replaceIn {e x : Entity} (h : e.PartOf x) {old new : Field} (hold : old ∈ e.fields)
    (hn : new.name = old.name) (hp : new.primaryKey = old.primaryKey) (hs : new.Sound) :
    (Step.replaceIn e old.name new).PartOf x := by
  have hmem : ∀ g ∈ (Step.replaceIn e old.name new).fields, g = new ∨ g ∈ e.fields := by
    intro g hg
    obtain ⟨f, hf, rfl⟩ := List.mem_map.1 hg
    split
    · exact .inl rfl
    · exact .inr hf
  refine ⟨h.name, ?_, h.relationshipNames, ?_, h.relationships, ?_⟩
  · have hnames : (Step.replaceIn e old.name new).fieldNames = e.fieldNames := by
      simp only [Entity.fieldNames, Step.replaceIn, List.map_map]
      refine List.map_congr_left fun f _ => ?_
      simp only [Function.comp_apply]
      split
      · rename_i hf
        rw [hn, hf]
      · rfl
    rw [hnames]
    exact h.fieldNames
  · intro g hg
    rcases hmem g hg with rfl | hg
    · obtain ⟨-, i, hi, hin, hip⟩ := h.fields old hold
      exact ⟨hs, i, hi, hin.trans hn.symm, hip.trans hp.symm⟩
    · exact h.fields g hg
  · obtain ⟨k, hk, hkp⟩ := h.key
    by_cases hko : k.name = old.name
    · refine ⟨new, List.mem_map.2 ⟨k, hk, if_pos hko⟩, ?_⟩
      rw [hp, ← field_eq_of_name_eq h.fieldNames hk hold hko, hkp]
    · exact ⟨k, List.mem_map.2 ⟨k, hk, if_neg hko⟩, hkp⟩

theorem PartOf.relate {e x : Entity} (h : e.PartOf x) {r : Relationship}
    (hr : r ∈ x.relationships) (hn : ∀ q ∈ e.relationships, q.name ≠ r.name) :
    (Step.relate e r).PartOf x := by
  refine ⟨h.name, h.fieldNames, ?_, h.fields, ?_, h.key⟩
  · simp only [Step.relate, List.map_append, List.map_cons, List.map_nil]
    refine List.nodup_append.2 ⟨h.relationshipNames, List.nodup_singleton _, ?_⟩
    intro a ha b hb
    obtain ⟨q, hq, rfl⟩ := List.mem_map.1 ha
    rw [List.mem_singleton.1 hb]
    exact hn q hq
  · intro q hq
    rcases List.mem_append.1 hq with hq | hq
    · exact h.relationships q hq
    · rw [List.mem_singleton.1 hq]
      exact ⟨r, hr, .refl r⟩

theorem PartOf.unrelate {e x : Entity} (h : e.PartOf x) (n : String) :
    (Step.unrelate e n).PartOf x :=
  ⟨h.name, h.fieldNames, h.relationshipNames.sublist (List.filter_sublist.map _), h.fields,
    fun q hq => h.relationships q (List.mem_filter.1 hq).1, h.key⟩

theorem PartOf.replaceRelationship {e x : Entity} (h : e.PartOf x) {old new : Reference}
    (hold : Relationship.single old ∈ e.relationships) (hn : new.name = old.name)
    (ht : new.target = old.target) :
    (Step.replaceRelationship e old.name (.single new)).PartOf x := by
  refine ⟨h.name, h.fieldNames, ?_, h.fields, ?_, h.key⟩
  · have hnames : (Step.replaceRelationship e old.name (.single new)).relationships.map (·.name) =
        e.relationships.map (·.name) := by
      simp only [Step.replaceRelationship, List.map_map]
      refine List.map_congr_left fun r _ => ?_
      simp only [Function.comp_apply]
      split
      · rename_i hr
        rw [hr]
        exact hn
      · rfl
    rw [hnames]
    exact h.relationshipNames
  · intro q hq
    obtain ⟨r, hr, rfl⟩ := List.mem_map.1 hq
    split
    · obtain ⟨i, hi, hlike⟩ := h.relationships _ hold
      refine ⟨i, hi, ?_⟩
      cases i with
      | single b => exact ⟨hn.trans hlike.1, ht.trans hlike.2⟩
      | many b => exact hlike
    · exact h.relationships r hr

end Entity

namespace Schema

theorem PartOf.refl {s : Schema} (h : s.Sound) : s.PartOf s :=
  ⟨h.distinct, fun e he => ⟨e, he, .refl (h.entities e he)⟩, h.targets⟩

theorem PartOf.entity {s x : Schema} (h : s.PartOf x) {n : String} (hn : s.Declares (.entity n)) :
    x.Declares (.entity n) := by
  obtain ⟨e, he, rfl⟩ := hn
  obtain ⟨g, hg, hp⟩ := h.entities e he
  exact ⟨g, hg, hp.name.symm⟩

theorem PartOf.link {s x : Schema} (h : s.PartOf x) {n : String} {l : ManyLink}
    (hl : s.Declares (.relationship n (.many l))) : x.Declares (.relationship n (.many l)) := by
  obtain ⟨e, he, rfl, hr⟩ := hl
  obtain ⟨g, hg, hp⟩ := h.entities e he
  obtain ⟨q, hq, hlike⟩ := hp.relationships _ hr
  exact ⟨g, hg, hp.name.symm, Relationship.like_many hlike ▸ hq⟩

theorem PartOf.sound {s x : Schema} (h : s.PartOf x) (hx : x.Sound) : s.Sound := by
  refine ⟨h.distinct, fun e he => ?_, h.targets, ?_, ?_⟩
  · obtain ⟨g, hg, hp⟩ := h.entities e he
    exact hp.sound (hx.entities g hg)
  · exact fun n l m k hl hk => hx.joins n l m k (h.link hl) (h.link hk)
  · exact fun n l hl hd => hx.unshadowed n l (h.link hl) (h.entity hd)

theorem PartOf.check {s x : Schema} (h : s.PartOf x) (hx : x.Sound) : s.check = .ok () := by
  have hs := h.sound hx
  exact (check_eq_ok_iff hs.distinct hs.entities).2 hs

end Schema

end SchemaLedger
