import SchemaLedger.Proofs.Schema.Declarations
import SchemaLedger.Proofs.Schema.Reading
import SchemaLedger.Proofs.Value.Sameness

set_option autoImplicit false

/-!
# Schemas of one shape

`Schema.equivalent` walks through the entities of one schema and looks each up in the other. For sound
schemas it holds if both declare the same. So it holds between the schemas that are built of the same
descriptions in different orders; and if one of them is refused, so is the other.
-/
namespace SchemaLedger

theorem Field.same_self {f : Field} (hn : f.default.nanFree = true)
    (hw : f.default.wellFormed = true) : f.same f = true := by
  simp [Field.same, Value.same_self f.default hn hw]

namespace Schema

/-- Defaults that hold no NaN, and objects in them no name twice. -/
def PlainDefaults (s : Schema) : Prop :=
  ∀ e ∈ s.entities, ∀ f ∈ e.fields, f.default.nanFree = true ∧ f.default.wellFormed = true

instance (s : Schema) : Decidable s.PlainDefaults :=
  inferInstanceAs (Decidable (∀ e ∈ s.entities, ∀ f ∈ e.fields, _ ∧ _))

theorem PlainDefaults.same_self {s : Schema} (h : s.PlainDefaults) {n : String} {f : Field}
    (hf : s.Declares (.field n f)) : f.same f = true := by
  obtain ⟨e, he, -, hm⟩ := hf
  exact Field.same_self (h e he f hm).1 (h e he f hm).2

theorem sameFields_of_mem {xs ys : List Field} (hx : (xs.map (·.name)).Nodup)
    (hy : (ys.map (·.name)).Nodup)
    (hsame : ∀ x ∈ xs, ∃ y ∈ ys, y.name = x.name ∧ x.same y = true)
    (hall : ∀ y ∈ ys, ∃ x ∈ xs, x.name = y.name) : sameFields xs ys = true := by
  rw [sameFields, Bool.and_eq_true]
  constructor
  · refine decide_eq_true (Keyed.length_eq hx hy fun n => ⟨?_, ?_⟩)
    · rintro ⟨x, hxm, rfl⟩
      obtain ⟨y, hym, hn, -⟩ := hsame x hxm
      exact ⟨y, hym, hn⟩
    · rintro ⟨y, hym, rfl⟩
      exact hall y hym
  · rw [List.all_eq_true]
    intro x hxm
    obtain ⟨y, hym, hn, hs⟩ := hsame x hxm
    rw [(Keyed.find?_eq_some hy x.name y).2 ⟨hym, hn⟩]
    exact hs

theorem sameRelationships_of_mem {xs ys : List Relationship} (hx : (xs.map (·.name)).Nodup)
    (hy : (ys.map (·.name)).Nodup) (h : ∀ r, r ∈ xs ↔ r ∈ ys) :
    sameRelationships xs ys = true := by
  rw [sameRelationships, Bool.and_eq_true]
  constructor
  · exact decide_eq_true (Keyed.length_eq hx hy fun n => by simp [h])
  · rw [List.all_eq_true]
    intro r hr
    exact decide_eq_true ((Keyed.find?_eq_some hy r.name r).2 ⟨(h r).1 hr, rfl⟩)

theorem equivalent_of_declares {s t : Schema} (hs : s.Sound) (ht : t.Sound)
    (hentity : ∀ n, s.Declares (.entity n) ↔ t.Declares (.entity n))
    (hrel : ∀ n r, s.Declares (.relationship n r) ↔ t.Declares (.relationship n r))
    (hfield : ∀ n f, s.Declares (.field n f) →
      ∃ g, t.Declares (.field n g) ∧ g.name = f.name ∧ f.same g = true)
    (hall : ∀ n g, t.Declares (.field n g) → ∃ f, s.Declares (.field n f) ∧ f.name = g.name) :
    s.equivalent t = true := by
  rw [equivalent, Bool.and_eq_true]
  constructor
  · exact decide_eq_true (Keyed.length_eq hs.distinct ht.distinct hentity)
  · rw [List.all_eq_true]
    intro x hx
    obtain ⟨y, hy, hn⟩ := (hentity x.name).1 ⟨x, hx, rfl⟩
    change y.name = x.name at hn
    rw [(entity?_eq_some ht.distinct x.name y).2 ⟨hy, hn⟩]
    have hxs := hs.entities x hx
    have hys := ht.entities y hy
    change sameShape x y = true
    rw [sameShape, Bool.and_eq_true]
    constructor
    · refine sameFields_of_mem hxs.fieldNames hys.fieldNames (fun f hf => ?_) fun g hg => ?_
      · obtain ⟨g, hg, h⟩ := hfield x.name f (declares_field_of_mem hx hf)
        rw [← hn, declares_field ht.distinct hy] at hg
        exact ⟨g, hg, h⟩
      · have hg := declares_field_of_mem hy hg
        rw [hn] at hg
        obtain ⟨f, hf, h⟩ := hall x.name g hg
        exact ⟨f, (declares_field hs.distinct hx f).1 hf, h⟩
    · refine sameRelationships_of_mem hxs.relationshipNames hys.relationshipNames fun r => ?_
      rw [← declares_relationship hs.distinct hx, hrel, ← hn, declares_relationship ht.distinct hy]

/-! ## The order of descriptions -/

section Order

variable {s t : Schema}

theorem allJoinNames_perm (h : s.entities.Perm t.entities) : s.allJoinNames.Perm t.allJoinNames :=
  h.flatMap_right _

theorem Consistent.perm (hs : s.Consistent) (h : s.entities.Perm t.entities) : t.Consistent where
  distinct := (h.map _).nodup_iff.1 hs.distinct
  entities e he := hs.entities e (h.mem_iff.2 he)
  targets e he r hr := (h.map _).mem_iff.1 (hs.targets e (h.mem_iff.2 he) r hr)
  joins := (allJoinNames_perm h).nodup_iff.1 hs.joins
  apart j hj hn := hs.apart j ((allJoinNames_perm h).mem_iff.2 hj) ((h.map _).mem_iff.2 hn)

/-- Entities in another order are equivalent, if each default equals itself. -/
theorem equivalent_of_perm (hs : s.Consistent) (h : s.entities.Perm t.entities)
    (hself : ∀ e ∈ s.entities, ∀ f ∈ e.fields, f.same f = true) : s.equivalent t = true := by
  have hdistinct : t.names.Nodup := (hs.perm h).distinct
  rw [equivalent, Bool.and_eq_true]
  refine ⟨decide_eq_true h.length_eq, List.all_eq_true.2 fun e he => ?_⟩
  rw [(entity?_eq_some hdistinct e.name e).2 ⟨h.mem_iff.1 he, rfl⟩]
  obtain ⟨hfields, hrelationships, -⟩ := List.nodup_append.1 (hs.entities e he).members
  change sameShape e e = true
  rw [sameShape, Bool.and_eq_true]
  exact ⟨sameFields_of_mem hfields hfields (fun f hf => ⟨f, hf, rfl, hself e he f hf⟩)
      fun f hf => ⟨f, hf, rfl⟩,
    sameRelationships_of_mem hrelationships hrelationships fun _ => Iff.rfl⟩

/-- What comes of descriptions in two orders: both are refused, or both give the same entities. The
schemas are equivalent, unless a default like NaN is not even equal to itself. -/
inductive InAnyOrder : Except SchemaFault Schema → Except SchemaFault Schema → Prop
  | refused (x y : SchemaFault) : InAnyOrder (.error x) (.error y)
  | built (s t : Schema) (version : s.version = t.version) (entities : s.entities.Perm t.entities)
      (equivalent : (∀ e ∈ s.entities, ∀ f ∈ e.fields, f.same f = true) → s.equivalent t = true) :
    InAnyOrder (.ok s) (.ok t)

/-- Whether a list of descriptions is accepted depends on whether they fit together, and not on their
order. -/
theorem build_perm {raw : List Value} {es : List Entity} {version : Value} {n : Int}
    (h : List.Forall₂ (fun v e => Entity.readMembers v = .valid e) raw es)
    (hversion : Reading.integerFrom 0 version = .valid n) :
    (∀ s, build raw version = .ok s ↔ s = ⟨n, es⟩ ∧ s.Consistent) ∧
      ∀ raw', raw.Perm raw' → InAnyOrder (build raw version) (build raw' version) := by
  refine ⟨fun s => build_eq_ok_iff h hversion, fun raw' hperm => ?_⟩
  obtain ⟨es', h', hes⟩ := List.perm_comp_forall₂ hperm.symm h
  cases hbuild : build raw version with
  | ok s =>
    obtain ⟨rfl, hs⟩ := (build_eq_ok_iff h hversion).1 hbuild
    have ht : (⟨n, es'⟩ : Schema).Consistent := hs.perm hes.symm
    rw [(build_eq_ok_iff h' hversion).2 ⟨rfl, ht⟩]
    exact .built _ _ rfl hes.symm (equivalent_of_perm hs hes.symm)
  | error x =>
    cases hbuild' : build raw' version with
    | error y => exact .refused x y
    | ok t =>
      obtain ⟨rfl, ht⟩ := (build_eq_ok_iff h' hversion).1 hbuild'
      have hs : (⟨n, es⟩ : Schema).Consistent := ht.perm hes
      cases hbuild.symm.trans ((build_eq_ok_iff h hversion).2 ⟨rfl, hs⟩)

/-- A note refers to a book, which is described behind it, and to other notes. -/
def noteAndBook : List Entity :=
  [{ name := "Note"
     fields := [{ name := "id", type := .bigint, primaryKey := true, auto := true }]
     relationships := [.single ⟨"book", "Book", true⟩, .many ⟨"related", "Note"⟩] },
    { name := "Book", fields := [{ name := "isbn", primaryKey := true }] }]

theorem build_perm_noteAndBook :
    let raw := noteAndBook.map Entity.toValue
    List.Forall₂ (fun v e => Entity.readMembers v = .valid e) raw noteAndBook ∧
      Reading.integerFrom 0 (.int 0) = .valid 0 ∧ build raw (.int 0) = .ok ⟨0, noteAndBook⟩ ∧
      InAnyOrder (build raw (.int 0)) (build raw.reverse (.int 0)) := by
  have hread : List.Forall₂ (fun v e => Entity.readMembers v = .valid e)
      (noteAndBook.map Entity.toValue) noteAndBook := .cons rfl (.cons rfl .nil)
  have hversion : Reading.integerFrom 0 (.int 0) = .valid 0 := rfl
  obtain ⟨hbuild, hany⟩ := build_perm hread hversion
  refine ⟨hread, hversion, (hbuild _).2 ⟨rfl, (consistent_iff _).2 ?_⟩, hany _ ?_⟩
  · exact ⟨by decide, by decide +kernel, by decide +kernel⟩
  · exact (List.reverse_perm _).symm

end Order

end Schema

end SchemaLedger
