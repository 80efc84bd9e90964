import SchemaLedger.Proofs.Schema.Soundness
import SchemaLedger.Schema.Description

set_option autoImplicit false

/-!
# Descriptions read back

A sound description is read from the raw object that it is written to, and whatever is read is sound.
-/
namespace SchemaLedger

namespace Checked

variable {α β : Type}

@[simp]
theorem map_valid (f : α → β) (a : α) : f <$> (valid a : Checked α) = valid (f a) := rfl

@[simp]
theorem seq_valid (f : α → β) (a : α) : (valid f : Checked (α → β)) <*> valid a = valid (f a) := rfl

@[simp]
theorem under_valid (step : Issue.Step) (a : α) : (valid a).under step = valid a := rfl

theorem map_eq_valid (f : α → β) (x : Checked α) (b : β) :
    f <$> x = valid b ↔ ∃ a, x = valid a ∧ f a = b := by
  cases x with
  | valid a => simp
  | invalid _ => exact ⟨nofun, nofun⟩
  | refused _ => exact ⟨nofun, nofun⟩

theorem both_eq_valid (x : Checked α) (y : Checked β) (p : α × β) :
    both x y = valid p ↔ x = valid p.1 ∧ y = valid p.2 := by
  obtain ⟨a, b⟩ := p
  cases x <;> cases y <;> simp [both]

theorem seq_eq_valid (f : Checked (α → β)) (x : Checked α) (b : β) :
    f <*> x = valid b ↔ ∃ g a, f = valid g ∧ x = valid a ∧ g a = b := by
  have h : f <*> x = (fun p : (α → β) × α => p.1 p.2) <$> both f x := rfl
  rw [h, map_eq_valid]
  constructor
  · rintro ⟨p, hp, rfl⟩
    exact ⟨p.1, p.2, ((both_eq_valid f x p).1 hp).1, ((both_eq_valid f x p).1 hp).2, rfl⟩
  · rintro ⟨g, a, rfl, rfl, rfl⟩
    exact ⟨(g, a), rfl, rfl⟩

theorem under_eq_valid (step : Issue.Step) (x : Checked α) (a : α) :
    x.under step = valid a ↔ x = valid a := by
  cases x with
  | valid _ => exact Iff.rfl
  | invalid _ => exact ⟨nofun, nofun⟩
  | refused _ => exact ⟨nofun, nofun⟩

theorem andThen_eq_valid (x : Checked α) (f : α → Except SchemaFault β) (b : β) :
    x.andThen f = valid b ↔ ∃ a, x = valid a ∧ f a = .ok b := by
  cases x with
  | valid a =>
    cases h : f a with
    | error _ => simp [andThen, h]
    | ok _ => simp [andThen, h]
  | invalid _ => exact ⟨nofun, nofun⟩
  | refused _ => exact ⟨nofun, nofun⟩

/-- A list is read if each of its elements is. -/
theorem each_valid {read : Value → Checked α} {write : α → Value} {xs : List α}
    (h : ∀ x ∈ xs, read (write x) = valid x) (i : Nat) :
    each read i (xs.map write) = valid xs := by
  induction xs generalizing i with
  | nil => rfl
  | cons x rest ih =>
    rw [List.map_cons, each, h x List.mem_cons_self,
      ih (fun y hy => h y (List.mem_cons_of_mem x hy))]
    rfl

theorem exists_of_each {read : Value → Checked α} {vs : List Value} {i : Nat} {xs : List α}
    (h : each read i vs = valid xs) : ∀ x ∈ xs, ∃ v, read v = valid x := by
  induction vs generalizing i xs with
  | nil =>
    cases h
    simp
  | cons v rest ih =>
    have h : (fun p : α × List α => p.1 :: p.2) <$>
      both ((read v).under (.position i)) (each read (i + 1) rest) = valid xs := h
    rw [map_eq_valid] at h
    obtain ⟨p, hp, rfl⟩ := h
    rw [both_eq_valid, under_eq_valid] at hp
    intro x hx
    rcases List.mem_cons.1 hx with rfl | hx
    · exact ⟨v, hp.1⟩
    · exact ih hp.2 x hx

end Checked

namespace Reading

variable {α : Type} {read : Value → Checked α} {es : Entries} {name : String} {a absent : α}

theorem exists_of_required (h : required es name read = .valid a) : ∃ v, read v = .valid a := by
  rw [required] at h
  split at h
  case h_1 v _ => exact ⟨v, (Checked.under_eq_valid _ _ _).1 h⟩
  case h_2 => cases h

theorem exists_of_part (h : part es name absent read = .valid a) :
    a = absent ∨ ∃ v, read v = .valid a := by
  rw [part] at h
  split at h
  case h_1 v _ => exact Or.inr ⟨v, (Checked.under_eq_valid _ _ _).1 h⟩
  case h_2 =>
    cases h
    exact Or.inl rfl

theorem exists_of_tuple {v : Value} {xs : List α} (h : tuple read v = .valid xs) :
    ∀ x ∈ xs, ∃ v, read v = .valid x := by
  cases v with
  | list items => exact Checked.exists_of_each h
  | _ => cases h

theorem exists_of_list {v : Value} {xs : List α} (h : list read v = .valid xs) :
    ∀ x ∈ xs, ∃ v, read v = .valid x := by
  cases v with
  | list items => exact Checked.exists_of_each h
  | _ => cases h

theorem exists_of_tagged {tags : List String} {read : String → Entries → Checked α} {v : Value}
    (h : tagged tags read v = .valid a) : ∃ tag es, read tag es = .valid a := by
  cases v with
  | object es =>
    rw [tagged] at h
    split at h
    case h_1 => cases h
    case h_2 tag _ =>
      split at h
      case isTrue => exact ⟨tag, es, (Checked.under_eq_valid _ _ _).1 h⟩
      case isFalse => cases h
    case h_3 => cases h
  | _ => cases h

theorem exists_of_shaped {shape : Shape} {read : Entries → Checked α} {v : Value}
    (h : shaped shape read v = .valid a) : ∃ es, read es = .valid a := by
  cases v with
  | object es => exact ⟨es, h⟩
  | _ => cases h

end Reading

/-! ## Fields and entities -/

theorem LogicalType.read_name (t : LogicalType) : LogicalType.read (.text t.name) = .valid t := by
  rw [LogicalType.read, LogicalType.ofName?_name]

theorem Field.read_toValue {f : Field} (h : f.check = .ok ()) :
    Field.read f.toValue = .valid f := by
  have htype := LogicalType.read_name f.type
  simp [Field.read, Field.toValue, Reading.shaped, Reading.required, Reading.part, Entries.get?,
    Reading.text, Reading.bool, htype, Checked.andThen, h, bind, Except.bind]

theorem Field.check_of_read {v : Value} {f : Field} (h : Field.read v = .valid f) :
    f.check = .ok () := by
  obtain ⟨es, h⟩ := Reading.exists_of_shaped h
  rw [Checked.andThen_eq_valid] at h
  obtain ⟨g, -, hg⟩ := h
  rw [Outcome.bind_eq_ok] at hg
  obtain ⟨_, hcheck, hfg⟩ := hg
  cases hfg
  exact hcheck

theorem Reference.read_toValue (r : Reference) : Reference.read r.toValue = .valid r := by
  simp [Reference.read, Reference.readEntries, Reference.toValue, Reading.shaped,
    Reading.required, Reading.part, Entries.get?, Reading.text, Reading.bool, Reading.literal,
    Checked.map]

theorem Relationship.read_toValue (r : Relationship) : Relationship.read r.toValue = .valid r := by
  cases r with
  | single r =>
    simp [Relationship.read, Relationship.toValue, Reference.toValue, Reading.tagged,
      Relationship.kinds, Reference.readEntries, Reading.required, Reading.part, Entries.get?,
      Reading.text, Reading.bool]
  | many l =>
    simp [Relationship.read, Relationship.toValue, ManyLink.toValue, Reading.tagged,
      Relationship.kinds, ManyLink.readEntries, Reading.required, Entries.get?, Reading.text]

theorem Entity.read_toValue {e : Entity} (h : e.Sound) : Entity.read e.toValue = .valid e := by
  obtain ⟨hfields, hcheck⟩ := e.sound_iff.1 h
  have hf : Reading.tuple Field.read (.list (e.fields.map Field.toValue)) = .valid e.fields :=
    Checked.each_valid (fun f hf => Field.read_toValue (hfields f hf)) 0
  have hr : Reading.tuple Relationship.read (.list (e.relationships.map Relationship.toValue)) =
      .valid e.relationships :=
    Checked.each_valid (fun r _ => r.read_toValue) 0
  simp [Entity.read, Entity.toValue, Reading.shaped, Reading.required, Reading.part, Entries.get?,
    Reading.text, hf, hr, Checked.andThen, hcheck, bind, Except.bind]

theorem Entity.sound_of_read {v : Value} {e : Entity} (h : Entity.read v = .valid e) : e.Sound := by
  obtain ⟨es, h⟩ := Reading.exists_of_shaped h
  rw [Checked.andThen_eq_valid] at h
  obtain ⟨g, hparts, hg⟩ := h
  rw [Outcome.bind_eq_ok] at hg
  obtain ⟨_, hcheck, hge⟩ := hg
  cases hge
  rw [Entity.sound_iff]
  refine ⟨fun f hf => ?_, hcheck⟩
  simp only [Checked.seq_eq_valid, Checked.map_eq_valid] at hparts
  obtain ⟨_, rels, ⟨_, fields, ⟨name, -, rfl⟩, hfields, rfl⟩, -, rfl⟩ := hparts
  rcases Reading.exists_of_part hfields with rfl | ⟨v, hv⟩
  · cases hf
  · obtain ⟨v, hv⟩ := Reading.exists_of_tuple hv f hf
    exact Field.check_of_read hv

/-! ## Schemas -/

namespace Schema

theorem register_eq_ok {seen out : List Entity} {e : Entity} : register seen e = .ok out ↔
    (∀ x ∈ seen, x.name ≠ e.name) ∧ out = seen ++ [e] := by
  rw [register]
  split
  case isTrue h =>
    obtain ⟨x, hx, hname⟩ := List.any_eq_true.1 h
    exact ⟨nofun, fun hno => absurd (of_decide_eq_true hname) (hno.1 x hx)⟩
  case isFalse h =>
    have hno : ∀ x ∈ seen, x.name ≠ e.name := by simpa using h
    rw [Except.ok.injEq, eq_comm]
    exact ⟨fun hout => ⟨hno, hout⟩, And.right⟩

/-- Entities that are registered one by one are sound, and no name stands twice. -/
theorem sound_of_registered {raw : List Value} {seen out : List Entity}
    (h : raw.foldlM registerRaw seen = .ok out) (hs : ∀ e ∈ seen, e.Sound)
    (hd : (seen.map (·.name)).Nodup) : (∀ e ∈ out, e.Sound) ∧ (out.map (·.name)).Nodup := by
  induction raw generalizing seen with
  | nil =>
    cases h
    exact ⟨hs, hd⟩
  | cons v rest ih =>
    rw [List.foldlM_cons, Outcome.bind_eq_ok] at h
    obtain ⟨next, hnext, hrest⟩ := h
    rw [registerRaw, Outcome.bind_eq_ok] at hnext
    obtain ⟨e, he, hregister⟩ := hnext
    obtain ⟨hnew, rfl⟩ := register_eq_ok.1 hregister
    have hread : Entity.read v = .valid e := by
      cases hv : Entity.read v with
      | valid x =>
        rw [hv] at he
        cases he
        rfl
      | invalid _ =>
        rw [hv] at he
        cases he
      | refused _ =>
        rw [hv] at he
        cases he
    refine ih hrest (fun x hx => ?_) ?_
    · rcases List.mem_append.1 hx with hx | hx
      · exact hs x hx
      · rw [List.mem_singleton.1 hx]
        exact Entity.sound_of_read hread
    · rw [List.map_append, List.nodup_append]
      refine ⟨hd, by simp, fun n hn m hm => ?_⟩
      obtain ⟨x, hx, rfl⟩ := List.mem_map.1 hn
      simp only [List.map_cons, List.map_nil, List.mem_singleton] at hm
      exact hm ▸ hnew x hx

/-- Sound entities with names of their own are registered as they are. -/
theorem registered_toValue {es seen : List Entity} (hs : ∀ e ∈ es, e.Sound)
    (hd : ((seen ++ es).map (·.name)).Nodup) :
    (es.map Entity.toValue).foldlM registerRaw seen = .ok (seen ++ es) := by
  induction es generalizing seen with
  | nil => simp [pure, Except.pure]
  | cons e rest ih =>
    have hnew : ∀ x ∈ seen, x.name ≠ e.name := by
      intro x hx
      rw [List.map_append, List.nodup_append] at hd
      exact hd.2.2 _ (List.mem_map_of_mem hx) _ (by simp)
    rw [List.map_cons, List.foldlM_cons, Outcome.bind_eq_ok]
    refine ⟨seen ++ [e], ?_, ?_⟩
    · rw [registerRaw, Entity.read_toValue (hs e List.mem_cons_self)]
      exact register_eq_ok.2 ⟨hnew, rfl⟩
    · rw [ih (fun x hx => hs x (List.mem_cons_of_mem e hx)) (by simpa using hd), List.append_assoc,
        List.singleton_append]

theorem build_toValue {es : List Entity} (h : (⟨0, es⟩ : Schema).Valid) :
    build (es.map Entity.toValue) (.int 0) = .ok ⟨0, es⟩ := by
  have hregistered : (es.map Entity.toValue).foldlM registerRaw [] = .ok ([] ++ es) :=
    registered_toValue (fun e he => e.sound_iff.2 ⟨h.fields e he, h.entities e he⟩) h.distinct
  have hversion : Reading.integerFrom 0 (.int 0) = .valid 0 := rfl
  have hcheck : check ⟨0, es⟩ = .ok () := h.relationships
  rw [build, hregistered, hversion]
  simp [bind, Except.bind, Checked.toExcept, checked, hcheck]

/-- A schema that was built of descriptions is valid. -/
theorem valid_of_build {raw : List Value} {version : Value} {s : Schema}
    (h : build raw version = .ok s) : s.Valid := by
  rw [build, Outcome.bind_eq_ok] at h
  obtain ⟨entities, hentities, h⟩ := h
  rw [Outcome.bind_eq_ok] at h
  obtain ⟨number, -, h⟩ := h
  obtain ⟨hsound, hdistinct⟩ := sound_of_registered hentities (by simp) (by simp)
  rw [checked, Outcome.bind_eq_ok] at h
  obtain ⟨_, hcheck, heq⟩ := h
  cases heq
  exact ⟨hdistinct, fun e he => ((e.sound_iff).1 (hsound e he)).1,
    fun e he => ((e.sound_iff).1 (hsound e he)).2, hcheck⟩

end Schema

/-! ## Which descriptions are accepted -/

/-- Reads an entity whose members are valid on their own, without a look at them together. -/
def Entity.readMembers : Value → Checked Entity :=
  Reading.shaped .entity fun es =>
    Entity.mk <$> Reading.required es "name" Reading.text
      <*> Reading.part es "fields" [] (Reading.tuple Field.read)
      <*> Reading.part es "relationships" [] (Reading.tuple Relationship.read)

theorem Entity.read_eq (v : Value) :
    Entity.read v = (Entity.readMembers v).andThen fun e => (do e.check; .ok e) := by
  cases v <;> rfl

/-- The members of an entity fit together: no two have one name, no column is reserved, and one field
is a key, which nothing but a field of numbers or identifiers can generate. Documents and blobs cannot
be told apart, so they are neither keys nor unique. -/
structure Entity.Consistent (e : Entity) : Prop where
  members : e.memberNames.Nodup
  columns : ∀ c ∈ e.columnNames, c ∉ SchemaFault.reservedNames ∧ c.startsWith "_" = false
  key : ∃ k, e.keys = [k] ∧ k.nullable = false ∧ k.type ≠ .json ∧ k.type ≠ .blob
  auto : ∀ f ∈ e.fields, f.auto = true →
    f.primaryKey = true ∧ (f.type = .int ∨ f.type = .bigint ∨ f.type = .uuid)
  unique : ∀ f ∈ e.fields, f.unique = true → f.type ≠ .json ∧ f.type ≠ .blob

/-- The entities of a schema fit together: their tables and join tables have names of their own, and
no relationship leads nowhere. -/
structure Schema.Consistent (s : Schema) : Prop where
  distinct : s.names.Nodup
  entities : ∀ e ∈ s.entities, e.Consistent
  targets : ∀ e ∈ s.entities, ∀ r ∈ e.relationships, r.target ∈ s.names
  joins : s.allJoinNames.Nodup
  apart : ∀ j ∈ s.allJoinNames, j ∉ s.names

theorem LogicalType.isKeyless_eq_false {t : LogicalType} :
    t.isKeyless = false ↔ t ≠ .json ∧ t ≠ .blob := by
  cases t <;> simp [isKeyless]

theorem LogicalType.canGenerate_iff {t : LogicalType} :
    t.canGenerate = true ↔ t = .int ∨ t = .bigint ∨ t = .uuid := by
  cases t <;> simp [canGenerate]

theorem Entity.isReserved_eq_false {name : String} : Entity.isReserved name = false ↔
    name ∉ SchemaFault.reservedNames ∧ name.startsWith "_" = false := by
  rw [isReserved, Bool.or_eq_false_iff, decide_eq_false_iff_not]

theorem Entity.check_eq_ok_iff_consistent (e : Entity) : e.check = .ok () ↔ e.Consistent := by
  rw [check_eq_ok, checkNames_eq_ok, checkKey_eq_ok]
  simp only [checkField_eq_ok, isReserved_eq_false, LogicalType.isKeyless_eq_false,
    LogicalType.canGenerate_iff]
  constructor
  · rintro ⟨⟨hmembers, hcolumns⟩, hkey, hfields⟩
    exact ⟨hmembers, hcolumns, hkey, fun f hf => (hfields f hf).1, fun f hf => (hfields f hf).2⟩
  · intro h
    exact ⟨⟨h.members, h.columns⟩, h.key, fun f hf => ⟨h.auto f hf, h.unique f hf⟩⟩

namespace Schema

theorem consistent_iff (s : Schema) : s.Consistent ↔
    s.names.Nodup ∧ (∀ e ∈ s.entities, e.check = .ok ()) ∧ s.check = .ok () := by
  simp only [Entity.check_eq_ok_iff_consistent, check_eq_ok]
  constructor
  · intro h
    exact ⟨h.distinct, h.entities, h.targets, h.apart, h.joins⟩
  · rintro ⟨hdistinct, hentities, htargets, hapart, hjoins⟩
    exact ⟨hdistinct, hentities, htargets, hjoins, hapart⟩

variable {raw : List Value} {es seen out next : List Entity} {v : Value} {e : Entity} {s : Schema}

theorem registerRaw_eq_ok (h : Entity.readMembers v = .valid e) :
    registerRaw seen v = .ok next ↔
      e.check = .ok () ∧ (∀ x ∈ seen, x.name ≠ e.name) ∧ next = seen ++ [e] := by
  rw [registerRaw, Entity.read_eq, h, Checked.andThen]
  cases hcheck : e.check with
  | error fault => simp [bind, Except.bind, Checked.toExcept]
  | ok _ => simp [bind, Except.bind, Checked.toExcept, register_eq_ok]

/-- The entities are checked and registered one by one, each under a name that is still free. -/
theorem foldlM_registerRaw_eq_ok
    (h : List.Forall₂ (fun v e => Entity.readMembers v = .valid e) raw es)
    (hd : (seen.map (·.name)).Nodup) : raw.foldlM registerRaw seen = .ok out ↔
      (∀ e ∈ es, e.check = .ok ()) ∧ ((seen ++ es).map (·.name)).Nodup ∧ out = seen ++ es := by
  induction h generalizing seen with
  | nil => simp [pure, Except.pure, hd, eq_comm]
  | @cons v e raw es hv _ ih =>
    have hsplit : ((seen ++ e :: es).map (·.name)).Nodup → (∀ x ∈ seen, x.name ≠ e.name) := by
      intro hall x hx
      rw [List.map_append, List.nodup_append] at hall
      exact hall.2.2 _ (List.mem_map_of_mem hx) _ (by simp)
    have hone : (∀ x ∈ seen, x.name ≠ e.name) → ((seen ++ [e]).map (·.name)).Nodup := by
      intro hnew
      rw [List.map_append, List.map_singleton, ← List.concat_eq_append]
      refine hd.concat fun hmem => ?_
      obtain ⟨x, hx, hname⟩ := List.mem_map.1 hmem
      exact hnew x hx hname
    rw [List.foldlM_cons, Outcome.bind_eq_ok, List.forall_mem_cons]
    simp only [registerRaw_eq_ok hv]
    constructor
    · rintro ⟨_, ⟨hcheck, hnew, rfl⟩, hrest⟩
      obtain ⟨hchecks, hall, rfl⟩ := (ih (hone hnew)).1 hrest
      rw [List.append_assoc, List.singleton_append] at hall ⊢
      exact ⟨⟨hcheck, hchecks⟩, hall, rfl⟩
    · rintro ⟨⟨hcheck, hchecks⟩, hall, rfl⟩
      refine ⟨_, ⟨hcheck, hsplit hall, rfl⟩, (ih (hone (hsplit hall))).2 ⟨hchecks, ?_, ?_⟩⟩
      · rwa [List.append_assoc, List.singleton_append]
      · rw [List.append_assoc, List.singleton_append]

/-- Descriptions whose members are valid on their own are accepted exactly if they fit together, and
then as they stand. -/
theorem build_eq_ok_iff (h : List.Forall₂ (fun v e => Entity.readMembers v = .valid e) raw es)
    {version : Value} {n : Int} (hversion : Reading.integerFrom 0 version = .valid n) :
    build raw version = .ok s ↔ s = ⟨n, es⟩ ∧ s.Consistent := by
  have hfold (out : List Entity) : raw.foldlM registerRaw [] = .ok out ↔
      (∀ e ∈ es, e.check = .ok ()) ∧ (es.map (·.name)).Nodup ∧ out = es :=
    foldlM_registerRaw_eq_ok h List.nodup_nil
  rw [build, hversion]
  simp only [Outcome.bind_eq_ok, hfold, checked, Checked.under_valid, Checked.toExcept]
  constructor
  · rintro ⟨_, ⟨hchecks, hdistinct, rfl⟩, _, hn, _, hcheck, heq⟩
    cases hn
    cases heq
    exact ⟨rfl, (consistent_iff _).2 ⟨hdistinct, hchecks, hcheck⟩⟩
  · rintro ⟨rfl, hs⟩
    obtain ⟨hdistinct, hchecks, hcheck⟩ := (consistent_iff _).1 hs
    exact ⟨_, ⟨hchecks, hdistinct, rfl⟩, _, rfl, (), hcheck, rfl⟩

end Schema

end SchemaLedger
