import Mathlib.Data.List.TakeWhile
import SchemaLedger.Proofs.Sql.Change

set_option autoImplicit false

/-!
# Changes in place

What the statements that change a table in place make of its catalog: a column added, dropped or altered.
A foreign key that is added with a column names its target as it is, where CREATE TABLE splits a dotted
name, so the two differ for a key with a dot in its name.
-/
namespace SchemaLedger.Sql

variable {d : Dialect} {s t : Schema} {c c' : Catalog} {n : String}

/-! ## Dotted names -/

theorem not_mem_splitTarget (target : String) : '.' ∉ (Tables.splitTarget target).2.toList := by
  intro h
  simp only [Tables.splitTarget, String.toList_ofList, List.mem_reverse] at h
  have hne := List.mem_takeWhile_imp h
  simp at hne

theorem splitTarget_dotted (table : String) {column : String} (h : '.' ∉ column.toList) :
    Tables.splitTarget s!"{table}.{column}" = (table, column) := by
  have hlist : (s!"{table}.{column}").toList.reverse =
      column.toList.reverse ++ '.' :: table.toList.reverse := by
    simp [toString, String.toList_append]
  have hplain : ∀ x ∈ column.toList.reverse, decide (x ≠ '.') = true := by
    intro x hx
    refine decide_eq_true fun heq => h ?_
    rw [← heq]
    exact List.mem_reverse.1 hx
  simp only [Tables.splitTarget, hlist, List.takeWhile_append_of_pos hplain,
    List.dropWhile_append_of_pos hplain]
  simp

theorem resolved_eq (target : String) (k : Field) :
    resolved target k = (target, k.name) ↔ '.' ∉ k.name.toList := by
  constructor
  · intro h
    rw [← show (resolved target k).2 = k.name from congrArg Prod.snd h]
    exact not_mem_splitTarget _
  · exact splitTarget_dotted target

/-- In the catalog of a schema no foreign key refers to a column with a dot in its name. -/
theorem not_mem_of_foreignKey (hs : s.Sound) (hc : catalog d s = .ok c) {m x target y : String}
    (h : .foreignKey m x target y ∈ c) : '.' ∉ y.toList := by
  obtain ⟨z, -, hlays⟩ := (mem_catalog_iff hs hc _).1 h
  cases hlays with
  | target hk => exact not_mem_splitTarget _
  | link hk hm hf =>
    simp only [linkFacts, Set.mem_insert_iff, Set.mem_singleton_iff, reduceCtorEq, false_or,
      Fact.foreignKey.injEq] at hf
    rcases hf with ⟨-, -, -, rfl⟩ | ⟨-, -, -, rfl⟩ <;> exact not_mem_splitTarget _

/-! ## Columns added -/

theorem addedColumn_eq_ok (d : Dialect) (f : Field) (column : Column) :
    Ddl.addedColumn d f = .ok column ↔ ∃ default, defaultLiteral d f = .ok default ∧
      column = { name := f.name, type := f.type, default, nullable := f.nullable } := by
  rw [Ddl.addedColumn, Outcome.bind_eq_ok]
  simp only [Except.ok.injEq, @eq_comm _ column]

theorem addedReference_eq_ok (ht : t.Sound) (r : Reference) (column : Column)
    (target : String × String) :
    Ddl.addedReference t r = .ok (column, target) ↔ ∃ k, t.Key r.target k ∧
      column = { name := r.name, type := k.type, nullable := r.nullable } ∧
        target = (r.target, k.name) := by
  rw [Ddl.addedReference, Outcome.bind_eq_ok]
  simp only [Table.targetKey_eq_ok ht, Except.ok.injEq, Prod.mk.injEq, @eq_comm _ column,
    @eq_comm _ target]

/-- An entity has its key from the start. -/
theorem addField_plain (hs : s.Sound) (ht : t.Sound) {f : Field}
    (happly : Step.apply s (.addField n f) = .ok t) : f.primaryKey = false ∧ f.auto = false := by
  obtain ⟨e, e', he, hch, he', rfl, -⟩ := (Step.apply_change s t rfl).1 happly
  obtain ⟨hem, rfl⟩ := (Schema.entity?_eq_some hs.distinct _ e).1 he
  cases hch
  have hnew : f.name ∉ e.fieldNames := by
    have hd := he'.fieldNames
    simp only [Entity.fieldNames, Step.addTo, List.map_append, List.map_cons, List.map_nil] at hd
    exact fun hm => (List.nodup_append.1 hd).2.2 _ hm _ (List.mem_singleton_self _) rfl
  have hp : f.primaryKey = false := by
    refine Bool.eq_false_iff.2 fun hp => hnew ?_
    obtain ⟨k, hk⟩ := (hs.entities e hem).key
    have hkm := (e.mem_keys k).1 (hk ▸ List.mem_singleton_self k)
    have heq : k = f := he'.key_unique (List.mem_append_left _ hkm.1)
      (List.mem_append_right _ (List.mem_singleton_self f)) hkm.2 hp
    exact List.mem_map.2 ⟨k, hkm.1, heq ▸ rfl⟩
  refine ⟨hp, Bool.eq_false_iff.2 fun hauto => ?_⟩
  have hsound : f.Sound := he'.fields f (List.mem_append_right _ (List.mem_singleton_self f))
  rw [(hsound.auto hauto).1] at hp
  cases hp

theorem fieldType_of_not_auto {f : Field} (h : f.auto = false) :
    fieldType d f = typeName d f.type := by
  simp [fieldType, h]

section Step

variable {step : Step}

/-- A step that only adds a member extends the catalog. -/
theorem catalog_extended (hs : s.Sound) (ht : t.Sound) (hapt : step.Apt s)
    (happly : step.apply s = .ok t) (hc : catalog d s = .ok c) (hc' : catalog d t = .ok c')
    (h : step.isChange = true) (hrem : step.removed? = none) {x : Declaration}
    (hadd : step.added? = some x) : c' = c ∪ laid d t x := by
  rw [catalog_after hs ht hapt happly hc', arriving_of_added? h hadd, catalog_before hs hc step,
    leaving_eq_empty hs h hapt hrem, Set.union_empty]

theorem run_addField (hs : s.Sound) (ht : t.Sound) {f : Field}
    (happly : Step.apply s (.addField n f) = .ok t) (hc : catalog d s = .ok c)
    (hc' : catalog d t = .ok c') {column : Column} (hcolumn : Ddl.addedColumn d f = .ok column) :
    run d (.addColumn n column none :: if f.unique then [Ddl.addUnique n f.name] else []) c =
      c' := by
  obtain ⟨hp, hauto⟩ := addField_plain hs ht happly
  obtain ⟨default, -, rfl⟩ := (addedColumn_eq_ok d f column).1 hcolumn
  have hapt : Step.Apt s (.addField n f) := trivial
  rw [catalog_extended hs ht hapt happly hc hc' rfl rfl rfl, laid_field,
    fieldType_of_not_auto hauto, run_cons]
  cases hu : f.unique with
  | false => simp [Statement.effect, added, uniqueFacts, hu]
  | true =>
    simp [Statement.effect, added, uniqueFacts, hu, hp, Ddl.addUnique]

theorem run_addReference (hs : s.Sound) (ht : t.Sound) {r : Reference}
    (happly : Step.apply s (.addRelationship n (.single r)) = .ok t) (hc : catalog d s = .ok c)
    (hc' : catalog d t = .ok c') {column : Column} {target : String × String}
    (hcolumn : Ddl.addedReference t r = .ok (column, target)) :
    run d [.addColumn n column (some target)] c = c' ↔
      ¬ ∃ k, t.Key r.target k ∧ '.' ∈ k.name.toList := by
  obtain ⟨k, hk, rfl, rfl⟩ := (addedReference_eq_ok ht r column target).1 hcolumn
  have hunique : (∃ l, t.Key r.target l ∧ '.' ∈ l.name.toList) ↔ '.' ∈ k.name.toList := by
    constructor
    · rintro ⟨l, hl, hdot⟩
      rw [ht.key_unique hk.1 hl.1 hk.2 hl.2]
      exact hdot
    · exact fun hdot => ⟨k, hk, hdot⟩
  have hrun : run d [.addColumn n { name := r.name, type := k.type, nullable := r.nullable }
      (some (r.target, k.name))] c = c ∪ {.column n r.name (typeName d k.type) r.nullable,
        .foreignKey n r.name r.target k.name} := rfl
  rw [hrun, hunique]
  constructor
  · intro heq
    have hmem : .foreignKey n r.name r.target k.name ∈ c' := by
      rw [← heq]
      exact .inr (.inr rfl)
    exact not_mem_of_foreignKey ht hc' hmem
  · intro hdot
    have hapt : Step.Apt s (.addRelationship n (.single r)) := trivial
    rw [catalog_extended hs ht hapt happly hc hc' rfl rfl rfl, laid_reference ht hk,
      (resolved_eq r.target k).2 hdot]

/-! ## Columns dropped -/

/-- A step that takes a column away does not take the key away. -/
theorem key_ne_of_removed (hs : s.Sound) (ht : t.Sound) (hapt : step.Apt s)
    (happly : step.apply s = .ok t) (h : step.isChange = true) {x : Declaration}
    (hrem : step.removed? = some x) (hadd : step.added? = none) (hxs : s.Declares x) {m : String}
    (hxm : x.column? = some (n, m)) {k : Field} (hk : s.Key n k) : k.name ≠ m := by
  rintro rfl
  obtain rfl := hs.eq_of_column? hk.1 hxs rfl hxm
  have hdecl := Step.declares_apply hs.distinct happly
  have hn : t.Declares (.entity n) := by
    have hn : s.Declares (.entity n) := hk.1.owner
    refine (hdecl _).2 (.inr ⟨hn, fun hr => ?_⟩)
    rw [Step.removes_iff hs h hapt hn, hrem] at hr
    cases hr
  obtain ⟨l, hl⟩ := ht.exists_key hn
  rcases (hdecl _).1 hl.1 with hnew | ⟨hls, hstay⟩
  · rw [Step.adds_iff h, hadd] at hnew
    cases hnew
  · obtain rfl := hs.key_unique hk.1 hls hk.2 hl.2
    exact hstay ((Step.removes_iff hs h hapt hls).2 hrem)

theorem run_dropColumn (hs : s.Sound) (ht : t.Sound) (hapt : step.Apt s)
    (happly : step.apply s = .ok t) (hc : catalog d s = .ok c) (hc' : catalog d t = .ok c')
    (h : step.isChange = true) {x : Declaration} (hrem : step.removed? = some x)
    (hadd : step.added? = none) (hxs : s.Declares x) {m : String} (hxm : x.column? = some (n, m)) :
    run d [.dropColumn n m] c = c' := by
  rw [catalog_after hs ht hapt happly hc', arriving_eq_empty h hadd, Set.union_empty,
    catalog_before hs hc step, leaving_of_removed? hs h hapt hrem hxs]
  ext f
  have hleft : f ∈ staying d s step → ¬ f.Involves n m := by
    intro hf hin
    have habout := not_about_of_staying hs h hapt hrem hxs hxm hf
    cases f with
    | primaryKey p columns =>
      obtain ⟨y, hy, -, hlays⟩ := hf
      have howner := hlays.owner
      obtain ⟨rfl, hmem⟩ := hin
      cases hlays with
      | key hk =>
        exact key_ne_of_removed hs ht hapt happly h hrem hadd hxs hxm hk
          (List.mem_singleton.1 hmem).symm
      | @link q l _ _ _ _ _ _ =>
        have hjoin : _ = joinEntityName q l.name := howner
        exact hs.unshadowed q l hy (hjoin ▸ hxs.of_column? hxm)
    | table _ => exact hin
    | column _ _ _ _ | unique _ _ _ | foreignKey _ _ _ _ => exact habout hin
  have hgone : f ∈ laid d s x → f.Involves n m := by
    intro hf
    have habout := Lays.about hf hxm
    cases f with
    | column _ _ _ _ | unique _ _ _ | foreignKey _ _ _ _ => exact habout
    | _ => cases habout
  constructor
  · rintro ⟨hf | hf, hno⟩
    · exact hf
    · exact absurd (hgone hf) hno
  · exact fun hf => ⟨.inl hf, hleft hf⟩

/-! ## Columns altered -/

theorem amend_eq_self {m : String} {type : String → String} {nullable : Bool → Bool} {f : Fact}
    (hf : ∀ ty null, f ≠ .column n m ty null) : f.amend n m type nullable = f := by
  cases f with
  | column p x ty null =>
    refine if_neg ?_
    rintro ⟨rfl, rfl⟩
    exact hf ty null rfl
  | _ => rfl

/-- A statement that alters a column alters nothing else. -/
theorem image_amend {rest : Catalog} {m : String} {type : String → String} {nullable : Bool → Bool}
    (hrest : ∀ f ∈ rest, ∀ ty null, f ≠ .column n m ty null) (ty : String) (null : Bool) :
    Set.image (Fact.amend n m type nullable) (rest ∪ {.column n m ty null}) =
      rest ∪ {.column n m (type ty) (nullable null)} := by
  have hsame : Set.image (Fact.amend n m type nullable) rest = rest := by
    refine (Set.image_congr fun f hf => amend_eq_self (hrest f hf)).trans (Set.image_id rest)
  rw [Set.image_union, hsame, Set.image_singleton, Fact.amend, if_pos ⟨rfl, rfl⟩]

/-- The catalogs before and after a column is exchanged for another of its name. -/
theorem catalog_exchanged (hs : s.Sound) (ht : t.Sound) (hapt : step.Apt s)
    (happly : step.apply s = .ok t) (hc : catalog d s = .ok c) (hc' : catalog d t = .ok c')
    (h : step.isChange = true) {x y : Declaration} (hrem : step.removed? = some x)
    (hadd : step.added? = some y) (hxs : s.Declares x) {m : String} (hxm : x.column? = some (n, m)) :
    ∃ rest : Catalog, (∀ f ∈ rest, ¬ f.About n m) ∧ c = rest ∪ laid d s x ∧
      c' = rest ∪ laid d t y := by
  refine ⟨staying d s step, fun f hf => not_about_of_staying hs h hapt hrem hxs hxm hf, ?_, ?_⟩
  · rw [catalog_before hs hc step, leaving_of_removed? hs h hapt hrem hxs]
  · rw [catalog_after hs ht hapt happly hc', arriving_of_added? h hadd]

theorem run_alterReference (hs : s.Sound) (ht : t.Sound) {old new : Reference}
    (hapt : Step.Apt s (.alterReference n old new))
    (happly : Step.apply s (.alterReference n old new) = .ok t) (hc : catalog d s = .ok c)
    (hc' : catalog d t = .ok c') :
    run d [if new.nullable then .dropNotNull n new.name else .setNotNull n new.name] c = c' := by
  have hold := hapt.1
  have hname := hapt.2.1
  have htarget := hapt.2.2
  obtain ⟨rest, hrest, hbefore, hafter⟩ :=
    catalog_exchanged hs ht hapt happly hc hc' rfl rfl rfl hold rfl
  have hnew : t.Declares (.relationship n (.single new)) :=
    (Step.declares_apply hs.distinct happly _).2 (.inl rfl)
  obtain ⟨k, hk⟩ := hs.exists_key (hs.targets n _ hold)
  obtain ⟨l, hl⟩ := ht.exists_key (ht.targets n _ hnew)
  change s.Key old.target k at hk
  change t.Key new.target l at hl
  rw [laid_reference hs hk, Set.insert_eq, Set.union_comm {_}, ← Set.union_assoc] at hbefore
  rw [laid_reference ht hl, Set.insert_eq, Set.union_comm {_}, ← Set.union_assoc] at hafter
  obtain ⟨hkn, hkt⟩ := Step.key_of_apply hs ht hapt happly hk (htarget ▸ hl)
  have hfk : resolved old.target k = resolved new.target l := by
    rw [resolved, resolved, htarget, hkn]
  rw [hname, hfk, hkt] at hbefore
  have hcolumn : ∀ f ∈ rest ∪ {.foreignKey n new.name (resolved new.target l).1
      (resolved new.target l).2}, ∀ ty null, f ≠ .column n new.name ty null := by
    rintro f (hf | rfl) ty null heq
    · exact hrest f hf (heq ▸ ⟨rfl, hname.symm⟩)
    · cases heq
  rw [hbefore, hafter]
  cases new.nullable with
  | false => exact image_amend hcolumn _ _
  | true => exact image_amend hcolumn _ _

/-- The constraint on a unique field is named after it. -/
theorem uniqueConstraintName_inj {m p q : String}
    (h : uniqueConstraintName m p = uniqueConstraintName m q) : p = q := by
  have hlist := congrArg String.toList h
  simp only [uniqueConstraintName, toString, String.toList_append, List.append_cancel_left_eq]
    at hlist
  exact String.toList_inj.1 hlist

/-- A catalog around column `m` of table `n`, with or without a constraint on it. -/
def around (rest : Catalog) (n m type : String) (nullable unique : Bool) : Catalog :=
  rest ∪ (if unique then {.unique n (uniqueConstraintName n m) m} else ∅) ∪
    {.column n m type nullable}

section Around

variable {rest : Catalog} {m ty : String} {null u : Bool}
  (hrest : ∀ f ∈ rest, ¬ f.About n m)

include hrest

theorem amend_around (type : String → String) (nullable : Bool → Bool) :
    Set.image (Fact.amend n m type nullable) (around rest n m ty null u) =
      around rest n m (type ty) (nullable null) u := by
  refine image_amend (fun f hf ty null heq => ?_) ty null
  rcases hf with hf | hf
  · exact hrest f hf (heq ▸ ⟨rfl, rfl⟩)
  · split at hf
    · rw [show f = _ from hf] at heq
      cases heq
    · exact hf

theorem run_retyping {old new : Field} (hm : new.name = m) :
    run .postgresql (Ddl.retyping n old new)
        (around rest n m (typeName .postgresql old.type) null u) =
      around rest n m (typeName .postgresql new.type) null u := by
  rw [Ddl.retyping, hm]
  split
  · exact amend_around hrest _ _
  · rename_i htype
    rw [not_not.1 htype]
    rfl

theorem run_nullability {old new : Field} (hm : new.name = m) :
    run d (Ddl.nullability n old new) (around rest n m ty old.nullable u) =
      around rest n m ty new.nullable u := by
  rw [Ddl.nullability, hm]
  cases old.nullable <;> cases new.nullable
  · rfl
  · exact amend_around hrest _ _
  · exact amend_around hrest _ _
  · rfl

omit hrest in
theorem run_addUnique {old new : Field} (hm : new.name = m) :
    run d (if Ddl.addsUnique old new then [Ddl.addUnique n new.name] else [])
      (around rest n m ty null (old.unique && new.unique && !new.primaryKey)) =
      around rest n m ty null (new.unique && !new.primaryKey) := by
  cases hadds : Ddl.addsUnique old new with
  | false =>
    refine congrArg (around rest n m ty null) ?_
    revert hadds
    cases ho : old.unique <;> cases hn : new.unique <;> cases hp : new.primaryKey <;>
      simp [Ddl.addsUnique, ho, hn, hp]
  | true =>
    simp only [Ddl.addsUnique, Bool.and_eq_true, Bool.not_eq_true'] at hadds
    obtain ⟨⟨hp, ho⟩, hn⟩ := hadds
    ext f
    simp only [if_true, run_cons, run_nil, Statement.effect, Ddl.addUnique, around, ho, hn, hp, hm,
      Bool.false_and, Bool.true_and, Bool.not_false, Bool.false_eq_true, if_false,
      Set.union_empty, Set.mem_union]
    exact or_right_comm

omit hrest in
theorem run_dropUnique {old new : Field} (hm : new.name = m)
    (hfree : ∀ x, .unique n (uniqueConstraintName n m) x ∉ rest) :
    run d (if Ddl.dropsUnique old new then
        [.dropConstraint n (uniqueConstraintName n new.name)] else [])
      (around rest n m ty null (old.unique && !new.primaryKey)) =
      around rest n m ty null (old.unique && new.unique && !new.primaryKey) := by
  cases hdrops : Ddl.dropsUnique old new with
  | false =>
    refine congrArg (around rest n m ty null) ?_
    revert hdrops
    cases ho : old.unique <;> cases hn : new.unique <;> cases hp : new.primaryKey <;>
      simp [Ddl.dropsUnique, ho, hn, hp]
  | true =>
    simp only [Ddl.dropsUnique, Bool.and_eq_true, Bool.not_eq_true'] at hdrops
    obtain ⟨⟨hp, ho⟩, hn⟩ := hdrops
    ext f
    simp only [if_true, run_cons, run_nil, Statement.effect, around, ho, hn, hp, hm,
      Bool.and_false, Bool.and_self, Bool.false_and, Bool.not_false, Bool.false_eq_true, if_false,
      Set.union_empty, Set.mem_union, Set.mem_ofPred_eq, Set.mem_singleton_iff]
    constructor
    · rintro ⟨(hf | rfl) | rfl, hno⟩
      · exact .inl hf
      · exact absurd rfl (hno m)
      · exact .inr rfl
    · rintro (hf | rfl)
      · exact ⟨.inl (.inl hf), fun x heq => hfree x (heq ▸ hf)⟩
      · exact ⟨.inr rfl, fun x heq => by cases heq⟩

end Around

theorem constraint_of_unique (hs : s.Sound) (hc : catalog d s = .ok c) {m constraint x : String}
    (h : .unique m constraint x ∈ c) : constraint = uniqueConstraintName m x := by
  obtain ⟨y, -, hlays⟩ := (mem_catalog_iff hs hc _).1 h
  cases hlays with
  | unique _ _ => rfl
  | link hk hm hf => simp [linkFacts] at hf

theorem laid_field_postgresql (s : Schema) (rest : Catalog) (f : Field) :
    rest ∪ laid .postgresql s (.field n f) =
      around rest n f.name (typeName .postgresql f.type) f.nullable (f.unique && !f.primaryKey) := by
  rw [laid_field, Set.union_comm {_}, ← Set.union_assoc]
  rfl

theorem run_alterField (hs : s.Sound) (ht : t.Sound) {old new : Field}
    (hapt : Step.Apt s (.alterField n old new))
    (happly : Step.apply s (.alterField n old new) = .ok t) (hc : catalog .postgresql s = .ok c)
    (hc' : catalog .postgresql t = .ok c') {list : List Statement}
    (hlist : Ddl.alterColumn n old new = .ok list) : run .postgresql list c = c' := by
  have hold := hapt.1
  have hname := hapt.2.1
  have hp : old.primaryKey = new.primaryKey := by
    have hkeeps := hapt.2.2
    simp only [Diff.keepsIdentity, Bool.and_eq_true, decide_eq_true_eq] at hkeeps
    exact hkeeps.1.1
  obtain ⟨rest, hrest, hbefore, hafter⟩ :=
    catalog_exchanged hs ht hapt happly hc hc' rfl rfl rfl hold rfl
  rw [laid_field_postgresql, hname, hp] at hbefore
  rw [laid_field_postgresql] at hafter
  rw [hname] at hrest
  have hfree : ∀ x, .unique n (uniqueConstraintName n new.name) x ∉ rest := by
    intro x hx
    have hxc : .unique n (uniqueConstraintName n new.name) x ∈ c := by
      rw [hbefore]
      exact .inl (.inl hx)
    have heq := uniqueConstraintName_inj (constraint_of_unique hs hc hxc)
    exact hrest _ hx ⟨rfl, heq.symm⟩
  obtain ⟨dropped, filled, hupkeep, rfl⟩ := Ddl.alterColumn_cases hlist
  obtain ⟨hdropped, hfilled⟩ := List.forall_mem_append.1 hupkeep
  rw [hbefore, hafter]
  simp only [run_append]
  rw [run_dropUnique rfl hfree, run_upkeep hdropped, run_retyping hrest rfl, run_upkeep hfilled,
    run_nullability hrest rfl, run_addUnique rfl]

end Step

end SchemaLedger.Sql
