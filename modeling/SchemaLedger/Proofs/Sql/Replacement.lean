import SchemaLedger.Proofs.Sql.Change

set_option autoImplicit false

/-!
# Tables created, dropped and replaced

What becomes of a catalog when a whole table comes or goes, and when SQLite puts a new table in the place
of an old one.
-/
namespace SchemaLedger.Sql

variable {d : Dialect} {s t : Schema} {c c' : Catalog} {ts : Tables} {table : Table}

/-! ## Tables of a catalog -/

theorem table_mem_catalog (hc : catalog d s = .ok c) (hts : Tables.ofSchema d s = .ok ts)
    (m : String) : .table m ∈ c ↔ ∃ t ∈ ts, t.name = m := by
  obtain ⟨ts', hts', -, hmem⟩ := mem_catalog hc
  obtain rfl := Except.ok.inj (hts.symm.trans hts')
  rw [hmem]
  simp only [Table.Has, eq_comm]

/-- Every fact is about a table that is there, -/
theorem owner_mem_catalog (hc : catalog d s = .ok c) {f : Fact} (hf : f ∈ c) :
    .table f.owner ∈ c := by
  obtain ⟨ts, hts, -, hmem⟩ := mem_catalog hc
  obtain ⟨t, ht, hhas⟩ := (hmem f).1 hf
  exact (table_mem_catalog hc hts _).2 ⟨t, ht, (Table.owner_of_has hhas).symm⟩

/-- and every foreign key refers to one. -/
theorem target_mem_catalog (hc : catalog d s = .ok c) {m x target y : String}
    (hf : .foreignKey m x target y ∈ c) : .table target ∈ c := by
  obtain ⟨ts, hts, -, hmem⟩ := mem_catalog hc
  obtain ⟨t, ht, -, k, hk, hres⟩ := (hmem _).1 hf
  exact (table_mem_catalog hc hts _).2 (Tables.resolve_eq_ok hres).2

theorem ofEntity_of_find? (hs : s.Sound) (hts : Tables.ofSchema d s = .ok ts) {e : Entity}
    (he : e ∈ s.entities) (hf : ts.find? e.name = some table) :
    Table.ofEntity d s e.name e = .ok table := by
  have hname : table.name = e.name :=
    of_decide_eq_true (List.find?_some (p := fun t : Table => decide (t.name = e.name)) hf)
  rcases (mem_ofSchema hts table).1 (List.mem_of_find?_eq_some hf) with
    ⟨g, hg, hgt⟩ | ⟨g, hg, l, hl, hlt⟩
  · have hgn := (Table.ofEntity_of_eq_ok hs hgt).name
    obtain rfl := Schema.eq_of_name_eq hs.distinct hg he (hgn.symm.trans hname)
    exact hgt
  · obtain ⟨k, m, -, -, rfl⟩ := (Table.ofLink_eq_ok hs g l table).1 hlt
    have hjoin : joinEntityName g.name l.name = e.name := hname
    have hdecl := Schema.declares_relationship_of_mem hg ((g.mem_links l).1 hl)
    exact absurd (hjoin ▸ Schema.declares_of_mem he) (hs.unshadowed _ l hdecl)

theorem ofLink_of_find? (hs : s.Sound) (hts : Tables.ofSchema d s = .ok ts) {e : Entity}
    (he : e ∈ s.entities) {l : ManyLink} (hl : l ∈ e.links)
    (hf : ts.find? (joinEntityName e.name l.name) = some table) :
    Table.ofLink s e l = .ok table := by
  have hname : table.name = joinEntityName e.name l.name :=
    of_decide_eq_true (List.find?_some
      (p := fun t : Table => decide (t.name = joinEntityName e.name l.name)) hf)
  have hdecl := Schema.declares_relationship_of_mem he ((e.mem_links l).1 hl)
  rcases (mem_ofSchema hts table).1 (List.mem_of_find?_eq_some hf) with
    ⟨g, hg, hgt⟩ | ⟨g, hg, k, hk, hkt⟩
  · have hgn := (Table.ofEntity_of_eq_ok hs hgt).name
    have hshadow : s.Declares (.entity (joinEntityName e.name l.name)) :=
      hname ▸ hgn ▸ Schema.declares_of_mem hg
    exact absurd hshadow (hs.unshadowed _ l hdecl)
  · obtain ⟨key, key', -, -, htable⟩ := (Table.ofLink_eq_ok hs g k table).1 hkt
    have hdecl' := Schema.declares_relationship_of_mem hg ((g.mem_links k).1 hk)
    have hjoin : joinEntityName g.name k.name = joinEntityName e.name l.name := by
      rw [← hname, htable]
      rfl
    obtain ⟨hge, hkl⟩ := hs.joins _ _ _ _ hdecl' hdecl hjoin
    obtain rfl := Schema.eq_of_name_eq hs.distinct hg he hge
    obtain rfl := Schema.many_eq_of_name_eq (hs.entities _ hg) ((g.mem_links k).1 hk)
      ((g.mem_links l).1 hl) hkl
    exact hkt

/-! ## Tables created and dropped -/

theorem run_createEntity (hs : s.Sound) (ht : t.Sound) {e : Entity}
    (hapt : Step.Apt s (.createEntity e)) (happly : Step.apply s (.createEntity e) = .ok t)
    (hc : catalog d s = .ok c) (hc' : catalog d t = .ok c') (hts : Tables.ofSchema d t = .ok ts)
    (hf : ts.find? e.name = some table)
    (hres : ∀ k ∈ table.foreignKeys, ∃ r, ts.resolve k = .ok r) :
    run d [.createTable ts table] c = c' := by
  obtain ⟨-, rfl, -⟩ := (Step.apply_createEntity s t e).1 happly
  have he : e ∈ (s.put e).entities := (Schema.mem_put hs.distinct e e).2 (.inl rfl)
  have hhas := has_ofEntity ht he (ofEntity_of_find? ht hts he hf) hres
  have hnone : leaving d s (.createEntity e) = ∅ := by
    refine Set.eq_empty_iff_forall_notMem.2 ?_
    rintro f ⟨x, -, hrem, -⟩
    exact hrem
  rw [catalog_after hs ht hapt happly hc', catalog_before hs hc (.createEntity e), hnone,
    Set.union_empty, run_cons, run_nil, Statement.effect]
  congr 1
  ext f
  rw [Set.mem_ofPred_eq, hhas]
  constructor
  · rintro ⟨x, hx, -, hlays⟩
    exact ⟨x, hx, hlays⟩
  · rintro ⟨x, hx, hlays⟩
    refine ⟨x, hx, ?_, hlays⟩
    cases hlays with
    | @link n l k m f hk hm hmem =>
      have hl := (e.mem_links l).2 hx.2
      rw [show e.links = [] from hapt] at hl
      cases hl
    | _ => rfl

theorem run_addLink (hs : s.Sound) (ht : t.Sound) {n : String} {l : ManyLink}
    (happly : Step.apply s (.addRelationship n (.many l)) = .ok t) (hc : catalog d s = .ok c)
    (hc' : catalog d t = .ok c') (hts : Tables.ofSchema d t = .ok ts)
    (hf : ts.find? (joinEntityName n l.name) = some table)
    (hres : ∀ k ∈ table.foreignKeys, ∃ r, ts.resolve k = .ok r) :
    run d [.createTable ts table] c = c' := by
  have hapt : Step.Apt s (.addRelationship n (.many l)) := trivial
  obtain ⟨e, he, rfl, hl⟩ : t.Declares (.relationship n (.many l)) :=
    (Step.declares_apply hs.distinct happly _).2 (.inl rfl)
  have hhas := has_ofLink (d := d) ht (ofLink_of_find? ht hts he ((e.mem_links l).2 hl) hf) hres
  rw [catalog_after hs ht hapt happly hc', arriving_of_added? rfl rfl, catalog_before hs hc
    (.addRelationship e.name (.many l)), leaving_eq_empty hs rfl hapt rfl, Set.union_empty, run_cons,
    run_nil, Statement.effect]
  congr 1
  ext f
  exact hhas f

/-- A table is dropped with all that was declared for it. -/
theorem run_dropTable {n : String} {step : Step} (hs : s.Sound) (ht : t.Sound)
    (hapt : step.Apt s) (happly : step.apply s = .ok t) (hc : catalog d s = .ok c)
    (hc' : catalog d t = .ok c') (hadds : ∀ x, ¬ step.Adds x)
    (hremoves : ∀ x, s.Declares x → (step.Removes x ↔ x.table = n)) :
    run d [.dropTable n] c = c' := by
  have hnone : arriving d t step = ∅ := by
    refine Set.eq_empty_iff_forall_notMem.2 ?_
    rintro f ⟨x, hx, -⟩
    exact hadds x hx
  rw [catalog_after hs ht hapt happly hc', hnone, Set.union_empty, catalog_before hs hc step,
    run_cons, run_nil, Statement.effect]
  ext f
  constructor
  · rintro ⟨hf | ⟨x, hx, hrem, hlays⟩, hn⟩
    · exact hf
    · exact absurd (hlays.owner.trans ((hremoves x hx).1 hrem)) hn
  · intro hf
    obtain ⟨x, hx, hrem, hlays⟩ := hf
    exact ⟨.inl ⟨x, hx, hrem, hlays⟩, fun hn =>
      hrem ((hremoves x hx).2 (hlays.owner.symm.trans hn))⟩

theorem table_of_dropEntity (hs : s.Sound) {e : Entity} (hapt : Step.Apt s (.dropEntity e))
    (he : s.Declares (.entity e.name)) {x : Declaration} (hx : s.Declares x) :
    Step.Removes (.dropEntity e) x ↔ x.table = e.name := by
  cases hlink : x.isLink with
  | false =>
    rw [Declaration.table_eq_owner hlink]
    exact Iff.rfl
  | true =>
    cases x with
    | relationship n r =>
      cases r with
      | single r => cases hlink
      | many l =>
        refine iff_of_false ?_ fun hn => ?_
        · rintro rfl
          exact hapt.2 l hx
        · exact hs.unshadowed n l hx ((show joinEntityName n l.name = e.name from hn) ▸ he)
    | _ => cases hlink

theorem table_of_removeLink (hs : s.Sound) {n : String} {l : ManyLink}
    (hl : s.Declares (.relationship n (.many l))) {x : Declaration} (hx : s.Declares x) :
    Step.Removes (.removeRelationship n (.many l)) x ↔ x.table = joinEntityName n l.name := by
  have hapt : Step.Apt s (.removeRelationship n (.many l)) := hl
  rw [Step.removes_iff hs rfl hapt hx]
  constructor
  · rintro ⟨⟩
    rfl
  · intro htable
    cases hlink : x.isLink with
    | false =>
      rw [Declaration.table_eq_owner hlink] at htable
      exact absurd (htable ▸ hx.owner) (hs.unshadowed n l hl)
    | true =>
      cases x with
      | relationship m r =>
        cases r with
        | single r => cases hlink
        | many k =>
          obtain ⟨rfl, hname⟩ := hs.joins _ _ _ _ hx hl htable
          rw [hs.relationship_unique hx hl hname]
          rfl
      | _ => cases hlink

/-! ## Tables replaced -/

theorem rename_eq_self {old new : String} {f : Fact} (howner : f.owner ≠ old)
    (htarget : ∀ m x y, f ≠ .foreignKey m x old y) : f.rename old new = f := by
  have hname : Fact.newName old new f.owner = f.owner := Fact.newName_of_ne new howner
  cases f with
  | table m => exact congrArg Fact.table hname
  | column m x type nullable => exact congrArg (Fact.column · x type nullable) hname
  | primaryKey m columns => exact congrArg (Fact.primaryKey · columns) hname
  | unique m constraint x => exact congrArg (Fact.unique · constraint x) hname
  | foreignKey m x target y =>
    have hne : target ≠ old := by
      rintro rfl
      exact htarget m x y rfl
    exact congrArg₂ (Fact.foreignKey · x · y) hname (Fact.newName_of_ne new hne)

/-- A renamed table has the facts of one made under the new name. -/
theorem image_rename_has {n : String} (htarget : ∀ k ∈ table.foreignKeys, ∀ x y,
      ts.resolve k ≠ .ok ⟨x, table.name, y⟩) :
    Set.image (Fact.rename table.name n) {f | table.Has d ts f} =
      {f | Table.Has d ts { table with name := n } f} := by
  have hnew : Fact.newName table.name n table.name = n := Fact.newName_self _ _
  have hkey : ∀ {k x target y}, k ∈ table.foreignKeys → ts.resolve k = .ok ⟨x, target, y⟩ →
      Fact.newName table.name n target = target := by
    intro k x target y hk hres
    refine Fact.newName_of_ne n ?_
    rintro rfl
    exact htarget k hk x y hres
  ext f
  constructor
  · rintro ⟨g, hg, rfl⟩
    cases g with
    | table m =>
      obtain rfl : m = table.name := hg
      exact hnew
    | foreignKey m x target y =>
      obtain ⟨rfl, k, hk, hres⟩ := hg
      refine ⟨hnew, k, hk, ?_⟩
      rw [hkey hk hres]
      exact hres
    | _ =>
      obtain ⟨rfl, hg⟩ := hg
      exact ⟨hnew, hg⟩
  · intro hf
    cases f with
    | table m =>
      obtain rfl : m = n := hf
      exact ⟨.table table.name, rfl, congrArg Fact.table hnew⟩
    | column m x type nullable =>
      obtain ⟨rfl, hf⟩ := hf
      exact ⟨.column table.name x type nullable, ⟨rfl, hf⟩,
        congrArg (Fact.column · x type nullable) hnew⟩
    | primaryKey m columns =>
      obtain ⟨rfl, hf⟩ := hf
      exact ⟨.primaryKey table.name columns, ⟨rfl, hf⟩, congrArg (Fact.primaryKey · columns) hnew⟩
    | unique m constraint x =>
      obtain ⟨rfl, hf⟩ := hf
      exact ⟨.unique table.name constraint x, ⟨rfl, hf⟩,
        congrArg (Fact.unique · constraint x) hnew⟩
    | foreignKey m x target y =>
      obtain ⟨rfl, k, hk, hres⟩ := hf
      exact ⟨.foreignKey table.name x target y, ⟨rfl, k, hk, hres⟩,
        congrArg₂ (Fact.foreignKey · x · y) hnew (hkey hk hres)⟩

/-- A table put in the place of another one has the other's name in the end. -/
theorem run_replacing {n : String} {copied : List (String × Expr)} (hn : table.name ≠ n)
    (howner : ∀ f ∈ c, f.owner ≠ table.name)
    (htarget : ∀ m x y, .foreignKey m x table.name y ∉ c)
    (hkeys : ∀ k ∈ table.foreignKeys, ∀ x y,
      Tables.resolve (ts ++ [table]) k ≠ .ok ⟨x, table.name, y⟩) :
    run d (Ddl.replacing ts table n copied) c =
      {f ∈ c | f.owner ≠ n} ∪ {f | Table.Has d (ts ++ [table]) { table with name := n } f} := by
  have hcopy : ∀ e : Catalog, run d (if copied.isEmpty then []
      else [.copyRows n table.name copied]) e = e := by
    intro e
    split <;> rfl
  have hdrop : {f ∈ c ∪ {f | table.Has d (ts ++ [table]) f} | f.owner ≠ n} =
      {f ∈ c | f.owner ≠ n} ∪ {f | table.Has d (ts ++ [table]) f} := by
    ext f
    constructor
    · rintro ⟨hf | hf, hne⟩
      · exact .inl ⟨hf, hne⟩
      · exact .inr hf
    · rintro (⟨hf, hne⟩ | hf)
      · exact ⟨.inl hf, hne⟩
      · exact ⟨.inr hf, (Table.owner_of_has hf).trans_ne hn⟩
  have hrest : Set.image (Fact.rename table.name n) {f ∈ c | f.owner ≠ n} =
      {f ∈ c | f.owner ≠ n} := by
    refine (Set.image_congr fun f hf => rename_eq_self (howner f hf.1) ?_).trans (Set.image_id _)
    rintro m x y rfl
    exact htarget m x y hf.1
  rw [Ddl.replacing, run_cons, run_append, hcopy]
  simp only [run_cons, run_nil, Statement.effect]
  rw [hdrop, Set.image_union, hrest, image_rename_has hkeys]

/-- Whether what a step removes and adds are columns of one table. -/
def ChangesColumns (step : Step) : Prop :=
  ∀ x, step.removed? = some x ∨ step.added? = some x →
    ∃ m, x.column? = some (step.entityName, m)

theorem Fact.owner_of_about {n m : String} {f : Fact} (h : f.About n m) : f.owner = n := by
  cases f with
  | column _ _ _ _ | unique _ _ _ | foreignKey _ _ _ _ => exact h.1
  | _ => cases h

section Rebuild

variable {step : Step} (hs : s.Sound) (ht : t.Sound) (hapt : step.Apt s)
  (happly : step.apply s = .ok t) (hc : catalog d s = .ok c) (hc' : catalog d t = .ok c')
  (h : step.isChange = true) (hcolumns : ChangesColumns step)

include hs ht hapt happly hc hc' h hcolumns

/-- A step about columns of one table changes no other facts. -/
theorem mem_catalog_congr {f : Fact} (hf : ∀ m, ¬ f.About step.entityName m) :
    f ∈ c ↔ f ∈ c' := by
  have hleaving : f ∉ leaving d s step := by
    rintro ⟨x, hx, hrem, hlays⟩
    obtain ⟨m, hm⟩ := hcolumns x (.inl ((Step.removes_iff hs h hapt hx).1 hrem))
    exact hf m (hlays.about hm)
  have harriving : f ∉ arriving d t step := by
    rintro ⟨x, hadd, hlays⟩
    obtain ⟨m, hm⟩ := hcolumns x (.inr ((Step.adds_iff h x).1 hadd))
    exact hf m (hlays.about hm)
  rw [catalog_before hs hc step, catalog_after hs ht hapt happly hc']
  simp only [Set.mem_union, hleaving, harriving]

theorem table_mem_congr (m : String) : .table m ∈ c ↔ .table m ∈ c' :=
  mem_catalog_congr hs ht hapt happly hc hc' h hcolumns fun _ => id

end Rebuild

theorem ofEntity_rename {name : String} {e : Entity} (n : String)
    (h : Table.ofEntity d s name e = .ok table) :
    Table.ofEntity d s n e = .ok { table with name := n } := by
  obtain ⟨fields, hf, h⟩ := (Outcome.bind_eq_ok _ _ _).1 h
  obtain ⟨references, hr, h⟩ := (Outcome.bind_eq_ok _ _ _).1 h
  obtain ⟨foreignKeys, hk, h⟩ := (Outcome.bind_eq_ok _ _ _).1 h
  refine (Outcome.bind_eq_ok _ _ _).2 ⟨fields, hf, (Outcome.bind_eq_ok _ _ _).2 ⟨references, hr,
    (Outcome.bind_eq_ok _ _ _).2 ⟨foreignKeys, hk, ?_⟩⟩⟩
  split at h
  · cases h
  · rename_i hnames
    cases h
    rw [if_neg hnames]

/-- The facts of the table of an entity in a catalog. -/
theorem mem_catalog_of_owner (hs : s.Sound) (hc : catalog d s = .ok c) {e : Entity}
    (he : e ∈ s.entities) (f : Fact) :
    f ∈ c ∧ f.owner = e.name ↔ ∃ x, e.Declares x ∧ x.isLink = false ∧ Lays d s x f := by
  rw [mem_catalog_iff hs hc]
  constructor
  · rintro ⟨⟨x, hx, hlays⟩, howner⟩
    have htable : x.table = e.name := hlays.owner.symm.trans howner
    cases hlink : x.isLink with
    | false =>
      rw [Declaration.table_eq_owner hlink] at htable
      exact ⟨x, (Schema.declares_iff hs.distinct he htable).1 hx, hlink, hlays⟩
    | true =>
      cases hlays with
      | @link n l k m f hk hm hmem =>
        have hjoin : joinEntityName n l.name = e.name := htable
        exact absurd (hjoin ▸ Schema.declares_of_mem he) (hs.unshadowed n l hx)
      | _ => cases hlink
  · rintro ⟨x, hx, hlink, hlays⟩
    refine ⟨⟨x, ⟨e, he, hx⟩, hlays⟩, ?_⟩
    rw [hlays.owner, Declaration.table_eq_owner hlink, hx.owner]

theorem run_rebuild {step : Step} (hs : s.Sound) (ht : t.Sound) (hapt : step.Apt s)
    (happly : step.apply s = .ok t) (hc : catalog .sqlite s = .ok c)
    (hc' : catalog .sqlite t = .ok c') (h : step.isChange = true) (hcolumns : ChangesColumns step)
    {changed : List (String × Expr)} {list : List Statement}
    (hlist : Ddl.rebuild s t step.entityName changed = .ok list)
    (hrender : ∃ texts, list.mapM (·.render .sqlite) = .ok texts) : run .sqlite list c = c' := by
  obtain ⟨others, old, new, table, hre⟩ := Ddl.exists_rebuilds hlist
  obtain ⟨hnew, hname⟩ := (Schema.entity?_eq_some ht.distinct _ new).1 hre.goal
  have hrename : table.name = Ddl.replacementName step.entityName :=
    (Table.ofEntity_of_eq_ok ht hre.built).name
  have hres : ∀ k ∈ table.foreignKeys, ∃ r, Tables.resolve (others ++ [table]) k = .ok r := by
    obtain ⟨texts, htexts⟩ := hrender
    rw [hre.statements, Ddl.replacing] at htexts
    obtain ⟨text, rest, htext, -⟩ := Outcome.mapM_cons_eq_ok.1 htexts
    exact resolve_of_createTable htext
  have htables := table_mem_congr hs ht hapt happly hc hc' h hcolumns
  have hfree : .table table.name ∉ c := by
    rw [table_mem_catalog hc hre.tables, hrename]
    rintro ⟨t, hin, htn⟩
    have hno := List.find?_eq_none.1 hre.free t hin
    exact hno (decide_eq_true htn)
  have hbuilt : Table.ofEntity .sqlite t new.name new =
      .ok { table with name := step.entityName } := by
    rw [hname]
    exact ofEntity_rename step.entityName hre.built
  have hhas := has_ofEntity ht hnew hbuilt hres
  have hkeys : ∀ k ∈ table.foreignKeys, ∀ x y,
      Tables.resolve (others ++ [table]) k ≠ .ok ⟨x, table.name, y⟩ := by
    intro k hk x y hresolve
    have hin := (hhas (.foreignKey step.entityName x table.name y)).1 ⟨rfl, k, hk, hresolve⟩
    have hmem := ((mem_catalog_of_owner ht hc' hnew _).2 hin).1
    exact hfree ((htables _).2 (target_mem_catalog hc' hmem))
  rw [hre.statements, run_replacing (hrename ▸ Ddl.replacementName_ne _) ?_ ?_ hkeys]
  · ext f
    have hentity := mem_catalog_of_owner ht hc' hnew f
    rw [hname] at hentity
    rw [Set.mem_union, Set.mem_ofPred_eq, Set.mem_ofPred_eq, hhas, ← hentity]
    by_cases howner : f.owner = step.entityName
    · simp [howner]
    · have hsame : f ∈ c ↔ f ∈ c' := mem_catalog_congr hs ht hapt happly hc hc' h hcolumns
        fun m habout => howner (Fact.owner_of_about habout)
      simp [howner, hsame]
  · intro f hf howner
    exact hfree (howner ▸ owner_mem_catalog hc hf)
  · exact fun m x y hf => hfree (target_mem_catalog hc hf)

end SchemaLedger.Sql
