import SchemaLedger.Proofs.Query.Grammar

set_option autoImplicit false

/-!
# Links between records

A many-to-many relationship with both of its ends, and what is asked of its join table: whether a pair
is linked, that it be linked or no longer be, and which targets an owner is linked to.
-/
namespace SchemaLedger

open Sql (ColumnRef Cells Contents Row)

/-- A many-to-many relationship of a schema, with the keys of both ends. -/
structure Schema.Linkage (s : Schema) where
  owner : Entity
  link : ManyLink
  target : Entity
  ownerKey : Field
  targetKey : Field
  owner_mem : owner ∈ s.entities
  link_mem : link ∈ owner.links
  target_mem : target ∈ s.entities
  target_name : target.name = link.target
  ownerKey_eq : owner.key? = some ownerKey
  targetKey_eq : target.key? = some targetKey

theorem Schema.liftSchema_entity {s : Schema} (hs : s.Sound) {e : Entity} (he : e ∈ s.entities) :
    liftSchema (s.entity e.name) = .ok e :=
  (Outcome.mapError_eq_ok _ _ _).2 ((Schema.entity_eq_ok_iff hs.distinct _ _).2 ⟨he, rfl⟩)

namespace Schema.Linkage

variable {s : Schema}

/-- The name of the join table. -/
def table (j : s.Linkage) : String := joinEntityName j.owner.name j.link.name

def ownerColumn (j : s.Linkage) : ColumnRef := ⟨.table j.table, "owner", j.ownerKey.type⟩

def hasColumn (j : s.Linkage) : ColumnRef := ⟨.table j.table, "has", j.targetKey.type⟩

/-- The key of the targets, as a query reads it. -/
def targetColumn (j : s.Linkage) : ColumnRef :=
  ⟨.table j.target.name, j.targetKey.name, j.targetKey.type⟩

theorem declared (j : s.Linkage) : s.Declares (.relationship j.owner.name (.many j.link)) :=
  Schema.declares_relationship_of_mem j.owner_mem ((j.owner.mem_links j.link).1 j.link_mem)

theorem exists_of_relationship? (hs : s.Sound) {e : Entity} (he : e ∈ s.entities) {name : String}
    {l : ManyLink} (h : e.relationship? name = some (.many l)) :
    ∃ j : s.Linkage, j.owner = e ∧ j.link = l := by
  obtain ⟨hl, -⟩ := Query.relationship?_mem h
  obtain ⟨target, htarget, hname⟩ := hs.targets e.name (.many l)
    (Schema.declares_relationship_of_mem he hl)
  obtain ⟨key, hk⟩ := (hs.entities e he).exists_key
  obtain ⟨targetKey, htk⟩ := (hs.entities target htarget).exists_key
  exact ⟨⟨e, l, target, key, targetKey, he, (e.mem_links l).2 hl, htarget, hname, hk, htk⟩, rfl, rfl⟩

theorem relationship?_link (hs : s.Sound) (j : s.Linkage) :
    j.owner.relationship? j.link.name = some (.many j.link) :=
  (Query.relationship?_eq_some (hs.entities _ j.owner_mem)).2
    ⟨(j.owner.mem_links j.link).1 j.link_mem, rfl⟩

theorem entity?_target (hs : s.Sound) (j : s.Linkage) : s.entity? j.link.target = some j.target :=
  (Schema.entity?_eq_some hs.distinct _ _).2 ⟨j.target_mem, j.target_name⟩

/-- A relationship has both ends by its owner and its name. -/
theorem eq_of_link (hs : s.Sound) {i j : s.Linkage} (ho : i.owner = j.owner)
    (hl : i.link.name = j.link.name) : i = j := by
  obtain ⟨o, l, t, ok, tk, ho₁, hl₁, ht₁, hn₁, hk₁, htk₁⟩ := i
  obtain ⟨o', l', t', ok', tk', ho₂, hl₂, ht₂, hn₂, hk₂, htk₂⟩ := j
  dsimp only at ho hl
  subst ho
  obtain rfl := Schema.many_eq_of_name_eq (hs.entities _ ho₁) ((o.mem_links l).1 hl₁)
    ((o.mem_links l').1 hl₂) hl
  obtain rfl := Schema.eq_of_name_eq hs.distinct ht₁ ht₂ (hn₁.trans hn₂.symm)
  obtain rfl := Option.some.inj (hk₁.symm.trans hk₂)
  obtain rfl := Option.some.inj (htk₁.symm.trans htk₂)
  rfl

/-- No two relationships share a join table. -/
theorem eq_of_table (hs : s.Sound) {i j : s.Linkage} (h : i.table = j.table) : i = j := by
  obtain ⟨howner, hlink⟩ := hs.joins _ _ _ _ i.declared j.declared h
  exact eq_of_link hs (Schema.eq_of_name_eq hs.distinct i.owner_mem j.owner_mem howner) hlink

theorem table_ne (hs : s.Sound) (j : s.Linkage) {e : Entity} (he : e ∈ s.entities) :
    e.name ≠ j.table := fun h =>
  hs.unshadowed _ _ j.declared ⟨e, he, h⟩

/-! ## Pairs -/

/-- The condition that a row links an owner to a target. -/
def pair (j : s.Linkage) (v u : Value) : Sql.Condition :=
  .connect .and [.test (Sql.holding j.ownerColumn v), .test (Sql.holding j.hasColumn u)]

/-- Whether an owner and a target are linked. -/
def looking (j : s.Linkage) (v u : Value) : Sql.Select where
  outputs := [⟨j.ownerColumn, none⟩]
  source := { table := j.table }
  condition := some (j.pair v u)

def adding (j : s.Linkage) (v u : Value) : Sql.Insert where
  table := j.table
  assignments := [⟨"owner", j.ownerKey.type, v⟩, ⟨"has", j.targetKey.type, u⟩]

def removing (j : s.Linkage) (v u : Value) : Sql.Delete where
  table := j.table
  condition := j.pair v u

/-- The key of an owner and the key of a target, as the columns of the join table hold them. -/
structure Admits (j : s.Linkage) (v u : Value) : Prop where
  owner : j.ownerKey.type.admits v = true
  target : j.targetKey.type.admits u = true
  owner_ne : v ≠ .null
  target_ne : u ≠ .null

theorem comparable (hs : s.Sound) (j : s.Linkage) :
    j.ownerKey.type ≠ .json ∧ j.targetKey.type ≠ .json :=
  ⟨(hs.entities _ j.owner_mem).key_comparable j.ownerKey_eq,
    (hs.entities _ j.target_mem).key_comparable j.targetKey_eq⟩

theorem Admits.single (hs : s.Sound) {j : s.Linkage} {v u : Value} (h : j.Admits v u) :
    v.isSingle = true ∧ u.isSingle = true :=
  ⟨LogicalType.isSingle_of_admits h.owner (j.comparable hs).1,
    LogicalType.isSingle_of_admits h.target (j.comparable hs).2⟩

end Schema.Linkage

namespace Sql

variable {d : Dialect}

theorem constant?_holding (c : ColumnRef) (v : Value) :
    (Condition.test (holding c v)).constant? = none := by
  cases v <;> rfl

theorem connect_holding (c c' : ColumnRef) (v u : Value) :
    Condition.connect .and [.test (holding c v), .test (holding c' u)] =
      .list .and [.test (holding c v), .test (holding c' u)] := by
  simp [Condition.connect, constant?_holding, Condition.operandsOf]

theorem render_ne_nil (d : Dialect) (t : Test) : t.render d ≠ [] := by
  cases t with
  | oneOf expected c vs => cases expected <;> simp [Test.render, Fragment.ofText, Fragment.parenthesised]
  | _ => simp [Test.render, Fragment.ofText]

theorem render_both (c c' : ColumnRef) (v u : Value) :
    (Condition.connect .and [.test (holding c v), .test (holding c' u)]).render d =
      (holding c v).render d ++ .ofText " AND " ++ (holding c' u).render d := by
  have hfirst := render_ne_nil d (holding c v)
  have hsecond := render_ne_nil d (holding c' u)
  simp [connect_holding, Condition.render, Condition.renderItems, Condition.groupedIn,
    Condition.group, hfirst, hsecond, Fragment.join, Connective.separator]

theorem parameters_both (c c' : ColumnRef) (v u : Value) :
    (Prepared.ofFragment d ((Condition.connect .and
        [.test (holding c v), .test (holding c' u)]).render d)).parameters =
      (Prepared.ofPieces d {} ((holding c v).render d)).parameters ++
        (Prepared.ofPieces d (Prepared.after d {} ((holding c v).render d))
          ((holding c' u).render d)).parameters := by
  rw [render_both, List.append_assoc, Prepared.ofFragment, Prepared.ofPieces_append]
  rfl

end Sql

namespace Schema.Linkage

variable {s : Schema} {d : Dialect} {v u : Value}

/-- The condition for a pair reaches the rows whose two cells the database finds equal to the keys. -/
theorem reaches_pair {C : Cells} {db : Contents C} (hs : s.Sound) (j : s.Linkage) (h : j.Admits v u)
    (row : Row C) : (j.pair v u).reaches db j.table row = true ↔
      C.same j.ownerKey.type (row "owner") (C.literal j.ownerKey.type v) = true ∧
        C.same j.targetKey.type (row "has") (C.literal j.targetKey.type u) = true := by
  obtain ⟨howner, htarget⟩ := j.comparable hs
  have hreadowner : (Sql.Scope.empty.put (.table j.table) row).read j.ownerColumn = row "owner" :=
    Sql.Scope.read_put_self _ row j.ownerColumn
  have hreadhas : (Sql.Scope.empty.put (.table j.table) row).read j.hasColumn = row "has" :=
    Sql.Scope.read_put_self _ row j.hasColumn
  have hfirst := Sql.eval_of_seeks (c := j.ownerColumn) (Or.inr rfl) h.owner howner h.owner_ne
    (Sql.Scope.empty.put (.table j.table) row)
  have hsecond := Sql.eval_of_seeks (c := j.hasColumn) (Or.inr rfl) h.target htarget h.target_ne
    (Sql.Scope.empty.put (.table j.table) row)
  rw [hreadowner] at hfirst
  rw [hreadhas] at hsecond
  rw [Sql.Condition.reaches, decide_eq_true_iff, pair, Sql.Condition.eval_connect _ _ _ (by simp)]
  refine (Sql.Truth.combine_eq_neutral (k := .and) _).trans ?_
  rw [List.map_cons, List.map_singleton, List.forall_mem_cons, List.forall_mem_singleton]
  exact and_congr hfirst hsecond

/-- The parameter for the target is not called like the one for the owner. -/
theorem owner_ne_has (d : Dialect) :
    Sql.countedName d "owner" ≠ Sql.Fragment.placeholderName d
      ((Sql.Counted.next d.longestName {} (Sql.Fragment.stemOf "owner")).2.next d.longestName
        (Sql.Fragment.stemOf "has")).1 := by
  cases d <;> decide +kernel

theorem parameters_pair (hs : s.Sound) (j : s.Linkage) (h : j.Admits v u) :
    ((Sql.Prepared.ofFragment d ((j.pair v u).render d)).parameters.map (·.1)).Nodup ∧
      ∀ q ∈ (Sql.Prepared.ofFragment d ((j.pair v u).render d)).parameters,
        q.2.type.admits q.2.value = true := by
  obtain ⟨howner, htarget⟩ := j.comparable hs
  have hv : (Sql.typeBeside j.ownerKey.type v).admits v = true := by
    rw [Sql.typeBeside_of_admits h.owner howner, h.owner]
  have hu : (Sql.typeBeside j.targetKey.type u).admits u = true := by
    rw [Sql.typeBeside_of_admits h.target htarget, h.target]
  rw [pair, Sql.parameters_both]
  rcases Sql.ofPieces_holding (d := d) {} j.ownerColumn v with ⟨hps, hn, -⟩ | ⟨⟨hps, hn⟩, -⟩ <;>
    rcases Sql.ofPieces_holding (d := d) (Sql.Prepared.after d {}
      ((Sql.holding j.ownerColumn v).render d)) j.hasColumn u with ⟨hqs, -⟩ | ⟨⟨hqs, -⟩, -⟩ <;>
    rw [hps, hqs]
  · exact ⟨List.nodup_nil, List.forall_mem_nil _⟩
  · exact ⟨List.nodup_singleton _, List.forall_mem_singleton.2 hu⟩
  · exact ⟨List.nodup_singleton _, List.forall_mem_singleton.2 hv⟩
  · refine ⟨List.nodup_cons.2 ⟨fun hin => ?_, List.nodup_singleton _⟩, List.forall_mem_cons.2
      ⟨hv, List.forall_mem_singleton.2 hu⟩⟩
    rw [hn] at hin
    exact owner_ne_has d (List.mem_singleton.1 hin)

theorem proper_looking (hs : s.Sound) (j : s.Linkage) (h : j.Admits v u) :
    (Request.select (j.looking v u)).Proper d := by
  refine ⟨?_, ?_⟩ <;> rw [Sql.parameters_select rfl rfl rfl]
  · exact (j.parameters_pair hs h).1
  · exact (j.parameters_pair hs h).2

theorem proper_removing (hs : s.Sound) (j : s.Linkage) (h : j.Admits v u) :
    (Request.delete (j.removing v u)).Proper d := by
  refine ⟨?_, ?_⟩ <;> rw [Sql.parameters_delete]
  · exact (j.parameters_pair hs h).1
  · exact (j.parameters_pair hs h).2

theorem proper_adding (j : s.Linkage) (h : j.Admits v u) :
    (Request.insert (j.adding v u)).Proper d := by
  have hcolumns : ((j.adding v u).assignments.map (·.column)).Sublist ["owner", "has"] := .refl _
  refine Request.proper_insert hcolumns ?_ ?_
  · cases d <;> decide +kernel
  · exact List.forall_mem_cons.2 ⟨h.owner, List.forall_mem_singleton.2 h.target⟩

end Schema.Linkage

namespace Query

variable {s : Schema} {d : Dialect} {C : Cells} {db : Contents C}

/-- The selection of the targets that an owner is linked to. -/
def following (j : s.Linkage) (v : Value) : Sql.Select where
  outputs := (ownColumns s j.target).map (⟨·, none⟩)
  source := { table := j.target.name }
  joins := [⟨{ table := j.table }, false, j.hasColumn, j.targetColumn⟩]
  condition := some (.test (.compare .eq j.ownerColumn (.literal j.ownerKey.type v)))
  ordering := [⟨j.targetColumn, none⟩]

theorem compileRelated_eq (hs : s.Sound) (j : s.Linkage) {tables : Sql.Tables}
    (htables : Sql.Tables.ofSchema d s = .ok tables) (v : Value) :
    compileRelated d s j.owner.name j.link.name v =
      .ok ⟨following j v, j.target.columnNames⟩ := by
  have htarget : Path.target s j.link.target = .ok j.target :=
    Path.target_eq_ok.2 (j.entity?_target hs)
  have hcolumns : j.target.columnNames.mapM (fun c =>
      columnOf s c j.target (.table j.target.name) c) = .ok (ownColumns s j.target) := by
    refine Outcome.mapM_of_ok fun column hcolumn => columnOf_eq_ok.2 ⟨hcolumn, ?_⟩
    obtain ⟨type, htype⟩ := exists_columnType hs j.target_mem hcolumn
    exact ⟨type, htype, by rw [htype]; rfl⟩
  have howner : keyType j.owner = j.ownerKey.type := by rw [keyType, j.ownerKey_eq]
  have hkey : keyType j.target = j.targetKey.type := by rw [keyType, j.targetKey_eq]
  have hname : keyName j.target = j.targetKey.name := by rw [keyName, j.targetKey_eq]
  refine (Outcome.bind_eq_ok _ _ _).2 ⟨j.owner, Schema.liftSchema_entity hs j.owner_mem, ?_⟩
  rw [j.relationship?_link hs]
  refine (Outcome.bind_eq_ok _ _ _).2 ⟨tables, htables, ?_⟩
  refine (Outcome.bind_eq_ok _ _ _).2 ⟨j.target, htarget, ?_⟩
  refine (Outcome.bind_eq_ok _ _ _).2 ⟨ownColumns s j.target, hcolumns, ?_⟩
  rw [linkColumn, linkColumn, keyColumn, howner, hkey, hname]
  rfl

/-- A target next to a row that links it to an owner. -/
def beside (j : s.Linkage) (row link : Row C) : Sql.Scope C :=
  (Sql.Scope.empty.put (.table j.target.name) row).put (.table j.table) link

/-- Whether a row of the join table links an owner to the target of a row. -/
def links (j : s.Linkage) (v : Value) (row link : Row C) : Bool :=
  C.same j.targetKey.type (link "has") (row j.targetKey.name) &&
    C.same j.ownerKey.type (link "owner") (C.literal j.ownerKey.type v)

theorem read_beside (hs : s.Sound) (j : s.Linkage) (row link : Row C) (column : String)
    (t : LogicalType) : (beside j row link).read ⟨.table j.target.name, column, t⟩ = row column := by
  have hne : Sql.Occurrence.table j.target.name ≠ .table j.table := by
    simpa using j.table_ne hs j.target_mem
  rw [beside, Sql.Scope.read_put_of_ne _ _ hne]
  exact Sql.Scope.read_put_self _ _ (ColumnRef.mk (.table j.target.name) column t)

/-- The selection reads each target once for each row that links it to the owner. -/
theorem scopes_following (hs : s.Sound) (j : s.Linkage) (v : Value) :
    (following j v).scopes db = (db j.target.name).flatMap fun row =>
      ((db j.table).filter (links j v row)).map (beside j row) := by
  have hlinks : ∀ row link : Row C,
      (decide ((Sql.Condition.test (.compare .eq j.ownerColumn (.literal j.ownerKey.type v))).eval db
          (beside j row link) = some true) &&
        decide ((Sql.Test.compare .eq j.hasColumn (.column j.targetColumn)).eval (beside j row link) =
          some true)) = links j v row link := by
    intro row link
    have hhas : (beside j row link).read j.hasColumn = link "has" :=
      Sql.Scope.read_put_self _ link j.hasColumn
    have howner : (beside j row link).read j.ownerColumn = link "owner" :=
      Sql.Scope.read_put_self _ link j.ownerColumn
    have hkey : (beside j row link).read j.targetColumn = row j.targetKey.name :=
      read_beside hs j row link _ _
    rw [links, Bool.and_comm, Cells.same, Cells.same, Sql.Condition.eval, Sql.Test.eval,
      Sql.Test.eval, Sql.Operand.read, Sql.Operand.read, hhas, howner, hkey]
    rfl
  rw [Sql.Select.scopes, Sql.scan_eq, List.filter_flatMap]
  refine List.flatMap_congr fun row _ => ?_
  have hjoined : Sql.joinAll db (following j v).joins
      [Sql.Scope.empty.put (following j v).source.occurrence row] =
        ((db j.table).map (beside j row)).filter fun sc => decide
          ((Sql.Test.compare .eq j.hasColumn (.column j.targetColumn)).eval sc = some true) :=
    List.append_nil _
  rw [hjoined, List.filter_filter, List.filter_map]
  exact congrArg (List.map _) (List.filter_congr fun link _ => hlinks row link)

theorem mem_scopes_following (hs : s.Sound) (j : s.Linkage) (v : Value) {sc : Sql.Scope C} :
    sc ∈ (following j v).scopes db ↔ ∃ row ∈ db j.target.name, ∃ link ∈ db j.table,
      links j v row link = true ∧ beside j row link = sc := by
  simp only [scopes_following hs, List.mem_flatMap, List.mem_map, List.mem_filter, and_assoc]

/-- If no two targets have one key and no two rows link one pair, no target is read twice. -/
theorem pairwise_following (hs : s.Sound) (j : s.Linkage) (v : Value)
    (htargets : (db j.target.name).Pairwise fun a b =>
      C.same j.targetKey.type (a j.targetKey.name) (b j.targetKey.name) = false)
    (hlinks : (db j.table).Pairwise fun a b =>
      ¬(C.same j.ownerKey.type (a "owner") (b "owner") = true ∧
        C.same j.targetKey.type (a "has") (b "has") = true)) :
    ((following j v).scopes db).Pairwise fun a b =>
      C.same j.targetKey.type (a.read j.targetColumn) (b.read j.targetColumn) = false := by
  rw [scopes_following hs, List.pairwise_flatMap]
  constructor
  · intro row _
    rw [List.pairwise_map]
    refine (hlinks.filter _).imp_of_mem fun {a b} ha hb hne => ?_
    obtain ⟨hahas, haowner⟩ := Bool.and_eq_true_iff.1 (List.mem_filter.1 ha).2
    obtain ⟨hbhas, hbowner⟩ := Bool.and_eq_true_iff.1 (List.mem_filter.1 hb).2
    exact absurd ⟨Cells.same_trans haowner (by rw [Cells.same_comm, hbowner]),
      Cells.same_trans hahas (by rw [Cells.same_comm, hbhas])⟩ hne
  · refine htargets.imp fun {row row'} hne sc hsc sc' hsc' => ?_
    obtain ⟨link, -, rfl⟩ := List.mem_map.1 hsc
    obtain ⟨link', -, rfl⟩ := List.mem_map.1 hsc'
    rw [Schema.Linkage.targetColumn, read_beside hs, read_beside hs, hne]

theorem proper_following (j : s.Linkage) {v : Value} (hv : j.ownerKey.type.admits v = true) :
    (Request.select (following j v)).Proper d := by
  refine ⟨?_, ?_⟩ <;> rw [Sql.parameters_select rfl rfl rfl, Sql.Condition.render,
    Sql.parameters_compare, Sql.Operand.render, Sql.Fragment.literal, Sql.parameters_counted _ rfl]
  · exact List.nodup_singleton _
  · exact List.forall_mem_singleton.2 hv

end Query

end SchemaLedger
