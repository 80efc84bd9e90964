import SchemaLedger.Proofs.Query.Path
import SchemaLedger.Proofs.Schema.Declarations
import SchemaLedger.Proofs.Sql.Effect
import SchemaLedger.Proofs.Sql.Parameters
import SchemaLedger.Proofs.Sql.Table

set_option autoImplicit false

/-!
# Lookups

A query for the rows of an entity with a given value in one of its own columns. It reads one table,
and is the same on both databases but for the names of its parameters.
-/
namespace SchemaLedger

theorem Text.splitAtChar_of_notMem {separator : Char} {cs : List Char} (h : separator ∉ cs) :
    splitAtChar separator cs = [cs] := by
  induction cs with
  | nil => rfl
  | cons c rest ih =>
    have hne : c ≠ separator := fun heq => h (heq ▸ List.mem_cons_self)
    rw [splitAtChar, if_neg hne, ih fun hin => h (List.mem_cons_of_mem c hin)]

namespace Query

open Sql (ColumnRef)

variable {s : Schema} {e : Entity} {name : String} {d : Dialect}

theorem columnType?_field (he : e.Sound) {f : Field} (hf : f ∈ e.fields) :
    columnType? s e f.name = some f.type := by
  rw [columnType?, Entity.field?, (Keyed.find?_eq_some he.fieldNames f.name f).2 ⟨hf, rfl⟩]

theorem columnType?_reference (hs : s.Sound) (he : e ∈ s.entities) {r : Reference}
    (hr : r ∈ e.references) {k : Field} (hk : s.Key r.target k) :
    columnType? s e r.name = some k.type := by
  obtain ⟨target, htarget, hname⟩ := hk.1.owner
  have hfound : s.entity? r.target = some target :=
    (Schema.entity?_eq_some hs.distinct _ _).2 ⟨htarget, hname⟩
  rw [columnType?, (hs.entities e he).field?_reference hr, (hs.entities e he).find?_reference hr]
  dsimp only
  rw [hfound, Option.map_some, keyType, Entity.key?, (hs.keys htarget k).2 (hname ▸ hk)]
  rfl

theorem exists_columnType (hs : s.Sound) (he : e ∈ s.entities) (hn : name ∈ e.columnNames) :
    ∃ t, columnType? s e name = some t := by
  rcases (e.mem_columnNames name).1 hn with ⟨f, hf, rfl⟩ | ⟨r, hr, rfl⟩
  · exact ⟨f.type, columnType?_field (hs.entities e he) hf⟩
  · obtain ⟨k, hk⟩ := hs.exists_key
      (hs.targets e.name (.single r) ⟨e, he, rfl, (e.mem_references r).1 hr⟩)
    exact ⟨k.type, columnType?_reference hs he hr hk⟩

theorem mem_columnNames {t : LogicalType} (ht : columnType? s e name = some t) :
    name ∈ e.columnNames := by
  rw [columnType?, Entity.field?] at ht
  rw [e.mem_columnNames]
  split at ht
  case h_1 f hf =>
    exact Or.inl ⟨f, List.mem_of_find?_eq_some hf, by simpa using List.find?_some hf⟩
  case h_2 =>
    split at ht
    case h_1 r hr =>
      exact Or.inr ⟨r, List.mem_of_find?_eq_some hr, by simpa using List.find?_some hr⟩
    case h_2 => cases ht

/-- The columns of an entity, read from its own table. -/
def ownColumns (s : Schema) (e : Entity) : List ColumnRef :=
  e.columnNames.map fun name => ⟨.table e.name, name, (columnType? s e name).getD .text⟩

theorem crossing_column (he : e.Sound) (hn : name ∈ e.columnNames) (hdot : '.' ∉ name.toList) :
    Path.crossing s e name = .ok none ∧ Path.chain name = [] ∧ Path.lastPart name = name := by
  have hparts : Path.parts name = [name] := by
    rw [Path.parts, Text.splitAtChar_of_notMem hdot, List.map_singleton, String.ofList_toList]
  refine ⟨?_, by rw [Path.chain, hparts]; rfl, by rw [Path.lastPart, hparts]; rfl⟩
  rw [Path.crossing, hparts]
  unfold Path.crossingFrom
  cases hr : e.relationship? name with
  | none => rfl
  | some r =>
    cases r with
    | single r => rfl
    | many l =>
      obtain ⟨hlink, hname⟩ := relationship?_mem hr
      rcases (e.mem_columnNames name).1 hn with ⟨f, hf, hfn⟩ | ⟨r, hr, hrn⟩
      · exact absurd (hfn.trans hname.symm) (he.apart hf hlink)
      · have heq := List.inj_on_of_nodup_map he.relationshipNames hlink
          ((e.mem_references r).1 hr) (hname.trans hrn.symm)
        cases heq

/-- The condition that a column of an entity holds a value, in a query. -/
def sought (e : Entity) (name : String) (t : LogicalType) (v : Value) : Sql.Condition :=
  .test (Sql.equal ⟨.table e.name, name, t⟩ v)

/-- The selection of the rows of an entity with a value in a column. -/
def lookup (s : Schema) (e : Entity) (name : String) (t : LogicalType) (v : Value) : Sql.Select where
  outputs := (ownColumns s e).map (⟨·, none⟩)
  source := { table := e.name }
  condition := some (sought e name t v)

theorem compile_lookup (hs : s.Sound) (he : e ∈ s.entities) {tables : Sql.Tables}
    (htables : Sql.Tables.ofSchema d s = .ok tables) (hn : name ∈ e.columnNames)
    (hdot : '.' ∉ name.toList) {t : LogicalType} (ht : columnType? s e name = some t) (v : Value) :
    Plan.compile
      { entity := e.name, predicate := some (.compare (.field name) .eq (.value v)) } d s =
      .ok ⟨lookup s e name t v, e.columnNames⟩ := by
  obtain ⟨hcrossing, hchain, hlast⟩ := crossing_column (s := s) (hs.entities e he) hn hdot
  have hfound : s.entity? e.name = some e := (Schema.entity?_eq_some hs.distinct _ _).2 ⟨he, rfl⟩
  have hresolve : resolve s e name = .ok ⟨.table e.name, name, t⟩ := by
    refine resolve_eq_ok.2 ⟨e, t, by rw [hchain]; rfl, by rw [hlast]; exact hn, by rw [hlast, ht], ?_⟩
    rw [hchain, hlast]
    rfl
  have htest : Leaf.literalTest ⟨.table e.name, name, t⟩ .eq v =
      .ok (Sql.equal ⟨.table e.name, name, t⟩ v) := by
    cases v <;> rfl
  have hcolumns : e.columnNames.mapM (fun path => columnOf s path e (.table e.name) path) =
      .ok (ownColumns s e) := by
    refine Outcome.mapM_of_ok fun column hcolumn => columnOf_eq_ok.2 ⟨hcolumn, ?_⟩
    obtain ⟨type, htype⟩ := exists_columnType hs he hcolumn
    exact ⟨type, htype, by rw [htype]; rfl⟩
  have hcondition : condition s e 0 (.compare (.field name) .eq (.value v)) =
      .ok (.test (Sql.equal ⟨.table e.name, name, t⟩ v), 0) := by
    have hleaf : leafCondition s e 0 name (.compare .eq (.value v)) =
        .ok (.test (Sql.equal ⟨.table e.name, name, t⟩ v), 0) := by
      refine (Outcome.bind_eq_ok _ _ _).2 ⟨none, hcrossing, ?_⟩
      exact (Outcome.bind_eq_ok _ _ _).2 ⟨_, hresolve, (Outcome.bind_eq_ok _ _ _).2 ⟨_, htest, rfl⟩⟩
    exact hleaf
  have hchains : joinedChains (Plan.chains s e
      { entity := e.name, predicate := some (.compare (.field name) .eq (.value v)) }) = [] := by
    have hfollowed : Path.followed s e name = [] := by rw [Path.followed, hcrossing, hchain]
    change joinedChains [Path.followed s e name] = []
    rw [hfollowed, joinedChains]
    simp [prefixes]
  refine (Outcome.bind_eq_ok _ _ _).2 ⟨tables, htables, ?_⟩
  dsimp only
  rw [hfound]
  refine (Outcome.bind_eq_ok _ _ _).2 ⟨ownColumns s e, hcolumns, ?_⟩
  refine (Outcome.bind_eq_ok _ _ _).2 ⟨_, rfl, ?_⟩
  refine (Outcome.bind_eq_ok _ _ _).2
    ⟨some (.test (Sql.equal ⟨.table e.name, name, t⟩ v)), ?_, ?_⟩
  · rw [Option.mapM_some, hcondition]
    rfl
  refine (Outcome.bind_eq_ok _ _ _).2 ⟨[], rfl, ?_⟩
  rw [hchains]
  refine (Outcome.bind_eq_ok _ _ _).2 ⟨[], rfl, congrArg Except.ok ?_⟩
  have houtputs : ((ownColumns s e).zip (e.columnNames.map fun _ => (none : Option String))).map
      (fun c => Sql.Output.mk c.1 c.2) = (ownColumns s e).map (⟨·, none⟩) := by
    rw [ownColumns, List.zip_map', List.map_map, List.map_map]
    rfl
  rw [lookup, ← houtputs]
  rfl

theorem mem_outputs_lookup (s : Schema) (e : Entity) (name : String) (t : LogicalType) (v : Value) :
    ∀ o ∈ (lookup s e name t v).outputs,
      o.column.source = .table e.name ∧ o.column.column ∈ e.columnNames := by
  intro o ho
  simp only [lookup, ownColumns, List.map_map, List.mem_map] at ho
  obtain ⟨column, hcolumn, rfl⟩ := ho
  exact ⟨rfl, hcolumn⟩

end Query

/-! ## Keys of entities -/

namespace Entity

variable {s : Schema} {e : Entity} {key : Field}

theorem key_mem (hk : e.key? = some key) : key ∈ e.fields ∧ key.primaryKey = true :=
  List.mem_filter.1 (List.mem_of_mem_head? hk)

theorem key_column (hk : e.key? = some key) : key.name ∈ e.columnNames :=
  (e.mem_columnNames _).2 (.inl ⟨key, (key_mem hk).1, rfl⟩)

theorem Sound.eq_key (he : e.Sound) (hk : e.key? = some key) {f : Field} (hf : f ∈ e.fields)
    (hp : f.primaryKey = true) : f = key := by
  obtain ⟨only, hkeys⟩ := he.key
  have hin : ∀ g ∈ e.fields, g.primaryKey = true → g = only := fun g hg hgp =>
    List.mem_singleton.1 (hkeys ▸ List.mem_filter.2 ⟨hg, hgp⟩)
  rw [hin f hf hp, hin key (key_mem hk).1 (key_mem hk).2]

theorem Sound.columnType_key (he : e.Sound) (hk : e.key? = some key) :
    Query.columnType? s e key.name = some key.type :=
  Query.columnType?_field he (key_mem hk).1

theorem Sound.key_comparable (he : e.Sound) (hk : e.key? = some key) : key.type ≠ .json := by
  have hcomparable := ((he.fields key (key_mem hk).1).key (key_mem hk).2).2
  intro hj
  rw [hj] at hcomparable
  cases hcomparable

theorem Sound.exists_key (he : e.Sound) : ∃ key, e.key? = some key := by
  obtain ⟨key, hkeys⟩ := he.key
  exact ⟨key, by rw [key?, hkeys]; rfl⟩

end Entity

end SchemaLedger
