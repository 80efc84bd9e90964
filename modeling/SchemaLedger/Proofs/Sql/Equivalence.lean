import SchemaLedger.Proofs.Migration.Likeness
import SchemaLedger.Proofs.Sql.Layout
import SchemaLedger.Proofs.Sql.Literal
import SchemaLedger.Sql.Ddl

set_option autoImplicit false

/-!
# Tables of equivalent schemas

Equivalent schemas have the same tables, up to the order of columns and constraints and to defaults.
A default is a number, a truth value or a document of its column's type on both sides, and the two
are equal as values. Outside of documents this means that they are rendered to literals of one value.
Inside a document a truth value equals a number, and the literals are of one value exactly if no truth
value stands where the other document has a number.
-/
namespace SchemaLedger

open Outcome (Both)

variable {a b : Schema} {e e' : Entity} {d : Dialect}

/-- Whether the defaults of a column in two entities agree. -/
def Entity.DefaultsAgree (e e' : Entity) (column : String) : Prop :=
  ∀ f ∈ e.fields, ∀ g ∈ e'.fields, f.name = column → g.name = column →
    f.default.agrees g.default = true

namespace Schema

/-- Entities of one name have keys that are equal but for defaults. -/
theorem Matches.key (h : Matches a b) {n : String} {k : Field} (hk : a.Key n k) :
    ∃ l, b.Key n l ∧ k.bare = l.bare := by
  obtain ⟨l, hl, hsame⟩ := h.field n k hk.1
  have hbare := Field.bare_of_same hsame
  have hkey := congrArg Field.primaryKey hbare
  simp only [Field.bare] at hkey
  exact ⟨l, ⟨hl, hkey ▸ hk.2⟩, hbare⟩

end Schema

namespace Sql

/-- A column but for its default. -/
def Column.bare (c : Column) : Column := { c with default := none }

/-- Columns that are equal but for defaults, with what is known about these. -/
structure Column.Counterpart (d : Dialect) (agree : Prop) (c c' : Column) : Prop where
  bare : c.bare = c'.bare
  default : Option.Rel (Kindred d c.type agree) c.default c'.default

/-- Tables that are the same up to order and defaults. -/
structure Table.Counterpart (d : Dialect) (agree : String → Prop) (t t' : Table) : Prop where
  name : t.name = t'.name
  columns : Paired (fun c c' => c.Counterpart d (agree c.name) c') t.columns t'.columns
  primaryKey : t.primaryKey = t'.primaryKey
  uniques : t.uniques.Perm t'.uniques
  foreignKeys : t.foreignKeys.Perm t'.foreignKeys

theorem Column.Counterpart.name {agree : Prop} {c c' : Column} (h : c.Counterpart d agree c') :
    c.name = c'.name := by
  have hname := congrArg Column.name h.bare
  exact hname

theorem Table.Counterpart.columnNames {agree : String → Prop} {t t' : Table}
    (h : t.Counterpart d agree t') : t.columnNames.Perm t'.columnNames :=
  (h.columns.map (S := (· = ·)) fun _ _ hc => hc.name).perm

namespace Table

theorem fieldColumn_of_counterpart (ha : a.Sound) (hb : b.Sound) (he : e ∈ a.entities)
    (he' : e' ∈ b.entities)
    (hwa : ∀ f ∈ e.fields, f.default.wellFormed = true)
    (hwb : ∀ g ∈ e'.fields, g.default.wellFormed = true)
    {f g : Field} (hf : f ∈ e.fields) (hg : g ∈ e'.fields) (h : f.same g = true) :
    Both (fun c c' => c.Counterpart d (e.DefaultsAgree e' c.name) c') (fieldColumn d f)
      (fieldColumn d g) := by
  have hsound := (ha.entities e he).fields f hf
  have hsound' := (hb.entities e' he').fields g hg
  have hbare := Field.bare_of_same h
  simp only [Field.bare, Field.mk.injEq, true_and] at hbare
  obtain ⟨hname, htype, hnullable, -, hauto, -⟩ := hbare
  have hagree : f.default.agrees g.default = true ↔ e.DefaultsAgree e' f.name := by
    constructor
    · intro h f' hf' g' hg' hfn hgn
      rwa [Entity.field_eq_of_name_eq (ha.entities e he).fieldNames hf' hf hfn,
        Entity.field_eq_of_name_eq (hb.entities e' he').fieldNames hg' hg (hgn.trans hname)]
    · exact fun h => h f hf g hg rfl hname.symm
  refine (defaultLiteral_same d hsound hsound' (hwa f hf) (hwb g hg) h).bind
    fun default default' _ _ hdefault => ?_
  rw [hagree] at hdefault
  exact ⟨by simp [Column.bare, hname, htype, hnullable, hauto], hdefault⟩

section OfEntity

variable (ha : a.Sound) (hb : b.Sound) (hm : Schema.Matches a b)

include ha hb hm

theorem targetKey_of_matches {n : String} (hn : a.Declares (.entity n)) :
    ∃ k l, targetKey a n = .ok k ∧ targetKey b n = .ok l ∧ k.bare = l.bare := by
  obtain ⟨k, hk⟩ := ha.exists_key hn
  obtain ⟨l, hl, hbare⟩ := hm.key hk
  exact ⟨k, l, (targetKey_eq_ok ha n k).2 hk, (targetKey_eq_ok hb n l).2 hl, hbare⟩

/-- What is made of a key, its default apart, is the same in both schemas. -/
theorem targetKey_bind {γ : Type} {n : String} (hn : a.Declares (.entity n))
    {use : Field → Result γ} (huse : ∀ k, use k.bare = use k) :
    targetKey a n >>= use = targetKey b n >>= use := by
  obtain ⟨k, l, hk, hl, hbare⟩ := targetKey_of_matches ha hb hm hn
  rw [hk, hl]
  exact (huse k).symm.trans ((congrArg use hbare).trans (huse l))

theorem referenceColumn_of_matches {r : Reference} (hr : a.Declares (.entity r.target)) :
    referenceColumn a r = referenceColumn b r :=
  targetKey_bind ha hb hm hr fun _ => rfl

theorem ofEntity_of_counterpart (he : e ∈ a.entities) (he' : e' ∈ b.entities)
    (hwa : ∀ f ∈ e.fields, f.default.wellFormed = true)
    (hwb : ∀ g ∈ e'.fields, g.default.wellFormed = true) (h : e.Counterpart e') :
    Both (fun t t' => t.Counterpart d (e.DefaultsAgree e') t') (ofEntity d a e.name e)
      (ofEntity d b e'.name e') := by
  have hreferences : e.references.Perm e'.references := h.relationships.filterMap _
  have htarget : ∀ r ∈ e.references, a.Declares (.entity r.target) := fun r hr =>
    ha.targets e.name (.single r)
      (Schema.declares_relationship_of_mem he ((e.mem_references r).1 hr))
  have hpairs := (Paired.of_perm hreferences).mono
    (T := fun r r' => r = r' ∧ a.Declares (.entity r.target))
    fun r hr _ _ heq => ⟨heq, htarget r hr⟩
  have hfields := h.fields.mono (T := fun f g => f ∈ e.fields ∧ g ∈ e'.fields ∧ f.same g = true)
    fun f hf g hg hsame => ⟨hf, hg, hsame⟩
  have hnames : e.columnNames.Perm e'.columnNames := by
    refine List.Perm.append ?_ (hreferences.map _)
    exact (h.fields.map (S := (· = ·)) fun f g hfg =>
      Field.name_of_bare (Field.bare_of_same hfg)).perm
  refine (Both.mapM hfields fun f g ⟨hf, hg, hsame⟩ =>
    fieldColumn_of_counterpart ha hb he he' hwa hwb hf hg hsame).bind
      fun fields fields' _ _ hcolumns => ?_
  refine (Both.mapM hpairs fun r _ ⟨heq, hr⟩ => ?_).bind
    (R := Paired fun c c' => c = c' ∧ c.default = none) fun references references' _ _ hrefs => ?_
  · subst heq
    rw [← referenceColumn_of_matches ha hb hm hr]
    refine Both.refl _ fun c hc => ⟨rfl, ?_⟩
    obtain ⟨k, -, rfl⟩ := (referenceColumn_eq_ok ha r c).1 hc
    rfl
  refine (Both.mapM hpairs fun r _ ⟨heq, hr⟩ => ?_).bind
    (R := Paired (· = ·)) fun keys keys' _ _ hkeys => ?_
  · subst heq
    rw [← targetKey_bind ha hb hm hr fun _ => rfl]
    exact Both.refl _ fun _ _ => rfl
  have hany : (e.columnNames.any fun c => c = "") = e'.columnNames.any fun c => c = "" := by
    rw [Bool.eq_iff_iff, List.any_eq_true, List.any_eq_true]
    simp only [hnames.mem_iff]
  rw [← hany]
  split
  · trivial
  · refine ⟨h.name, hcolumns.append (hrefs.mono ?_), ?_, ?_, hkeys.perm⟩
    · rintro c - _ - ⟨rfl, hnone⟩
      exact ⟨rfl, hnone ▸ .none⟩
    · obtain ⟨k, hk⟩ := (ha.entities e he).key
      obtain ⟨l, hl⟩ := (hb.entities e' he').key
      have hkeys := h.fields.filter (p := (·.primaryKey)) (q := (·.primaryKey)) fun f g hfg => by
        have hkey := congrArg Field.primaryKey (Field.bare_of_same hfg)
        exact hkey
      have hperm := (hkeys.map (S := (· = ·)) (f := (·.name)) (g := (·.name)) fun f g hfg =>
        Field.name_of_bare (Field.bare_of_same hfg)).perm
      change (e.keys.map (·.name)).Perm (e'.keys.map (·.name)) at hperm
      rw [hk, hl] at hperm ⊢
      exact List.perm_singleton.1 hperm
    · refine ((h.fields.filter fun f g hfg => ?_).map (S := (· = ·)) fun f g hfg => ?_).perm
      · have hunique := congrArg Field.unique (Field.bare_of_same hfg)
        have hkey := congrArg Field.primaryKey (Field.bare_of_same hfg)
        simp only [Field.bare] at hunique hkey
        rw [hunique, hkey]
      · rw [h.name, Field.name_of_bare (Field.bare_of_same hfg)]

theorem ofLink_of_counterpart {l : ManyLink} (h : e.name = e'.name)
    (he : a.Declares (.entity e.name)) (hl : a.Declares (.entity l.target)) :
    ofLink a e l = ofLink b e' l := by
  obtain ⟨k, k', hk, hk', hkey⟩ := targetKey_of_matches ha hb hm he
  obtain ⟨m, m', hm, hm', hmey⟩ := targetKey_of_matches ha hb hm hl
  simp only [Field.bare, Field.mk.injEq, true_and] at hkey hmey
  rw [ofLink, ofLink, ← h, hk, hk', hm, hm']
  simp [bind, Except.bind, hkey.1, hkey.2.1, hmey.1, hmey.2.1]

end OfEntity

end Table

theorem ofSchema_of_equivalent (ha : a.Sound) (hb : b.Sound) (hwa : a.WellFormed)
    (hwb : b.WellFormed) (h : a.equivalent b = true) :
    Both (Paired fun t t' => ∃ agree, t.Counterpart d agree t') (Tables.ofSchema d a)
      (Tables.ofSchema d b) := by
  have hm := Schema.matches_of_equivalent ha hb h
  have hpairs := (Schema.entities_of_equivalent ha hb h).mono
    (T := fun e e' => e ∈ a.entities ∧ e' ∈ b.entities ∧ e.Counterpart e')
    fun e he e' he' hee => ⟨he, he', hee⟩
  refine (Both.mapM hpairs fun e e' ⟨he, he', hee⟩ =>
    (Table.ofEntity_of_counterpart ha hb hm he he' (hwa e he) (hwb e' he') hee).mono
      (T := fun t t' => ∃ agree, t.Counterpart d agree t') fun t t' ht => ⟨_, ht⟩).bind
        fun entities entities' _ _ hentities => ?_
  have hlinks : Paired (fun p q : Entity × ManyLink => Table.ofLink a p.1 p.2 = Table.ofLink b q.1 q.2)
      (a.entities.flatMap fun e => e.links.map (e, ·))
      (b.entities.flatMap fun e => e.links.map (e, ·)) := by
    refine hpairs.flatMap fun e e' ⟨he, _, hee⟩ => ?_
    have hperm : e.links.Perm e'.links := hee.relationships.filterMap _
    refine ((Paired.of_perm hperm).mono (T := fun l l' => l = l' ∧ l ∈ e.links)
      fun l hl _ _ heq => ⟨heq, hl⟩).map ?_
    rintro l _ ⟨rfl, hl⟩
    have hrel := Schema.declares_relationship_of_mem he ((e.mem_links l).1 hl)
    exact Table.ofLink_of_counterpart ha hb hm hee.name (Schema.declares_of_mem he)
      (ha.targets e.name _ hrel)
  refine (Both.mapM hlinks fun p q hpq => ?_).bind
    (R := Paired fun t t' => ∃ agree, t.Counterpart d agree t') fun joins joins' _ _ hjoins => ?_
  · change Both _ (Table.ofLink a p.1 p.2) (Table.ofLink b q.1 q.2)
    rw [← hpq]
    refine Both.refl _ fun t ht => ⟨fun _ => True, ?_⟩
    obtain ⟨k, m, -, -, rfl⟩ := (Table.ofLink_eq_ok ha p.1 p.2 t).1 ht
    refine ⟨rfl, (Paired.of_perm (.refl _)).mono ?_, rfl, .refl _, .refl _⟩
    rintro c hc _ - rfl
    simp only [Table.linking, List.mem_cons, List.not_mem_nil, or_false] at hc
    rcases hc with rfl | rfl <;> exact ⟨rfl, .none⟩
  · exact hentities.append hjoins

/-! ## Text -/

/-- CREATE TABLE with given constraints. -/
def creation (d : Dialect) (t : Table) (constraints : List String) : String :=
  let body := ", \n\t".intercalate (t.columns.map (·.definition d) ++ constraints)
  s!"CREATE TABLE {quote d t.name} (\n\t{body}\n)"

theorem resolve_of_paired {ts ts' : Tables}
    (h : Paired (fun t t' => ∃ agree, t.Counterpart d agree t') ts ts')
    (hd : (ts.map (·.name)).Nodup) (k : ForeignKey) :
    Both (· = ·) (ts.resolve k) (ts'.resolve k) := by
  rcases hsplit : Tables.splitTarget s!"{k.table}.{k.targetColumn}" with ⟨table, column⟩
  have hfind := h.find? Table.name (fun t t' ⟨_, ht⟩ => ht.name) hd table
  rw [Tables.resolve, Tables.resolve, hsplit]
  simp only [Tables.find?]
  revert hfind
  generalize List.find? _ ts = found
  generalize List.find? _ ts' = found'
  rintro (⟨agree, ht⟩ | -)
  · simp only [ht.columnNames.mem_iff]
    exact Both.refl _ fun _ _ => rfl
  · trivial

theorem createTable_of_counterpart {ts ts' : Tables} {t t' : Table} {agree : String → Prop}
    (h : Paired (fun t t' => ∃ agree, t.Counterpart d agree t') ts ts')
    (hd : (ts.map (·.name)).Nodup) (ht : t.Counterpart d agree t') :
    Both (fun text text' => ∃ constraints constraints' : List String,
        constraints.Perm constraints' ∧ text = creation d t constraints ∧
          text' = creation d t' constraints')
      (createTable d ts t) (createTable d ts' t') := by
  refine (Both.mapM_perm ht.uniques).bind fun uniques uniques' _ _ huniques => ?_
  refine (Both.mapM (Paired.of_perm ht.foreignKeys) fun k _ heq => ?_).bind
    (R := Paired (· = ·)) fun keys keys' _ _ hkeys => ?_
  · subst heq
    exact resolve_of_paired h hd k
  · let key := s!"PRIMARY KEY ({columnList d t.primaryKey})"
    refine ⟨[key] ++ uniques ++ keys.map (·.definition d),
      [key] ++ uniques' ++ keys'.map (·.definition d), ?_, ?_, ?_⟩
    · exact ((List.Perm.refl _).append huniques).append (hkeys.perm.map _)
    · simp only [creation, List.append_assoc, key]
    · simp only [creation, List.append_assoc, key, ht.primaryKey]

theorem tableOf_of_mem {ts : Tables} (hd : (ts.map (·.name)).Nodup) {t : Table} (ht : t ∈ ts) :
    Ddl.tableOf ts t.name = .ok (.createTable ts t) := by
  rw [Ddl.tableOf, Tables.find?, (Keyed.find?_eq_some hd t.name t).2 ⟨ht, rfl⟩]

/-- Equivalent schemas have no difference, and on both databases CREATE TABLE of an entity has the
same columns and constraints in both, up to their order. Its defaults are literals of one value exactly
if the declared defaults agree, and those of other types than documents always are. -/
theorem createTable_of_equivalent (ha : a.Valid) (hb : b.Valid) (hwa : a.WellFormed)
    (hwb : b.WellFormed) (h : a.equivalent b = true) :
    diff a b = .ok [] ∧ (∀ n, a.Declares (.entity n) ↔ b.Declares (.entity n)) ∧
      ∀ d, Both
        (fun ts ts' => ∀ n, a.Declares (.entity n) →
          ∃ e ∈ a.entities, ∃ e' ∈ b.entities, ∃ t t', e.name = n ∧ e'.name = n ∧
            Ddl.tableOf ts n = .ok (.createTable ts t) ∧
            Ddl.tableOf ts' n = .ok (.createTable ts' t') ∧
            t.Counterpart d (e.DefaultsAgree e') t' ∧
            Both (fun text text' => ∃ constraints constraints' : List String,
                constraints.Perm constraints' ∧ text = creation d t constraints ∧
                  text' = creation d t' constraints')
              (createTable d ts t) (createTable d ts' t'))
        (Tables.ofSchema d a) (Tables.ofSchema d b) := by
  rw [Schema.valid_iff_sound] at ha hb
  have hm := Schema.matches_of_equivalent ha hb h
  refine ⟨hm.diff_eq_nil ha hb, hm.entity, fun d => ?_⟩
  have htables := ofSchema_of_equivalent (d := d) ha hb hwa hwb h
  cases hts : Tables.ofSchema d a with
  | error fault =>
    rw [hts] at htables
    cases hts' : Tables.ofSchema d b with
    | error _ => trivial
    | ok ts' =>
      rw [hts'] at htables
      cases htables
  | ok ts =>
    obtain ⟨ts', hts', hpaired⟩ := htables.exists_ok hts
    rw [hts']
    rintro n ⟨e, he, rfl⟩
    obtain ⟨e', he', hee⟩ := (Schema.entities_of_equivalent ha hb h).exists_right he
    obtain ⟨⟨t, ht, hte⟩, -⟩ := exists_table hts he
    obtain ⟨⟨t', ht', hte'⟩, -⟩ := exists_table hts' he'
    obtain ⟨u, hu, hcounterpart⟩ :=
      (Table.ofEntity_of_counterpart ha hb hm he he' (hwa e he) (hwb e' he') hee).exists_ok hte
    obtain rfl : t' = u := Except.ok.inj (hte'.symm.trans hu)
    have hname := (Table.ofEntity_of_eq_ok ha hte).name
    have hname' := hcounterpart.name.symm.trans hname
    have hdistinct := nodup_tableNames ha hts
    refine ⟨e, he, e', he', t, t', rfl, hee.name.symm, ?_, ?_, hcounterpart,
      createTable_of_counterpart hpaired hdistinct hcounterpart⟩
    · exact hname ▸ tableOf_of_mem hdistinct ht
    · exact hname' ▸ tableOf_of_mem (nodup_tableNames hb hts') ht'

/-- The posts of a schema, with defaults for two columns. -/
def posts (rate flags : Value) : Schema where
  entities := [{ name := "Post", fields := [
    { name := "id", type := .bigint, primaryKey := true, auto := true },
    { name := "rate", type := .real, default := rate },
    { name := "flags", type := .json, default := flags }] }]

/-- Posts whose flags are a truth value, and posts whose flags are a number. -/
def truePosts : Schema := posts (.float (.finite true .zero)) (.list [.bool true])

def onePosts : Schema := posts (.int 0) (.list [.int 1])

/-- Both zeros are one number, but the literals of the flags are of different values. -/
theorem createTable_of_equivalent_flags :
    truePosts.Valid ∧ onePosts.Valid ∧ truePosts.WellFormed ∧ onePosts.WellFormed ∧
      truePosts.equivalent onePosts = true ∧ diff truePosts onePosts = .ok [] ∧
      ∀ d, ∃ ts ts', Tables.ofSchema d truePosts = .ok ts ∧ Tables.ofSchema d onePosts = .ok ts' ∧
        ∃ e ∈ truePosts.entities, ∃ e' ∈ onePosts.entities, ∃ t t',
          Ddl.tableOf ts "Post" = .ok (.createTable ts t) ∧
          Ddl.tableOf ts' "Post" = .ok (.createTable ts' t') ∧
          t.Counterpart d (e.DefaultsAgree e') t' ∧ e.DefaultsAgree e' "rate" ∧
          ¬ e.DefaultsAgree e' "flags" ∧
          ¬ DenoteSame .json (jsonLiteral d "[true]") (jsonLiteral d "[1]") := by
  have ha : truePosts.Valid := by decide +kernel
  have hb : onePosts.Valid := by decide +kernel
  have hwa : truePosts.WellFormed := by decide
  have hwb : onePosts.WellFormed := by decide
  have h : truePosts.equivalent onePosts = true := by decide
  obtain ⟨hdiff, -, hall⟩ := createTable_of_equivalent ha hb hwa hwb h
  refine ⟨ha, hb, hwa, hwb, h, hdiff, fun d => ?_⟩
  obtain ⟨ts, hts⟩ := Outcome.exists_ok (x := Tables.ofSchema d truePosts) (by
    cases d <;> decide +kernel)
  obtain ⟨ts', hts', htables⟩ := (hall d).exists_ok hts
  obtain ⟨e, he, e', he', t, t', -, -, ht, ht', hcounterpart, -⟩ :=
    htables "Post" ⟨_, List.mem_cons_self, rfl⟩
  obtain rfl := List.mem_singleton.1 he
  obtain rfl := List.mem_singleton.1 he'
  refine ⟨ts, ts', hts, hts', _, he, _, he', t, t', ht, ht', hcounterpart, ?_, ?_, ?_⟩
  · unfold Entity.DefaultsAgree
    decide
  · unfold Entity.DefaultsAgree
    decide
  · have hdenote := jsonLiteral_same d (v := .list [.bool true]) (w := .list [.int 1])
      rfl rfl rfl rfl rfl
    rw [show Json.render .sorted (.list [.bool true]) = "[true]" by decide +kernel,
      show Json.render .sorted (.list [.int 1]) = "[1]" by decide +kernel] at hdenote
    exact fun h => absurd (hdenote.1 h) (by decide)

end Sql

end SchemaLedger
