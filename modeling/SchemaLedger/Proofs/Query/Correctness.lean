import Mathlib.Data.Int.Order.Basic
import Mathlib.Data.String.Basic
import Mathlib.Data.Sum.Order
import Mathlib.Order.Compare
import SchemaLedger.Proofs.Query.Join
import SchemaLedger.Proofs.Query.Shape

set_option autoImplicit false

/-!
# Compiled predicates

The condition of a predicate, in the scope of a row in which its chains are joined, has the truth of
the predicate on the row. A compiled plan therefore selects the rows that the plan asks for.
-/
namespace SchemaLedger.Query

open Sql (Cells Contents Row Truth ColumnRef Condition Occurrence)

variable {C : Cells} {s : Schema} {db : Contents C} {root : Entity} {row : Row C}
  {chains : List (List String)}

/-- Whether a chain is joined, or leads to the root itself. -/
def Covered (chains : List (List String)) (chain : List String) : Prop := chain = [] ∨ chain ∈ chains

theorem seePath_of_covered (hs : s.Sound) (hroot : root ∈ s.entities) {path : String} {c : ColumnRef}
    (h : resolve s root path = .ok c) (hc : Covered chains (Path.chain path)) (row : Row C) :
    seePath s db root row path = some (.one c.type ((rowScope s db root chains row).read c)) := by
  rw [seePath_of_resolve hs hroot h]
  obtain ⟨e, t, -, -, -, rfl⟩ := resolve_eq_ok.1 h
  rw [read_rowScope hc]

/-! ## Leaves -/

namespace Leaf

/-- The truth of a leaf on a cell of its path. -/
def truth (s : Schema) (db : Contents C) (root : Entity) (row : Row C) :
    Leaf → LogicalType → Option C.Cell → Truth
  | .compare op (.field other) => pathTest s db root row op other
  | .compare op (.value v) => Query.literalTest op v
  | .compare _ _ => fun _ _ => none
  | .oneOf values => fun type cell => Sql.member C type cell values

theorem truth_congr (leaf : Leaf) {t : LogicalType} {a b : Option C.Cell}
    (h : C.same t a b = true) : leaf.truth s db root row t a = leaf.truth s db root row t b := by
  have hnull : ∀ op, nullTest op a = nullTest op b := by
    intro op
    obtain ⟨x, y, rfl, rfl, -⟩ := (Cells.same_iff t a b).1 h
    cases op <;> rfl
  cases leaf with
  | oneOf values =>
    simp only [truth, Sql.member, Cells.test_congr h]
  | compare op other =>
    cases other with
    | field other => simp only [truth, pathTest, Cells.test_congr h]
    | value v => simp only [truth, Query.literalTest, Cells.test_congr h, hnull]
    | _ => rfl

theorem eval_literalTest {column : ColumnRef} {op : Comparison} {v : Value} {t : Sql.Test}
    (h : literalTest column op v = .ok t) (sc : Sql.Scope C) :
    t.eval sc = Query.literalTest op v column.type (sc.read column) := by
  by_cases hv : v = .null
  · subst hv
    cases op with
    | eq =>
      cases h
      cases hc : sc.read column <;>
        simp [Sql.Test.eval, Query.literalTest, nullTest, Value.isNull, hc]
    | ne =>
      cases h
      cases hc : sc.read column <;>
        simp [Sql.Test.eval, Query.literalTest, nullTest, Value.isNull, hc]
    | _ => cases h
  · obtain rfl := Except.ok.inj ((literalTest_of_ne hv column op).symm.trans h)
    have hnull : v.isNull = false := Bool.eq_false_iff.2 (mt Value.isNull_iff.1 hv)
    simp [Sql.Test.eval, Query.literalTest, hnull, Sql.Operand.type, Sql.Operand.read]

/-- The test of a leaf has its truth, where a column on its right shows what its path shows. -/
theorem eval_test {path : String} {column : ColumnRef} {leaf : Leaf} {t : Sql.Test}
    (h : leaf.test s root path column = .ok t) {sc : Sql.Scope C}
    (hright : ∀ op other right, leaf = .compare op (.field other) →
      rightColumn s root path column other = .ok right →
      seePath s db root row other = some (.one right.type (sc.read right))) :
    t.eval sc = leaf.truth s db root row column.type (sc.read column) := by
  cases leaf with
  | oneOf values =>
    cases values with
    | nil =>
      cases h
      rfl
    | cons v values =>
      cases h
      rfl
  | compare op other =>
    cases other with
    | field other =>
      rw [test_field] at h
      obtain ⟨right, hr, hok⟩ := (Outcome.bind_eq_ok _ _ _).1 h
      cases hok
      rw [truth, pathTest, hright op other right rfl hr]
      rfl
    | value v => exact eval_literalTest h sc
    | _ => cases h

end Leaf

/-! ## Links -/

theorem combine_and_pair (a b : Truth) :
    Truth.combine .and [a, b] = some true ↔ a = some true ∧ b = some true := by
  rw [show some true = some Sql.Connective.and.neutral from rfl, Truth.combine_eq_neutral]
  simp

/-- A row of a join table that stands between a row of the owner and a row of the target. -/
def Between (db : Contents C) (e : Entity) (l : ManyLink) (target : Entity) (o : Option C.Cell)
    (link t : Row C) : Prop :=
  link ∈ db (joinEntityName e.name l.name) ∧ t ∈ db target.name ∧
    C.same (keyType e) (link "owner") o = true ∧
    C.same (keyType target) (link "has") (t (keyName target)) = true

theorem any_linkedRows {e : Entity} {l : ManyLink} {target : Entity} {row? : Option (Row C)}
    (test : Row C → Bool) :
    (((row?.map (linkedRows db e l target)).getD []).any test = true) ↔
      ∃ link t, Between db e l target (row?.bind (· (keyName e))) link t ∧ test t = true := by
  cases row? with
  | none =>
    simp only [Option.map_none, Option.getD_none, List.any_nil, Option.bind_none]
    constructor
    · intro h
      cases h
    · rintro ⟨link, t, ⟨-, -, h, -⟩, -⟩
      rw [Cells.same_comm] at h
      cases h
  | some row =>
    simp only [Option.map_some, Option.getD_some, Option.bind_some, List.any_eq_true, linkedRows,
      List.mem_filter, Bool.and_eq_true]
    constructor
    · rintro ⟨t, ⟨ht, link, hlink, ho, hh⟩, htest⟩
      exact ⟨link, t, ⟨hlink, ht, ho, hh⟩, htest⟩
    · rintro ⟨link, t, ⟨hlink, ht, ho, hh⟩, htest⟩
      exact ⟨t, ⟨ht, link, hlink, ho, hh⟩, htest⟩

/-- A leaf whose right side, if it is a path, crosses no many-to-many relationship and is covered. -/
def Leaf.Grounded (s : Schema) (root : Entity) (chains : List (List String)) (leaf : Leaf) : Prop :=
  ∀ op other, leaf = .compare op (.field other) →
    Path.crossing s root other = .ok none ∧ Covered chains (Path.chain other)

theorem linkedRow_eq_ok {path : String} {c : Path.Crossing} {leaf : Leaf} {n : Nat}
    {r : Sql.LinkedRow} (h : linkedRow s root path c leaf n = .ok r) :
    ∃ target link linked t, s.entity? c.link.target = some target ∧
      link = .link (c.chain ++ [c.link.name]) n ∧ linked = .linked (c.chain ++ [c.link.name]) n ∧
      r.link = ⟨joinEntityName c.owner.name c.link.name, link⟩ ∧
      r.linkOwner = linkColumn c.owner link "owner" ∧
      r.owner = keyColumn c.owner (occurrence root c.chain) ∧ r.test = t ∧
      (c.rest = [] ∧ r.target = none ∧
        leaf.test s root path (linkColumn target link "has") = .ok t ∨
      ∃ name type, c.rest = [name] ∧ columnType? s target name = some type ∧
        r.target = some ⟨⟨target.name, linked⟩, false, linkColumn target link "has",
          keyColumn target linked⟩ ∧
        leaf.test s root path ⟨linked, name, type⟩ = .ok t) := by
  obtain ⟨chain, owner, link, rest⟩ := c
  obtain ⟨target, htarget, h⟩ := (Outcome.bind_eq_ok _ _ _).1 h
  refine ⟨target, _, _, r.test, Path.target_eq_ok.1 htarget, rfl, rfl, ?_⟩
  match rest with
  | [] =>
    obtain ⟨t, ht, hok⟩ := (Outcome.bind_eq_ok _ _ _).1 h
    cases hok
    exact ⟨rfl, rfl, rfl, rfl, .inl ⟨rfl, rfl, ht⟩⟩
  | [name] =>
    dsimp only at h
    split at h
    · cases h
    · obtain ⟨column, hcolumn, h⟩ := (Outcome.bind_eq_ok _ _ _).1 h
      obtain ⟨t, ht, hok⟩ := (Outcome.bind_eq_ok _ _ _).1 h
      cases hok
      obtain ⟨-, type, htype, rfl⟩ := columnOf_eq_ok.1 hcolumn
      exact ⟨rfl, rfl, rfl, rfl, .inr ⟨name, type, rfl, htype, rfl, ht⟩⟩
  | _ :: _ :: _ => cases h

/-- Whether a scope reads the joined rows as another scope does. -/
def Agrees (root : Entity) (sc sc' : Sql.Scope C) : Prop :=
  ∀ chain name type, sc.read ⟨occurrence root chain, name, type⟩ =
    sc'.read ⟨occurrence root chain, name, type⟩

theorem Agrees.put_link {sc sc' : Sql.Scope C} (h : Agrees root sc sc') (chain : List String)
    (n : Nat) (t : Row C) : Agrees root (sc.put (.link chain n) t) sc' := by
  intro other name type
  rw [Sql.Scope.read_put_of_ne, h]
  simp only [occurrence]
  split <;> exact Occurrence.noConfusion

theorem Agrees.put_linked {sc sc' : Sql.Scope C} (h : Agrees root sc sc') (chain : List String)
    (n : Nat) (t : Row C) : Agrees root (sc.put (.linked chain n) t) sc' := by
  intro other name type
  rw [Sql.Scope.read_put_of_ne, h]
  simp only [occurrence]
  split <;> exact Occurrence.noConfusion

section Linked

variable {path : String} {c : Path.Crossing} {leaf : Leaf} {n : Nat} {r : Sql.LinkedRow}
  {sc : Sql.Scope C} (hsc : Agrees root sc (rowScope s db root chains row))

include hsc

theorem read_of_agrees {chain : List String} (hc : Covered chains chain) (name : String)
    (type : LogicalType) : sc.read ⟨occurrence root chain, name, type⟩ =
      (follow s db root (some row) chain).bind (· name) := by
  rw [hsc, read_rowScope hc]

theorem eval_linkedTest (hs : s.Sound) (hroot : root ∈ s.entities)
    (hcross : Path.crossing s root path = .ok (some c)) (hleaf : leaf.Grounded s root chains)
    {column : ColumnRef} {t : Sql.Test} (ht : leaf.test s root path column = .ok t) :
    t.eval sc = leaf.truth s db root row column.type (sc.read column) := by
  refine Leaf.eval_test ht fun op other right hop hright => ?_
  obtain ⟨hnone, hcov⟩ := hleaf op other hop
  have hne : other ≠ path := by
    rintro rfl
    rw [hnone] at hcross
    cases hcross
  rw [Leaf.rightColumn, if_neg hne] at hright
  rw [seePath_of_covered hs hroot hright hcov]
  obtain ⟨e, type, -, -, -, rfl⟩ := resolve_eq_ok.1 hright
  rw [hsc]

end Linked

/-- What a scope inside a link has to satisfy: the link belongs to the owner, and the test holds. -/
theorem passes_iff {sc : Sql.Scope C} (hsc : Agrees root sc (rowScope s db root chains row))
    {e : Entity} {chain : List String} (hc : Covered chains chain) (link : Occurrence)
    (test : Sql.Test) :
    decide (Truth.combine .and [(Sql.Test.compare .eq (linkColumn e link "owner")
      (.column (keyColumn e (occurrence root chain)))).eval sc, test.eval sc] = some true) = true ↔
    C.same (keyType e) (sc link "owner") ((follow s db root (some row) chain).bind (· (keyName e))) =
      true ∧ test.eval sc = some true := by
  rw [decide_eq_true_eq, combine_and_pair, ← read_of_agrees hsc hc (keyName e) (keyType e), Cells.same,
    decide_eq_true_eq]
  rfl

section Linked

variable {path : String} {c : Path.Crossing} {leaf : Leaf} {t : Sql.Test} {n : Nat}
  {target : Entity} (hs : s.Sound) (hroot : root ∈ s.entities)
  (hcross : Path.crossing s root path = .ok (some c)) (hc : Covered chains c.chain)
  (hleaf : leaf.Grounded s root chains)

include hs hroot hcross hc hleaf

/-- A link that passes on its own belongs to a row of the target, whose key it holds. -/
theorem any_link_iff (hdb : Satisfies s db) (htarget : s.entity? c.link.target = some target)
    {link : Occurrence} (hlink : link = .link (c.chain ++ [c.link.name]) n)
    (ht : leaf.test s root path (linkColumn target link "has") = .ok t) :
    (∃ sc ∈ Sql.scan db (rowScope s db root chains row)
        ⟨joinEntityName c.owner.name c.link.name, link⟩ [],
      decide (Truth.combine .and [(Sql.Test.compare .eq (linkColumn c.owner link "owner")
        (.column (keyColumn c.owner (occurrence root c.chain)))).eval sc, t.eval sc] = some true) =
          true) ↔
      ∃ l r, Between db c.owner c.link target
          ((follow s db root (some row) c.chain).bind (· (keyName c.owner))) l r ∧
        leaf.truth s db root row (keyType target) (r (keyName target)) = some true := by
  subst hlink
  have hself : Agrees root (rowScope s db root chains row) (rowScope s db root chains row) :=
    fun _ _ _ => rfl
  have htruth : ∀ l, t.eval ((rowScope s db root chains row).put
      (.link (c.chain ++ [c.link.name]) n) l) =
      leaf.truth s db root row (keyType target) (l "has") := by
    intro l
    rw [eval_linkedTest (hself.put_link _ n l) hs hroot hcross hleaf ht]
    exact congrArg (leaf.truth s db root row (keyType target)) (Sql.Scope.read_put_self _ l _)
  simp only [Sql.scan, Sql.joinAll, List.foldl_nil, List.mem_map]
  constructor
  · rintro ⟨_, ⟨l, hl, rfl⟩, hpass⟩
    obtain ⟨ho, htrue⟩ := (passes_iff (hself.put_link _ n l) hc _ t).1 hpass
    obtain ⟨hwalk, hmany⟩ := Path.walk_of_crossing hcross
    obtain ⟨r, hr, hsame⟩ := hdb.linked c.owner (Path.mem_of_walk hroot hwalk) c.link
      ((c.owner.mem_links c.link).2 hmany) target (List.mem_of_find?_eq_some htarget)
      (by simpa using List.find?_some htarget) l hl
    refine ⟨l, r, ⟨hl, hr, ?_, hsame⟩, ?_⟩
    · simpa [Sql.Scope.put] using ho
    · rw [← leaf.truth_congr hsame, ← htruth]
      exact htrue
  · rintro ⟨l, r, ⟨hl, hr, ho, hsame⟩, htrue⟩
    refine ⟨_, ⟨l, hl, rfl⟩, (passes_iff (hself.put_link _ n l) hc _ t).2 ⟨?_, ?_⟩⟩
    · simpa [Sql.Scope.put] using ho
    · rw [htruth, leaf.truth_congr hsame]
      exact htrue

/-- A link that passes together with the row it leads to. -/
theorem any_linked_iff {link linked : Occurrence} {name : String} {type : LogicalType}
    (hlink : link = .link (c.chain ++ [c.link.name]) n)
    (hlinked : linked = .linked (c.chain ++ [c.link.name]) n)
    (ht : leaf.test s root path ⟨linked, name, type⟩ = .ok t) :
    (∃ sc ∈ Sql.scan db (rowScope s db root chains row)
        ⟨joinEntityName c.owner.name c.link.name, link⟩
        [⟨⟨target.name, linked⟩, false, linkColumn target link "has", keyColumn target linked⟩],
      decide (Truth.combine .and [(Sql.Test.compare .eq (linkColumn c.owner link "owner")
        (.column (keyColumn c.owner (occurrence root c.chain)))).eval sc, t.eval sc] = some true) =
          true) ↔
      ∃ l r, Between db c.owner c.link target
          ((follow s db root (some row) c.chain).bind (· (keyName c.owner))) l r ∧
        leaf.truth s db root row type (r name) = some true := by
  subst hlink hlinked
  have hself : Agrees root (rowScope s db root chains row) (rowScope s db root chains row) :=
    fun _ _ _ => rfl
  have htruth : ∀ l r, t.eval (((rowScope s db root chains row).put
      (.link (c.chain ++ [c.link.name]) n) l).put (.linked (c.chain ++ [c.link.name]) n) r) =
      leaf.truth s db root row type (r name) := by
    intro l r
    rw [eval_linkedTest ((hself.put_link _ n l).put_linked _ n r) hs hroot hcross hleaf ht]
    exact congrArg (leaf.truth s db root row type) (Sql.Scope.read_put_self _ r ⟨_, name, type⟩)
  simp only [Sql.scan, Sql.joinAll, List.foldl_cons, List.foldl_nil, List.mem_flatMap, List.mem_map,
    Sql.Join.mem_eval_inner]
  constructor
  · rintro ⟨_, ⟨_, ⟨l, hl, rfl⟩, r, hr, rfl, hon⟩, hpass⟩
    obtain ⟨ho, htrue⟩ := (passes_iff ((hself.put_link _ n l).put_linked _ n r) hc _ t).1 hpass
    refine ⟨l, r, ⟨hl, hr, ?_, ?_⟩, ?_⟩
    · simpa [Sql.Scope.put] using ho
    · simpa [Sql.Test.eval, Sql.Operand.type, Sql.Operand.read, Sql.Scope.read, Sql.Scope.put,
        linkColumn, keyColumn, Cells.same] using hon
    · rw [← htruth l]
      exact htrue
  · rintro ⟨l, r, ⟨hl, hr, ho, hsame⟩, htrue⟩
    refine ⟨_, ⟨_, ⟨l, hl, rfl⟩, r, hr, rfl, ?_⟩,
      (passes_iff ((hself.put_link _ n l).put_linked _ n r) hc _ t).2 ⟨?_, ?_⟩⟩
    · simpa [Sql.Test.eval, Sql.Operand.type, Sql.Operand.read, Sql.Scope.read, Sql.Scope.put,
        linkColumn, keyColumn, Cells.same] using hsame
    · simpa [Sql.Scope.put] using ho
    · rw [htruth]
      exact htrue

/-- The row of a join table that a leaf asks for is there exactly if the leaf is true of a linked row. -/
theorem eval_linkedRow (hdb : Satisfies s db) {r : Sql.LinkedRow}
    (h : linkedRow s root path c leaf n = .ok r) :
    ∃ seen, seePath s db root row path = some seen ∧
      r.eval db (rowScope s db root chains row) = seen.truth (leaf.truth s db root row) := by
  obtain ⟨target, link, linked, t, htarget, hl, hd, hlink, hlinkOwner, howner, rfl, hcase⟩ :=
    linkedRow_eq_ok h
  have hseen : seePath s db root row path = _ := seePath_of_crossing hcross row
  rw [htarget, Option.bind_some] at hseen
  rcases hcase with ⟨hrest, hnone, ht⟩ | ⟨name, type, hrest, htype, hsome, ht⟩
  · rw [hrest, seeLinked] at hseen
    refine ⟨_, hseen, congrArg some ?_⟩
    rw [Bool.eq_iff_iff, List.any_map, any_linkedRows, List.any_eq_true, hnone, hlink, hlinkOwner,
      howner]
    simp only [Function.comp_apply, decide_eq_true_eq]
    simpa using any_link_iff hs hroot hcross hc hleaf hdb htarget hl ht
  · rw [hrest, seeLinked, htype, Option.map_some] at hseen
    refine ⟨_, hseen, congrArg some ?_⟩
    rw [Bool.eq_iff_iff, List.any_map, any_linkedRows, List.any_eq_true, hsome, hlink, hlinkOwner,
      howner]
    simpa using any_linked_iff hs hroot hcross hc hleaf hl hd ht

end Linked

/-! ## Predicates -/

theorem followed_of_crossing {path : String} {c : Path.Crossing}
    (h : Path.crossing s root path = .ok (some c)) : Path.followed s root path = c.chain := by
  rw [Path.followed, h]

theorem followed_of_none {path : String} (h : Path.crossing s root path = .ok none) :
    Path.followed s root path = Path.chain path := by
  rw [Path.followed, h]

/-- Whether a leaf compares with a path or with a literal, or asks for a member of a set. -/
def Leaf.isProper : Leaf → Bool
  | .compare _ (.field _) => true
  | .compare _ (.value _) => true
  | .compare _ _ => false
  | .oneOf _ => true

theorem Leaf.isProper_of_test {path : String} {column : ColumnRef} {leaf : Leaf} {t : Sql.Test}
    (h : leaf.test s root path column = .ok t) : leaf.isProper = true := by
  cases leaf with
  | oneOf values => rfl
  | compare op other =>
    cases other with
    | field _ => rfl
    | value _ => rfl
    | _ => cases h

theorem eval_leafCondition (hs : s.Sound) (hdb : Satisfies s db) (hroot : root ∈ s.entities)
    (row : Row C) {links n : Nat} {path : String} {leaf : Leaf} {c : Condition}
    (h : leafCondition s root links path leaf = .ok (c, n))
    (hc : Covered chains (Path.followed s root path)) (hleaf : leaf.Grounded s root chains) :
    leaf.isProper = true ∧ ∃ seen, seePath s db root row path = some seen ∧
      c.eval db (rowScope s db root chains row) = seen.truth (leaf.truth s db root row) := by
  obtain ⟨crossing, hcross, h⟩ := (Outcome.bind_eq_ok _ _ _).1 h
  cases crossing with
  | none =>
    obtain ⟨column, hcolumn, h⟩ := (Outcome.bind_eq_ok _ _ _).1 h
    obtain ⟨t, ht, hok⟩ := (Outcome.bind_eq_ok _ _ _).1 h
    cases hok
    rw [followed_of_none hcross] at hc
    refine ⟨Leaf.isProper_of_test ht, _, seePath_of_covered hs hroot hcolumn hc row, ?_⟩
    refine Leaf.eval_test ht fun op other right hop hright => ?_
    rw [Leaf.rightColumn] at hright
    split at hright
    · next heq =>
      cases hright
      rw [heq]
      exact seePath_of_covered hs hroot hcolumn hc row
    · exact seePath_of_covered hs hroot hright (hleaf op other hop).2 row
  | some crossing =>
    obtain ⟨r, hr, hok⟩ := (Outcome.bind_eq_ok _ _ _).1 h
    cases hok
    rw [followed_of_crossing hcross] at hc
    refine ⟨?_, eval_linkedRow hs hroot hcross hc hleaf hdb hr⟩
    obtain ⟨_, _, _, t, -, -, -, -, -, -, -, ⟨-, -, ht⟩ | ⟨_, _, -, -, -, ht⟩⟩ := linkedRow_eq_ok hr
    · exact Leaf.isProper_of_test ht
    · exact Leaf.isProper_of_test ht

theorem flippedTest_eq (v : Value) (op : Comparison) :
    flippedTest (C := C) v op = literalTest op.swapped v := by
  funext type cell
  unfold flippedTest literalTest
  split
  · cases op <;> rfl
  · exact (Cells.test_swapped op type type _ cell).symm

/-- Turned so that its path stands on the left, a comparison means what it means as it is written. -/
theorem comparison_of_orient {left right : Expr} {op : Comparison} {path : String} {leaf : Leaf}
    (h : orient s root left op right = .ok (path, leaf)) (hp : leaf.isProper = true) :
    comparison s db root row left op right =
      (seePath s db root row path).bind (Seen.truth (leaf.truth s db root row)) := by
  unfold orient at h
  cases left with
  | field path' =>
    cases right with
    | field other =>
      obtain ⟨crossing, -, h⟩ := (Outcome.bind_eq_ok _ _ _).1 h
      cases crossing with
      | none =>
        cases h
        rfl
      | some c => cases h
    | value v =>
      cases h
      rfl
    | _ =>
      cases h
      cases hp
  | value v =>
    cases right with
    | field other =>
      cases h
      rw [comparison, flippedTest_eq]
      rfl
    | _ => cases h
  | _ =>
    cases right with
    | field other =>
      cases h
      cases hp
    | _ => cases h

theorem mem_paths_of_orient {left right : Expr} {op : Comparison} {path : String} {leaf : Leaf}
    (h : orient s root left op right = .ok (path, leaf)) :
    path ∈ left.paths ++ right.paths ∧ ∀ op' other, leaf = .compare op' (.field other) →
      other ∈ left.paths ++ right.paths ∧ Path.crossing s root other = .ok none := by
  unfold orient at h
  cases left with
  | field path' =>
    cases right with
    | field other =>
      obtain ⟨crossing, hcross, h⟩ := (Outcome.bind_eq_ok _ _ _).1 h
      cases crossing with
      | none =>
        cases h
        refine ⟨List.mem_cons_self, ?_⟩
        rintro op' other' heq
        cases heq
        exact ⟨List.mem_cons_of_mem _ List.mem_cons_self, hcross⟩
      | some c => cases h
    | _ =>
      cases h
      exact ⟨List.mem_cons_self, fun _ _ heq => nomatch heq⟩
  | _ =>
    cases right with
    | field other =>
      cases h
      exact ⟨List.mem_append_right _ List.mem_cons_self, fun _ _ heq => nomatch heq⟩
    | _ => cases h

/-- The truth of a connective over conditions that have the truths of its operands. -/
theorem eval_connective {k : Sql.Connective} {operands : List Expr} {items : List Condition}
    (hne : operands.isEmpty = false) {sc : Sql.Scope C}
    (hitems : items.map (Condition.eval db sc) = meanings s db root row operands)
    (hlength : items.length = operands.length) :
    (Condition.connect k items).eval db sc = .combine k (meanings s db root row operands) := by
  have hitem : items ≠ [] := by
    rintro rfl
    cases operands with
    | nil => cases hne
    | cons e rest => cases hlength
  rw [Condition.eval_connect db sc k hitem, hitems]

mutual

theorem eval_condition (hs : s.Sound) (hdb : Satisfies s db) (hroot : root ∈ s.entities)
    (row : Row C) :
    ∀ (links : Nat) (e : Expr) (c : Condition) (n : Nat),
    condition s root links e = .ok (c, n) → e.filled = true →
    (∀ path ∈ e.paths, Covered chains (Path.followed s root path)) →
    c.eval db (rowScope s db root chains row) = meaning s db root row e
  | links, .and operands, c, n, h, hf, hc => by
    obtain ⟨⟨items, m⟩, hitems, hok⟩ := (Outcome.bind_eq_ok _ _ _).1 h
    cases hok
    obtain ⟨hne, hall⟩ := Bool.and_eq_true_iff.1 hf
    obtain ⟨hmap, hlength⟩ := eval_conditions hs hdb hroot row links operands items n hitems hall hc
    exact eval_connective (by simpa using hne) hmap hlength
  | links, .or operands, c, n, h, hf, hc => by
    obtain ⟨⟨items, m⟩, hitems, hok⟩ := (Outcome.bind_eq_ok _ _ _).1 h
    cases hok
    obtain ⟨hne, hall⟩ := Bool.and_eq_true_iff.1 hf
    obtain ⟨hmap, hlength⟩ := eval_conditions hs hdb hroot row links operands items n hitems hall hc
    exact eval_connective (by simpa using hne) hmap hlength
  | links, .not operand, c, n, h, hf, hc => by
    obtain ⟨⟨c, m⟩, hop, hok⟩ := (Outcome.bind_eq_ok _ _ _).1 h
    cases hok
    rw [Condition.eval_negated, eval_condition hs hdb hroot row links operand c n hop hf hc, meaning]
  | links, .compare left op right, c, n, h, _, hc => by
    obtain ⟨⟨path, leaf⟩, hleaf, hcond⟩ := (Outcome.bind_eq_ok _ _ _).1 h
    obtain ⟨hpath, hother⟩ := mem_paths_of_orient hleaf
    have hgrounded : leaf.Grounded s root chains := by
      intro op' other hop
      obtain ⟨hmem, hnone⟩ := hother op' other hop
      exact ⟨hnone, followed_of_none hnone ▸ hc other hmem⟩
    obtain ⟨hproper, seen, hseen, heval⟩ :=
      eval_leafCondition hs hdb hroot row hcond (hc path hpath) hgrounded
    rw [heval, meaning, comparison_of_orient hleaf hproper, hseen, Option.bind_some]
  | links, .inSet (.field path) values, c, n, h, _, hc => by
    have hleaf : leafCondition s root links path (.oneOf values) = .ok (c, n) := h
    obtain ⟨-, seen, hseen, heval⟩ :=
      eval_leafCondition hs hdb hroot row hleaf (hc path (List.mem_singleton_self path)) nofun
    rw [heval, meaning, hseen, Option.bind_some]
    rfl
  | _, .inSet (.value _) _, _, _, h, _, _ => nomatch h
  | _, .inSet (.bare _) _, _, _, h, _, _ => nomatch h
  | _, .inSet (.compare _ _ _) _, _, _, h, _, _ => nomatch h
  | _, .inSet (.and _) _, _, _, h, _, _ => nomatch h
  | _, .inSet (.or _) _, _, _, h, _, _ => nomatch h
  | _, .inSet (.not _) _, _, _, h, _, _ => nomatch h
  | _, .inSet (.inSet _ _) _, _, _, h, _, _ => nomatch h
  | _, .field _, _, _, h, _, _ => nomatch h
  | _, .value _, _, _, h, _, _ => nomatch h
  | _, .bare _, _, _, h, _, _ => nomatch h

theorem eval_conditions (hs : s.Sound) (hdb : Satisfies s db) (hroot : root ∈ s.entities)
    (row : Row C) :
    ∀ (links : Nat) (es : List Expr) (cs : List Condition) (n : Nat),
    conditions s root links es = .ok (cs, n) → Expr.allFilled es = true →
    (∀ path ∈ Expr.pathsOf es, Covered chains (Path.followed s root path)) →
    cs.map (Condition.eval db (rowScope s db root chains row)) = meanings s db root row es ∧
      cs.length = es.length
  | _, [], cs, n, h, _, _ => by
    cases h
    exact ⟨rfl, rfl⟩
  | links, e :: rest, cs, n, h, hf, hc => by
    obtain ⟨⟨c, m⟩, hcond, h⟩ := (Outcome.bind_eq_ok _ _ _).1 h
    obtain ⟨⟨others, k⟩, hothers, hok⟩ := (Outcome.bind_eq_ok _ _ _).1 h
    cases hok
    obtain ⟨hfe, hfrest⟩ := Bool.and_eq_true_iff.1 hf
    have hhead := eval_condition hs hdb hroot row links e c m hcond hfe
      fun path hp => hc path (List.mem_append_left _ hp)
    obtain ⟨htail, hlength⟩ := eval_conditions hs hdb hroot row m rest others n hothers hfrest
      fun path hp => hc path (List.mem_append_right _ hp)
    rw [List.map_cons, hhead, htail, List.length_cons, List.length_cons, hlength]
    exact ⟨rfl, rfl⟩

end

/-! ## Plans -/

theorem length_assign (d : Dialect) (ls : Labels) (paths : List String) :
    (Labels.assign d ls paths).length = paths.length := by
  induction paths generalizing ls with
  | nil => rfl
  | cons path rest ih => exact congrArg Nat.succ (ih (ls.next d path).2)

theorem length_labels (p : Plan) (d : Dialect) (root : Entity) :
    (p.labels d root).length = (p.outputs root).length := by
  unfold Plan.labels Plan.outputs
  split
  · exact List.length_map _
  · exact length_assign d {} _

/-- An output is read as what its path shows. -/
theorem read_outputColumn (hs : s.Sound) (hroot : root ∈ s.entities) {p : Plan} {path : String}
    {c : ColumnRef} (h : p.outputColumn s root path = .ok c)
    (hc : p.projections.isEmpty = false → Covered chains (Path.chain path)) :
    (rowScope s db root chains row).read c = p.shown s db root row path := by
  unfold Plan.outputColumn at h
  unfold Plan.shown
  split at h
  · next hp =>
    obtain ⟨-, t, -, rfl⟩ := columnOf_eq_ok.1 h
    rw [if_pos hp, Sql.Scope.read, rowScope, if_pos rfl]
  · next hp =>
    rw [if_neg hp, seePath_of_covered hs hroot h (hc (by simpa using hp)) row]

theorem reads_outputs (hs : s.Sound) (hroot : root ∈ s.entities) {p : Plan} {paths : List String}
    {columns : List ColumnRef} (h : paths.mapM (p.outputColumn s root) = .ok columns)
    (hc : p.projections.isEmpty = false → ∀ path ∈ paths, Covered chains (Path.chain path)) :
    columns.map (rowScope s db root chains row).read = paths.map (p.shown s db root row) := by
  induction paths generalizing columns with
  | nil =>
    cases h
    rfl
  | cons path rest ih =>
    obtain ⟨c, others, hpath, hothers, rfl⟩ := Outcome.mapM_cons_eq_ok.1 h
    rw [List.map_cons, List.map_cons, ih hothers fun hp q hq => hc hp q (List.mem_cons_of_mem _ hq),
      read_outputColumn hs hroot hpath fun hp => hc hp path List.mem_cons_self]

theorem length_mapM {α β : Type} {f : α → Result β} {xs : List α} {ys : List β}
    (h : xs.mapM f = .ok ys) : ys.length = xs.length := by
  induction xs generalizing ys with
  | nil =>
    cases h
    rfl
  | cons x rest ih =>
    obtain ⟨y, others, -, hothers, rfl⟩ := Outcome.mapM_cons_eq_ok.1 h
    rw [List.length_cons, List.length_cons, ih hothers]

theorem covered_of_mem {p : Plan} {chain : List String} (h : chain ∈ p.chains s root) :
    Covered (joinedChains (p.chains s root)) chain := by
  by_cases hnil : chain = []
  · exact .inl hnil
  · exact .inr (mem_joinedChains.2 ⟨chain, h, hnil, List.prefix_rfl⟩)

section Compiled

variable (hs : s.Sound) (hroot : root ∈ s.entities) (row : Row C)

include hs hroot

/-- The condition of a plan is true in the scope of a row if its predicate is true of the row. -/
theorem holds_condition (hdb : Satisfies s db) {p : Plan} {condition? : Option Condition}
    (hp : p.predicate.all Expr.filled = true)
    (h : (p.predicate.mapM fun e => condition s root 0 e >>= fun c => .ok c.1) = .ok condition?) :
    (condition?.all fun c =>
      c.eval db (rowScope s db root (joinedChains (p.chains s root)) row) = some true) =
      p.predicate.all fun e => meaning s db root row e = some true := by
  have hc : ∀ e, p.predicate = some e → ∀ path ∈ e.paths,
      Covered (joinedChains (p.chains s root)) (Path.followed s root path) := by
    intro e he path hpath
    refine covered_of_mem (List.mem_append_left _ (List.mem_append_right _
      (List.mem_map_of_mem ?_)))
    rw [he]
    exact hpath
  cases hpred : p.predicate with
  | none =>
    rw [hpred] at h
    cases h
    rfl
  | some e =>
    rw [hpred] at h hp
    obtain ⟨c, hbind, hok⟩ := (Outcome.bind_eq_ok _ _ _).1 h
    cases hok
    obtain ⟨⟨c, n⟩, hcond, hok⟩ := (Outcome.bind_eq_ok _ _ _).1 hbind
    cases hok
    have heval := eval_condition hs hdb hroot row 0 e c n hcond hp (hc e hpred)
    simp only [Option.all_some, heval]

theorem read_outputs {p : Plan} {columns : List ColumnRef} (d : Dialect)
    (h : (p.outputs root).mapM (p.outputColumn s root) = .ok columns) :
    ((columns.zip (p.labels d root)).map fun c =>
      (rowScope s db root (joinedChains (p.chains s root)) row).read c.1) =
      (p.outputs root).map (p.shown s db root row) := by
  have hlabels : columns.length ≤ (p.labels d root).length := by
    rw [length_labels, length_mapM h]
  have hc : p.projections.isEmpty = false → ∀ path ∈ p.outputs root,
      Covered (joinedChains (p.chains s root)) (Path.chain path) := by
    intro hproj path hpath
    rw [Plan.outputs, hproj] at hpath
    exact covered_of_mem (List.mem_append_left _ (List.mem_append_left _ (List.mem_append_left _
      (List.mem_map_of_mem hpath))))
  rw [← reads_outputs hs hroot h hc]
  calc
    _ = ((columns.zip (p.labels d root)).map Prod.fst).map
        (rowScope s db root (joinedChains (p.chains s root)) row).read := List.map_map.symm
    _ = _ := by rw [List.map_fst_zip hlabels]

end Compiled

/-- A compiled plan selects each row that the plan asks for, and selects it once. -/
theorem Plan.rows_compile (hs : s.Valid) {p : Plan} {d : Dialect} {c : Compiled}
    (h : p.compile d s = .ok c) (hp : p.predicate.all Expr.filled = true) (hdb : Satisfies s db) :
    ∃ root, s.entity? p.entity = some root ∧ c.select.rows db = p.answer s db root := by
  rw [Schema.valid_iff_sound] at hs
  obtain ⟨_, -, h⟩ := (Outcome.bind_eq_ok _ _ _).1 h
  split at h
  · cases h
  next root hroot =>
  refine ⟨root, hroot, ?_⟩
  have hmem : root ∈ s.entities := List.mem_of_find?_eq_some hroot
  obtain ⟨columns, hcolumns, h⟩ := (Outcome.bind_eq_ok _ _ _).1 h
  obtain ⟨_, -, h⟩ := (Outcome.bind_eq_ok _ _ _).1 h
  obtain ⟨condition?, hcond, h⟩ := (Outcome.bind_eq_ok _ _ _).1 h
  obtain ⟨ordering, -, h⟩ := (Outcome.bind_eq_ok _ _ _).1 h
  obtain ⟨joins, hjoins, hok⟩ := (Outcome.bind_eq_ok _ _ _).1 h
  cases hok
  have hscan := scan_eq_rowScopes hs hdb hmem hjoins
  rw [Sql.Select.rows, Sql.Select.scopes, hscan, List.filter_map, List.map_map, Plan.answer]
  have hfilter : (db root.name).filter ((fun sc => condition?.all fun c =>
      c.eval db sc = some true) ∘ rowScope s db root (joinedChains (p.chains s root))) =
      (db root.name).filter fun row => p.predicate.all fun e =>
        meaning s db root row e = some true :=
    List.filter_congr fun row _ => holds_condition hs hmem row hdb hp hcond
  rw [hfilter]
  refine List.map_congr_left fun row _ => ?_
  rw [← read_outputs hs hmem row d hcolumns]
  exact List.map_map

/-! ### A library -/

/-- Numbers stand before texts, and each of them in their own order. -/
abbrev Plain := Int ⊕ₗ String

/-- The cells of a database that keeps numbers and texts, and compares them whatever their columns. -/
abbrev plainCells : Cells where
  Cell := Plain
  compare _ _ a b := cmp a b
  literal
    | _, .int n => some (Sum.inlₗ n)
    | _, .text t => some (Sum.inrₗ t)
    | _, _ => none
  swap _ _ a b := cmp_swap a b
  congr _ _ a b c h := by rw [(cmp_eq_eq_iff a b).1 h]

/-- Books, some of them with a writer, and labels on them. -/
def library : Schema where
  entities := [
    { name := "Author", fields := [
        { name := "id", type := .bigint, primaryKey := true, auto := true }, { name := "name" }] },
    { name := "Tag", fields := [
        { name := "id", type := .bigint, primaryKey := true, auto := true }, { name := "label" }] },
    { name := "Book", fields := [
        { name := "id", type := .bigint, primaryKey := true, auto := true }, { name := "title" }],
      relationships := [.single { name := "writer", target := "Author", nullable := true },
        .many { name := "tags", target := "Tag" }] }]

def plainRow (cells : List (String × Plain)) : Row plainCells := fun name => Entries.get? name cells

/-- Two books, one of them anonymous and with two labels. -/
def shelves : Contents plainCells
  | "Author" => [plainRow [("id", Sum.inlₗ 1), ("name", Sum.inrₗ "Ada")]]
  | "Tag" => [plainRow [("id", Sum.inlₗ 1), ("label", Sum.inrₗ "old")],
      plainRow [("id", Sum.inlₗ 2), ("label", Sum.inrₗ "odd")]]
  | "Book" => [
      plainRow [("id", Sum.inlₗ 1), ("title", Sum.inrₗ "Notes"), ("writer", Sum.inlₗ 1)],
      plainRow [("id", Sum.inlₗ 2), ("title", Sum.inrₗ "Songs")]]
  | "Book_tags_Many" => [plainRow [("owner", Sum.inlₗ 2), ("has", Sum.inlₗ 1)],
      plainRow [("owner", Sum.inlₗ 2), ("has", Sum.inlₗ 2)]]
  | _ => []

theorem satisfies_shelves : Satisfies library shelves where
  unique := by decide +kernel
  fields := by decide +kernel
  references := by decide +kernel
  targets := by decide +kernel
  owners := by decide +kernel
  linked := by decide +kernel

/-- The titles of books with some label, or of a writer called Bob. -/
def labelled : Plan where
  entity := "Book"
  predicate := some (.or [.compare (.field "tags.label") .ge (.value (.text "a")),
    .compare (.value (.text "Bob")) .eq (.field "writer.name")])
  projections := ["title", "writer.name"]

/-- The book with two labels is there once, though no writer is known. -/
theorem rows_compile_labelled :
    ∃ c, labelled.compile .sqlite library = .ok c ∧
      c.select.rows shelves = [[some (Sum.inrₗ "Songs"), none]] := by
  obtain ⟨c, hc⟩ := Outcome.exists_ok (x := labelled.compile .sqlite library) (by decide +kernel)
  obtain ⟨root, hroot, hrows⟩ := Plan.rows_compile (by decide +kernel) hc (by decide +kernel)
    satisfies_shelves
  refine ⟨c, hc, hrows.trans ?_⟩
  obtain rfl := Option.some.inj (hroot.symm.trans (rfl : library.entity? "Book" = some _))
  decide +kernel

end SchemaLedger.Query
