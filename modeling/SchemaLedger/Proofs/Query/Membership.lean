import SchemaLedger.Proofs.Query.FromClause

set_option autoImplicit false

/-!
# Membership

A field is in a list of values, or equal to one of them. Both are compiled on any contents of a
database to conditions of one truth as long as no value is null. A null in a disjunction asks for a
field that is null; in a list it is one more literal, which equals nothing.
-/
namespace SchemaLedger.Query

open Sql (Cells ColumnRef Condition Contents Occurrence Row Truth)

variable {C : Cells} {s : Schema} {root : Entity} {path : String}

/-! ## What a leaf looks at -/

/-- A leaf that looks at its own path only. -/
def Leaf.isClosed : Leaf → Bool
  | .compare _ (.value _) => true
  | .oneOf _ => true
  | _ => false

/-- The truth of a closed leaf on a cell, whatever the rows are. -/
def Leaf.closedTruth : Leaf → LogicalType → Option C.Cell → Truth
  | .compare op (.value v) => Query.literalTest op v
  | .oneOf values => fun type cell => Sql.member C type cell values
  | _ => fun _ _ => none

theorem Leaf.eval_closed {leaf : Leaf} (h : leaf.isClosed = true) {column : ColumnRef}
    {t : Sql.Test} (ht : leaf.test s root path column = .ok t) (sc : Sql.Scope C) :
    t.eval sc = leaf.closedTruth column.type (sc.read column) := by
  have hright : ∀ op other right, leaf = .compare op (.field other) →
      rightColumn s root path column other = .ok right →
      seePath s (fun _ => []) root C.nullRow other = some (.one right.type (sc.read right)) := by
    rintro op other right rfl
    cases h
  rw [Leaf.eval_test ht hright]
  cases leaf with
  | oneOf values => rfl
  | compare op other =>
    cases other with
    | value v => rfl
    | _ => cases h

variable (db : Contents C)

/-- The rows of a join table that a scope of the query is linked by. -/
def linksOf (root : Entity) (c : Path.Crossing) (sc : Sql.Scope C) : List (Row C) :=
  (db (joinEntityName c.owner.name c.link.name)).filter fun l =>
    C.same (keyType c.owner) (l "owner") (sc.read (keyColumn c.owner (occurrence root c.chain)))

/-- What a path shows in a scope: its column, or the cells of all linked rows. -/
def look (s : Schema) (root : Entity) (path : String) (sc : Sql.Scope C) : Option (Seen C) :=
  match Path.crossing s root path with
  | .error _ => none
  | .ok none =>
    match resolve s root path with
    | .error _ => none
    | .ok column => some (.one column.type (sc.read column))
  | .ok (some c) =>
    (s.entity? c.link.target).bind fun target =>
      match c.rest with
      | [] => some (.many (keyType target) ((linksOf db root c sc).map (· "has")))
      | [name] => (columnType? s target name).map fun type =>
        .many type ((linksOf db root c sc).flatMap fun l =>
          ((db target.name).filter fun t =>
            C.same (keyType target) (l "has") (t (keyName target))).map (· name))
      | _ => none

/-- What a scope inside a link has to satisfy. -/
theorem passes_iff_of_agrees {sc sc' : Sql.Scope C} (h : Agrees root sc' sc) (e : Entity)
    (chain : List String) (link : Occurrence) (test : Sql.Test) :
    decide (Truth.combine .and [(Sql.Test.compare .eq (linkColumn e link "owner")
        (.column (keyColumn e (occurrence root chain)))).eval sc', test.eval sc'] =
      some true) = true ↔
    C.same (keyType e) (sc' link "owner") (sc.read (keyColumn e (occurrence root chain))) = true ∧
      test.eval sc' = some true := by
  rw [decide_eq_true_eq, combine_and_pair, keyColumn, ← h chain (keyName e) (keyType e), Cells.same,
    decide_eq_true_eq]
  rfl

section Linked

variable {db} {c : Path.Crossing} {leaf : Leaf} {t : Sql.Test} {target : Entity}
  (hleaf : leaf.isClosed = true) (sc : Sql.Scope C) (chain : List String) (n : Nat)

include hleaf

theorem eval_link (ht : leaf.test s root path (linkColumn target (.link chain n) "has") = .ok t) :
    (Sql.LinkedRow.mk ⟨joinEntityName c.owner.name c.link.name, .link chain n⟩ none
        (linkColumn c.owner (.link chain n) "owner") (keyColumn c.owner (occurrence root c.chain))
        t).eval db sc =
      (Seen.many (keyType target) ((linksOf db root c sc).map (· "has"))).truth
        leaf.closedTruth := by
  have hagrees : ∀ l, Agrees root (sc.put (.link chain n) l) sc := fun l =>
    Agrees.put_link (fun _ _ _ => rfl) chain n l
  have htruth : ∀ l, t.eval (sc.put (.link chain n) l) =
      leaf.closedTruth (keyType target) (l "has") := fun l =>
    (Leaf.eval_closed hleaf ht _).trans
      (congrArg (leaf.closedTruth (keyType target)) (Sql.Scope.read_put_self _ l _))
  refine congrArg some (Bool.eq_iff_iff.2 ?_)
  simp only [List.any_eq_true, Sql.scan, Sql.joinAll, Option.toList_none, List.foldl_nil,
    List.mem_map, linksOf, List.mem_filter]
  constructor
  · rintro ⟨_, ⟨l, hl, rfl⟩, hpass⟩
    obtain ⟨ho, htrue⟩ := (passes_iff_of_agrees (hagrees l) c.owner c.chain _ t).1 hpass
    refine ⟨l "has", ⟨l, ⟨hl, ?_⟩, rfl⟩, ?_⟩
    · simpa [Sql.Scope.put] using ho
    · simpa [htruth] using htrue
  · rintro ⟨_, ⟨l, ⟨hl, ho⟩, rfl⟩, htrue⟩
    refine ⟨_, ⟨l, hl, rfl⟩, (passes_iff_of_agrees (hagrees l) c.owner c.chain _ t).2 ⟨?_, ?_⟩⟩
    · simpa [Sql.Scope.put] using ho
    · simpa [htruth] using htrue

theorem eval_linked {name : String} {type : LogicalType}
    (ht : leaf.test s root path ⟨.linked chain n, name, type⟩ = .ok t) :
    (Sql.LinkedRow.mk ⟨joinEntityName c.owner.name c.link.name, .link chain n⟩
        (some ⟨⟨target.name, .linked chain n⟩, false, linkColumn target (.link chain n) "has",
          keyColumn target (.linked chain n)⟩)
        (linkColumn c.owner (.link chain n) "owner") (keyColumn c.owner (occurrence root c.chain))
        t).eval db sc =
      (Seen.many type ((linksOf db root c sc).flatMap fun l =>
        ((db target.name).filter fun t =>
          C.same (keyType target) (l "has") (t (keyName target))).map (· name))).truth
        leaf.closedTruth := by
  have hagrees : ∀ l r, Agrees root ((sc.put (.link chain n) l).put (.linked chain n) r) sc :=
    fun l r => (Agrees.put_link (fun _ _ _ => rfl) chain n l).put_linked chain n r
  have htruth : ∀ l r, t.eval ((sc.put (.link chain n) l).put (.linked chain n) r) =
      leaf.closedTruth type (r name) := fun l r => (Leaf.eval_closed hleaf ht _).trans
    (congrArg (leaf.closedTruth type) (Sql.Scope.read_put_self _ r ⟨_, name, type⟩))
  refine congrArg some (Bool.eq_iff_iff.2 ?_)
  simp only [List.any_eq_true, Sql.scan, Sql.joinAll, Option.toList_some, List.foldl_cons,
    List.foldl_nil, List.mem_flatMap, List.mem_map, linksOf, List.mem_filter,
    Sql.Join.mem_eval_inner]
  constructor
  · rintro ⟨_, ⟨_, ⟨l, hl, rfl⟩, r, hr, rfl, hon⟩, hpass⟩
    obtain ⟨ho, htrue⟩ := (passes_iff_of_agrees (hagrees l r) c.owner c.chain _ t).1 hpass
    refine ⟨r name, ⟨l, ⟨hl, ?_⟩, r, ⟨hr, ?_⟩, rfl⟩, ?_⟩
    · simpa [Sql.Scope.put] using ho
    · simpa [Sql.Test.eval, Sql.Operand.type, Sql.Operand.read, Sql.Scope.read, Sql.Scope.put,
        linkColumn, keyColumn, Cells.same] using hon
    · simpa [htruth] using htrue
  · rintro ⟨_, ⟨l, ⟨hl, ho⟩, r, ⟨hr, hon⟩, rfl⟩, htrue⟩
    refine ⟨_, ⟨_, ⟨l, hl, rfl⟩, r, hr, rfl, ?_⟩,
      (passes_iff_of_agrees (hagrees l r) c.owner c.chain _ t).2 ⟨?_, ?_⟩⟩
    · simpa [Sql.Test.eval, Sql.Operand.type, Sql.Operand.read, Sql.Scope.read, Sql.Scope.put,
        linkColumn, keyColumn, Cells.same] using hon
    · simpa [Sql.Scope.put] using ho
    · simpa [htruth] using htrue

end Linked

/-- A closed leaf is the same test of what its path shows, whatever the number of its link. -/
theorem eval_closedLeaf (leaf : Leaf) (hleaf : leaf.isClosed = true) {links n : Nat} {c : Condition}
    (h : leafCondition s root links path leaf = .ok (c, n)) (sc : Sql.Scope C) :
    ∃ seen, look db s root path sc = some seen ∧ c.eval db sc = seen.truth leaf.closedTruth := by
  obtain ⟨crossing, hcross, h⟩ := (Outcome.bind_eq_ok _ _ _).1 h
  unfold look
  rw [hcross]
  cases crossing with
  | none =>
    obtain ⟨column, hcolumn, h⟩ := (Outcome.bind_eq_ok _ _ _).1 h
    obtain ⟨t, ht, hok⟩ := (Outcome.bind_eq_ok _ _ _).1 h
    cases hok
    simp only [hcolumn]
    exact ⟨_, rfl, Leaf.eval_closed hleaf ht sc⟩
  | some crossing =>
    obtain ⟨row, hrow, hok⟩ := (Outcome.bind_eq_ok _ _ _).1 h
    cases hok
    obtain ⟨target, link, linked, t, htarget, rfl, rfl, hlink, howner, hroot, rfl, hcase⟩ :=
      linkedRow_eq_ok hrow
    obtain ⟨rlink, rtarget, rlinkOwner, rowner, rtest⟩ := row
    cases hlink
    cases howner
    cases hroot
    simp only [htarget, Option.bind_some]
    rcases hcase with ⟨hrest, rfl, ht⟩ | ⟨name, type, hrest, htype, rfl, ht⟩
    · simp only [hrest]
      exact ⟨_, rfl, eval_link hleaf sc _ _ ht⟩
    · simp only [hrest, htype, Option.map_some]
      exact ⟨_, rfl, eval_linked hleaf sc _ _ ht⟩

/-! ## One value after the other -/

namespace Seen

def type : Seen C → LogicalType
  | .one type _ => type
  | .many type _ => type

def cells : Seen C → List (Option C.Cell)
  | .one _ cell => [cell]
  | .many _ cells => cells

theorem truth_eq_true (seen : Seen C) (test : LogicalType → Option C.Cell → Truth) :
    seen.truth test = some true ↔ ∃ cell ∈ seen.cells, test seen.type cell = some true := by
  cases seen with
  | one type cell => simp [truth, cells, Seen.type]
  | many type cells => simp [truth, Seen.cells, Seen.type]

/-- One of several tests holds of what is seen if their disjunction does. -/
theorem combine_truth {α : Type} (seen : Seen C) (xs : List α)
    (test : α → LogicalType → Option C.Cell → Truth) :
    Truth.combine .or (xs.map fun x => seen.truth (test x)) =
      seen.truth fun type cell => .combine .or (xs.map fun x => test x type cell) := by
  have htrue : ∀ ts : List Truth, Truth.combine .or ts = some true ↔ some true ∈ ts :=
    fun ts => Truth.combine_eq_decided ts
  cases seen with
  | one type cell => rfl
  | many type cells =>
    refine Truth.eq_of_iff .or ?_ ?_
    · change Truth.combine .or _ = some true ↔ _ = some true
      rw [htrue]
      simp only [List.mem_map, truth_eq_true, htrue, Seen.cells, Seen.type]
      constructor
      · rintro ⟨x, hx, cell, hcell, h⟩
        exact ⟨cell, hcell, x, hx, h⟩
      · rintro ⟨cell, hcell, x, hx, h⟩
        exact ⟨x, hx, cell, hcell, h⟩
    · rw [Truth.combine_eq_none]
      simp [truth]

end Seen

/-- A field that equals one of some values. -/
def Expr.equalsOne (path : String) (vs : List Value) : Expr :=
  .or (vs.map fun v => .compare (.field path) .eq (.value v))

theorem eval_inSet {links n : Nat} {vs : List Value} {c : Condition}
    (h : condition s root links (.inSet (.field path) vs) = .ok (c, n)) (sc : Sql.Scope C) :
    ∃ seen, look db s root path sc = some seen ∧
      c.eval db sc = seen.truth fun type cell => Sql.member C type cell vs :=
  eval_closedLeaf db (.oneOf vs) rfl h sc

theorem eval_equals {links n : Nat} {op : Comparison} {v : Value} {c : Condition}
    (h : condition s root links (.compare (.field path) op (.value v)) = .ok (c, n))
    (sc : Sql.Scope C) :
    ∃ seen, look db s root path sc = some seen ∧ c.eval db sc = seen.truth (literalTest op v) :=
  eval_closedLeaf db (.compare op (.value v)) rfl h sc

theorem eval_equalsAll {vs : List Value} {links n : Nat} {cs : List Condition}
    (h : conditions s root links (vs.map fun v => .compare (.field path) .eq (.value v)) =
      .ok (cs, n)) {sc : Sql.Scope C} {seen : Seen C} (hseen : look db s root path sc = some seen) :
    cs.map (Condition.eval db sc) = vs.map fun v => seen.truth (literalTest .eq v) := by
  induction vs generalizing links cs with
  | nil =>
    cases h
    rfl
  | cons v vs ih =>
    obtain ⟨⟨c, m⟩, hc, h⟩ := (Outcome.bind_eq_ok _ _ _).1 h
    obtain ⟨⟨others, k⟩, hothers, hok⟩ := (Outcome.bind_eq_ok _ _ _).1 h
    cases hok
    -- Each comparison numbers a link of its own, but what it sees does not depend on the number.
    obtain ⟨seen', hseen', heval⟩ := eval_equals db hc sc
    obtain rfl := Option.some.inj (hseen.symm.trans hseen')
    rw [List.map_cons, List.map_cons, heval, ih hothers]

theorem eval_equalsOne {links n : Nat} {vs : List Value} (hne : vs ≠ []) {c : Condition}
    (h : condition s root links (.equalsOne path vs) = .ok (c, n)) (sc : Sql.Scope C) :
    ∃ seen, look db s root path sc = some seen ∧ c.eval db sc = seen.truth fun type cell =>
      .combine .or (vs.map fun v => literalTest .eq v type cell) := by
  obtain ⟨⟨items, m⟩, hitems, hok⟩ := (Outcome.bind_eq_ok _ _ _).1 h
  cases hok
  obtain ⟨v, rest, rfl⟩ := List.exists_cons_of_ne_nil hne
  obtain ⟨⟨first, k⟩, hfirst, -⟩ := (Outcome.bind_eq_ok _ _ _).1 hitems
  obtain ⟨seen, hseen, -⟩ := eval_equals db hfirst sc
  have hmap := eval_equalsAll db hitems hseen
  have hitem : items ≠ [] := by
    rintro rfl
    cases hmap
  refine ⟨seen, hseen, ?_⟩
  rw [Condition.eval_connect db sc .or hitem, hmap, seen.combine_truth]

/-- Without a null among the values, membership and equality have one truth, known or not. -/
theorem eval_inSet_eq {vs : List Value} (hne : vs ≠ []) (hnull : .null ∉ vs)
    {links links' n n' : Nat} {c c' : Condition}
    (h : condition s root links (.inSet (.field path) vs) = .ok (c, n))
    (h' : condition s root links' (.equalsOne path vs) = .ok (c', n')) (sc : Sql.Scope C) :
    c.eval db sc = c'.eval db sc := by
  obtain ⟨seen, hseen, heval⟩ := eval_inSet db h sc
  obtain ⟨seen', hseen', heval'⟩ := eval_equalsOne db hne h' sc
  obtain rfl := Option.some.inj (hseen.symm.trans hseen')
  rw [heval, heval']
  congr 1
  funext type cell
  refine congrArg (Truth.combine .or) (List.map_congr_left fun v hv => ?_)
  have hv' : v.isNull = false :=
    Bool.eq_false_iff.2 fun hn => hnull (Value.isNull_iff.1 hn ▸ hv)
  rw [literalTest, hv']
  rfl

/-! ## Where a list has a null -/

/-- Whether some cell that is seen equals one of some literals. -/
def Seen.HasOneOf (seen : Seen C) (vs : List Value) : Prop :=
  ∃ cell ∈ seen.cells, ∃ v ∈ vs,
    C.test .eq seen.type seen.type cell (C.literal seen.type v) = some true

section Nulls

variable {vs : List Value} {c : Condition} {links n : Nat} (sc : Sql.Scope C)

theorem eval_inSet_true (h : condition s root links (.inSet (.field path) vs) = .ok (c, n)) :
    ∃ seen, look db s root path sc = some seen ∧
      (c.eval db sc = some true ↔ seen.HasOneOf vs) := by
  obtain ⟨seen, hseen, heval⟩ := eval_inSet db h sc
  refine ⟨seen, hseen, ?_⟩
  rw [heval, seen.truth_eq_true]
  refine exists_congr fun cell => and_congr_right fun _ => ?_
  exact (Truth.combine_eq_decided (k := .or) _).trans List.mem_map

theorem eval_isNull_true (h : condition s root links (.isNull path) = .ok (c, n)) :
    ∃ seen, look db s root path sc = some seen ∧
      (c.eval db sc = some true ↔ none ∈ seen.cells) := by
  obtain ⟨seen, hseen, heval⟩ := eval_equals db h sc
  refine ⟨seen, hseen, ?_⟩
  rw [heval, seen.truth_eq_true]
  constructor
  · rintro ⟨cell, hcell, h⟩
    obtain rfl : cell = none := by simpa [literalTest, nullTest, Value.isNull] using h
    exact hcell
  · exact fun h => ⟨none, h, rfl⟩

theorem eval_equalsOne_true (hne : vs ≠ [])
    (h : condition s root links (.equalsOne path vs) = .ok (c, n)) :
    ∃ seen, look db s root path sc = some seen ∧ (c.eval db sc = some true ↔
      seen.HasOneOf (vs.filter (!·.isNull)) ∨ .null ∈ vs ∧ none ∈ seen.cells) := by
  obtain ⟨seen, hseen, heval⟩ := eval_equalsOne db hne h sc
  refine ⟨seen, hseen, ?_⟩
  have hone : ∀ cell : Option C.Cell,
      Truth.combine .or (vs.map fun v => literalTest .eq v seen.type cell) = some true ↔
        ∃ v ∈ vs, literalTest .eq v seen.type cell = some true :=
    fun cell => (Truth.combine_eq_decided (k := .or) _).trans List.mem_map
  rw [heval, seen.truth_eq_true]
  simp only [hone]
  constructor
  · rintro ⟨cell, hcell, v, hv, htrue⟩
    unfold literalTest at htrue
    split at htrue
    · next hnull =>
      obtain rfl := Value.isNull_iff.1 hnull
      obtain rfl : cell = none := by simpa [nullTest] using htrue
      exact .inr ⟨hv, hcell⟩
    · next hnull => exact .inl ⟨cell, hcell, v, List.mem_filter.2 ⟨hv, by simpa using hnull⟩, htrue⟩
  · rintro (⟨cell, hcell, v, hv, htrue⟩ | ⟨hv, hcell⟩)
    · obtain ⟨hv, hnull⟩ := List.mem_filter.1 hv
      refine ⟨cell, hcell, v, hv, ?_⟩
      rw [literalTest, if_neg (by simpa using hnull)]
      exact htrue
    · exact ⟨none, hcell, .null, hv, rfl⟩

end Nulls

theorem Seen.hasOneOf_iff (seen : Seen C) (vs : List Value) : seen.HasOneOf vs ↔
    seen.HasOneOf (vs.filter (!·.isNull)) ∨ .null ∈ vs ∧ seen.HasOneOf [.null] := by
  constructor
  · rintro ⟨cell, hcell, v, hv, h⟩
    by_cases hnull : v = .null
    · subst hnull
      exact .inr ⟨hv, cell, hcell, .null, List.mem_singleton_self _, h⟩
    · refine .inl ⟨cell, hcell, v, List.mem_filter.2 ⟨hv, ?_⟩, h⟩
      simpa using mt Value.isNull_iff.1 hnull
  · rintro (⟨cell, hcell, v, hv, h⟩ | ⟨hv, cell, hcell, w, hw, h⟩)
    · exact ⟨cell, hcell, v, (List.mem_filter.1 hv).1, h⟩
    · obtain rfl := List.mem_singleton.1 hw
      exact ⟨cell, hcell, .null, hv, h⟩

/-- A null that is stored as one is found nowhere. -/
theorem Seen.not_hasOneOf_null (seen : Seen C) (hnull : ∀ t, C.literal t .null = none) :
    ¬ seen.HasOneOf [.null] := by
  rintro ⟨cell, -, v, hv, h⟩
  obtain rfl := List.mem_singleton.1 hv
  rw [hnull] at h
  cases cell <;> cases h

/-! ## Queries -/

/-- A plan with another predicate. -/
def Plan.asking (p : Plan) (e : Expr) : Plan := { p with predicate := some e }

/-- Queries that differ in predicates over the same paths differ in their conditions only. -/
theorem select_of_asking {p : Plan} {d : Dialect} {e e' : Expr} {c c' : Compiled}
    (hpaths : ∀ q, q ∈ e.paths ↔ q ∈ e'.paths) (h : (p.asking e).compile d s = .ok c)
    (h' : (p.asking e').compile d s = .ok c') :
    ∃ root k k' n n', s.entity? p.entity = some root ∧ condition s root 0 e = .ok (k, n) ∧
      condition s root 0 e' = .ok (k', n') ∧ c.select.condition = some k ∧
      c'.select = { c.select with condition := some k' } := by
  obtain ⟨root, hroot, h⟩ := Plan.compileOver_of_compile h
  obtain ⟨root', hroot', h'⟩ := Plan.compileOver_of_compile h'
  obtain rfl : root' = root := Option.some.inj (hroot'.symm.trans hroot)
  have hchains : joinedChains ((p.asking e').chains s root') =
      joinedChains ((p.asking e).chains s root') := by
    refine joinedChains_congr fun chain _ => ?_
    simp only [Plan.chains, Plan.asking, List.mem_append, List.mem_map, Option.map_some,
      Option.getD_some, hpaths]
  obtain ⟨columns, condition?, ordering, joins, hcolumns, -, hcondition, hordering, hjoins, rfl⟩ :=
    Plan.compileOver_eq_ok h
  obtain ⟨columns', condition?', ordering', joins', hcolumns', -, hcondition', hordering', hjoins',
    rfl⟩ := Plan.compileOver_eq_ok h'
  rw [hchains] at hjoins'
  obtain rfl := Except.ok.inj (hcolumns.symm.trans hcolumns')
  obtain rfl := Except.ok.inj (hordering.symm.trans hordering')
  obtain rfl := Except.ok.inj (hjoins.symm.trans hjoins')
  rcases Plan.predicate_eq_ok hcondition with ⟨hnone, -⟩ | ⟨_, k, n, he, hk, rfl⟩
  · cases hnone
  rcases Plan.predicate_eq_ok hcondition' with ⟨hnone, -⟩ | ⟨_, k', n', he', hk', rfl⟩
  · cases hnone
  cases he
  cases he'
  exact ⟨_, k, k', n, n', hroot, hk, hk', rfl, rfl⟩

theorem mem_scopes {db : Contents C} {q : Sql.Select} {k : Condition} (h : q.condition = some k)
    {sc : Sql.Scope C} : sc ∈ q.scopes db ↔
      sc ∈ Sql.scan db .empty q.source q.joins ∧ k.eval db sc = some true := by
  rw [Sql.Select.scopes, List.mem_filter, h, Option.all_some, decide_eq_true_eq]

theorem allAccepted_equals {vs : List Value} (hne : vs ≠ []) :
    Expr.AllAccepted s root (vs.map fun v => .compare (.field path) .eq (.value v)) ↔
      Testable s root (Path.parts path) := by
  have hone : ∀ v : Value, (Expr.compare (.field path) .eq (.value v)).Accepted s root ↔
      Testable s root (Path.parts path) :=
    fun v => and_iff_left fun _ => .inl rfl
  induction vs with
  | nil => exact absurd rfl hne
  | cons v vs ih =>
    rw [List.map_cons, Expr.AllAccepted, hone]
    cases vs with
    | nil => exact and_iff_left trivial
    | cons w vs => exact (and_congr_right' (ih (List.cons_ne_nil _ _))).trans and_self_iff

theorem allTyped_equals (path : String) (vs : List Value) :
    Expr.allTyped (vs.map fun v => .compare (.field path) .eq (.value v)) = true := by
  induction vs with
  | nil => rfl
  | cons v vs ih => exact ih

theorem mem_paths_equalsOne {vs : List Value} (hne : vs ≠ []) (q : String) :
    q ∈ (Expr.equalsOne path vs).paths ↔ q = path := by
  have hall : ∀ vs : List Value, q ∈ Expr.pathsOf (vs.map fun v =>
      Expr.compare (.field path) .eq (.value v)) ↔ vs ≠ [] ∧ q = path := by
    intro vs
    induction vs with
    | nil => simp [Expr.pathsOf]
    | cons v vs ih => simp +contextual [Expr.pathsOf, Expr.paths, ih]
  exact (hall vs).trans (and_iff_right hne)

theorem accepted_asking {p : Plan} {e e' : Expr} (h : e.Accepted s root ↔ e'.Accepted s root) :
    (p.asking e).Accepted s root ↔ (p.asking e').Accepted s root := by
  have hone : ∀ e e' : Expr, (e.Accepted s root → e'.Accepted s root) →
      (p.asking e).Accepted s root → (p.asking e').Accepted s root := by
    rintro e e' himp ⟨hprojections, hjoins, hpredicate, hordering⟩
    refine ⟨hprojections, hjoins, ?_, hordering⟩
    rintro _ ⟨⟩
    exact himp (hpredicate e rfl)
  exact ⟨hone e e' h.1, hone e' e h.2⟩

/-- Whether the query of a plan has a scope among those of its rows. -/
def Plan.Selects (p : Plan) (d : Dialect) (s : Schema) (db : Contents C) (sc : Sql.Scope C) :
    Prop :=
  ∃ c, p.compile d s = .ok c ∧ sc ∈ c.select.scopes db

/-- A predicate that looks at one path, and compiles if it can be tested. -/
structure TestsOnly (s : Schema) (path : String) (e : Expr) : Prop where
  typed : e.isTyped = true
  paths : ∀ q, q ∈ e.paths ↔ q = path
  accepted : ∀ root, e.Accepted s root ↔ Testable s root (Path.parts path)

theorem testsOnly_inSet (vs : List Value) : TestsOnly s path (.inSet (.field path) vs) where
  typed := rfl
  paths _ := List.mem_singleton
  accepted root := by simp [Expr.Accepted]

theorem testsOnly_isNull : TestsOnly s path (.isNull path) where
  typed := rfl
  paths _ := by simp [Expr.isNull, Expr.paths]
  accepted _ := and_iff_left fun _ => .inl rfl

theorem testsOnly_equalsOne {vs : List Value} (hne : vs ≠ []) :
    TestsOnly s path (.equalsOne path vs) where
  typed := allTyped_equals path vs
  paths := mem_paths_equalsOne hne
  accepted _ := allAccepted_equals hne

/-- A scope that a plan asks a predicate of one path. -/
def Plan.Scans (p : Plan) (d : Dialect) (s : Schema) (path : String) (root : Entity)
    (db : Contents C) (sc : Sql.Scope C) : Prop :=
  s.entity? p.entity = some root ∧ ∃ c, (p.asking (.isNull path)).compile d s = .ok c ∧
    sc ∈ Sql.scan db .empty c.select.source c.select.joins

section Asking

variable {p : Plan} {d : Dialect} {e e' : Expr}

theorem compile_asking_iff (hs : s.Valid) (he : TestsOnly s path e) (he' : TestsOnly s path e') :
    (∃ c, (p.asking e).compile d s = .ok c) ↔ ∃ c, (p.asking e').compile d s = .ok c := by
  rw [Plan.exists_compile_iff hs (by rintro _ ⟨⟩; exact he.typed),
    Plan.exists_compile_iff hs (by rintro _ ⟨⟩; exact he'.typed)]
  exact and_congr_right fun _ => exists_congr fun root => and_congr_right fun _ =>
    accepted_asking ((he.accepted root).trans (he'.accepted root).symm)

/-- Of the scopes that all predicates of one path are asked of, each selects by its condition. -/
theorem selects_asking_iff (hs : s.Valid) (he : TestsOnly s path e) {db : Contents C}
    {sc : Sql.Scope C} {P : Seen C → Prop}
    (heval : ∀ root k n, condition s root 0 e = .ok (k, n) →
      ∃ seen, look db s root path sc = some seen ∧ (k.eval db sc = some true ↔ P seen)) :
    (p.asking e).Selects d s db sc ↔
      ∃ root seen, p.Scans d s path root db sc ∧ look db s root path sc = some seen ∧ P seen := by
  have hpaths : ∀ q, q ∈ (Expr.isNull path).paths ↔ q ∈ e.paths :=
    fun q => (testsOnly_isNull (s := s).paths q).trans (he.paths q).symm
  constructor
  · rintro ⟨c', hc', hsc⟩
    obtain ⟨c, hc⟩ := (compile_asking_iff hs he testsOnly_isNull).1 ⟨c', hc'⟩
    obtain ⟨root, _, k, _, n, hroot, -, hk, -, hselect⟩ := select_of_asking hpaths hc hc'
    rw [mem_scopes (k := k) (by rw [hselect]), hselect] at hsc
    obtain ⟨seen, hseen, htrue⟩ := heval root k n hk
    exact ⟨root, seen, ⟨hroot, c, hc, hsc.1⟩, hseen, htrue.1 hsc.2⟩
  · rintro ⟨root, seen, ⟨hroot, c, hc, hsc⟩, hseen, hP⟩
    obtain ⟨c', hc'⟩ := (compile_asking_iff hs testsOnly_isNull he).1 ⟨c, hc⟩
    obtain ⟨r, _, k, _, n, hr, -, hk, -, hselect⟩ := select_of_asking hpaths hc hc'
    obtain rfl : r = root := Option.some.inj (hr.symm.trans hroot)
    obtain ⟨seen', hseen', htrue⟩ := heval r k n hk
    obtain rfl := Option.some.inj (hseen.symm.trans hseen')
    refine ⟨c', hc', ?_⟩
    rw [mem_scopes (k := k) (by rw [hselect]), hselect]
    exact ⟨hsc, htrue.2 hP⟩

/-- What is seen in one scope of a plan falls into cases as what is seen does. -/
theorem selects_or_iff {A B : Seen C → Prop} {q : Prop} {db : Contents C} {sc : Sql.Scope C} :
    (∃ root seen, p.Scans d s path root db sc ∧ look db s root path sc = some seen ∧
        (A seen ∨ q ∧ B seen)) ↔
      (∃ root seen, p.Scans d s path root db sc ∧ look db s root path sc = some seen ∧ A seen) ∨
        q ∧ ∃ root seen, p.Scans d s path root db sc ∧ look db s root path sc = some seen ∧
          B seen := by
  constructor
  · rintro ⟨root, seen, hscan, hseen, h | ⟨hq, h⟩⟩
    · exact .inl ⟨root, seen, hscan, hseen, h⟩
    · exact .inr ⟨hq, root, seen, hscan, hseen, h⟩
  · rintro (⟨root, seen, hscan, hseen, h⟩ | ⟨hq, root, seen, hscan, hseen, h⟩)
    · exact ⟨root, seen, hscan, hseen, .inl h⟩
    · exact ⟨root, seen, hscan, hseen, .inr ⟨hq, h⟩⟩

theorem selects_inSet_iff (hs : s.Valid) (vs : List Value) {db : Contents C} {sc : Sql.Scope C} :
    (p.asking (.inSet (.field path) vs)).Selects d s db sc ↔ ∃ root seen,
      p.Scans d s path root db sc ∧ look db s root path sc = some seen ∧ seen.HasOneOf vs :=
  selects_asking_iff hs (testsOnly_inSet vs) fun _ _ _ h => eval_inSet_true db sc h

theorem selects_isNull_iff (hs : s.Valid) {db : Contents C} {sc : Sql.Scope C} :
    (p.asking (.isNull path)).Selects d s db sc ↔ ∃ root seen,
      p.Scans d s path root db sc ∧ look db s root path sc = some seen ∧ none ∈ seen.cells :=
  selects_asking_iff hs testsOnly_isNull fun _ _ _ h => eval_isNull_true db sc h

theorem selects_equalsOne_iff (hs : s.Valid) {vs : List Value} (hne : vs ≠ []) {db : Contents C}
    {sc : Sql.Scope C} : (p.asking (.equalsOne path vs)).Selects d s db sc ↔ ∃ root seen,
      p.Scans d s path root db sc ∧ look db s root path sc = some seen ∧
        (seen.HasOneOf (vs.filter (!·.isNull)) ∨ .null ∈ vs ∧ none ∈ seen.cells) :=
  selects_asking_iff hs (testsOnly_equalsOne hne) fun _ _ _ h => eval_equalsOne_true db sc hne h

/-- Without a null, both queries have the same rows in the same order. -/
theorem rows_inSet_eq {vs : List Value} (hne : vs ≠ []) (hnull : .null ∉ vs) {c c' : Compiled}
    (h : (p.asking (.inSet (.field path) vs)).compile d s = .ok c)
    (h' : (p.asking (.equalsOne path vs)).compile d s = .ok c') (db : Contents C) :
    c.select.rows db = c'.select.rows db := by
  obtain ⟨root, k, k', n, n', -, hk, hk', hcondition, hselect⟩ := select_of_asking (fun q =>
    ((testsOnly_inSet (s := s) vs).paths q).trans (mem_paths_equalsOne hne q).symm) h h'
  have htruth : ∀ sc : Sql.Scope C, k.eval db sc = k'.eval db sc :=
    fun sc => eval_inSet_eq db hne hnull hk hk' sc
  simp only [hselect, Sql.Select.rows, Sql.Select.scopes, hcondition, Option.all_some, htruth]

end Asking

/-- Membership in a list and equality with one of its values compile together, and select the same
rows of any database unless the list has a null. The values that are not null are found by both; for
a null one looks for what equals a null, which is nothing where a null is stored as one, and the
other looks for what is null. -/
theorem Plan.rows_membership (hs : s.Valid) (p : Plan) (d : Dialect) (path : String)
    {vs : List Value} (hne : vs ≠ []) :
    ((∃ c, (p.asking (.inSet (.field path) vs)).compile d s = .ok c) ↔
      ∃ c, (p.asking (.equalsOne path vs)).compile d s = .ok c) ∧
    (.null ∉ vs → ∀ c c', (p.asking (.inSet (.field path) vs)).compile d s = .ok c →
      (p.asking (.equalsOne path vs)).compile d s = .ok c' →
      ∀ (C : Cells) (db : Contents C), c.select.rows db = c'.select.rows db) ∧
    ∀ (C : Cells) (db : Contents C) (sc : Sql.Scope C),
      ((p.asking (.inSet (.field path) vs)).Selects d s db sc ↔
        (p.asking (.inSet (.field path) (vs.filter (!·.isNull)))).Selects d s db sc ∨
          .null ∈ vs ∧ (p.asking (.inSet (.field path) [.null])).Selects d s db sc) ∧
      ((p.asking (.equalsOne path vs)).Selects d s db sc ↔
        (p.asking (.inSet (.field path) (vs.filter (!·.isNull)))).Selects d s db sc ∨
          .null ∈ vs ∧ (p.asking (.isNull path)).Selects d s db sc) ∧
      ((∀ t, C.literal t .null = none) →
        ¬ (p.asking (.inSet (.field path) [.null])).Selects d s db sc) := by
  refine ⟨compile_asking_iff hs (testsOnly_inSet vs) (testsOnly_equalsOne hne),
    fun hnull c c' h h' C db => rows_inSet_eq hne hnull h h' db, fun C db sc => ⟨?_, ?_, ?_⟩⟩
  · simp only [selects_inSet_iff hs, ← selects_or_iff, ← Seen.hasOneOf_iff]
  · simp only [selects_equalsOne_iff hs hne, selects_inSet_iff hs, selects_isNull_iff hs,
      ← selects_or_iff]
  · rintro hstored hsc
    obtain ⟨_, seen, -, -, h⟩ := (selects_inSet_iff hs [.null]).1 hsc
    exact seen.not_hasOneOf_null hstored h

/-- The titles of books. -/
def titles : Plan where
  entity := "Book"
  projections := ["title"]

/-- A book without a writer is among those with no writer or the first one, but its writer is not in
the list of both. -/
theorem rows_membership_titles :
    ∃ c c', (titles.asking (.inSet (.field "writer") [.null, .int 1])).compile .sqlite library =
        .ok c ∧
      (titles.asking (.equalsOne "writer" [.null, .int 1])).compile .sqlite library = .ok c' ∧
      c.select.rows shelves = [[some (Sum.inrₗ "Notes")]] ∧
      c'.select.rows shelves = [[some (Sum.inrₗ "Notes")], [some (Sum.inrₗ "Songs")]] ∧
      ∀ sc, ¬ (titles.asking (.inSet (.field "writer") [.null])).Selects .sqlite library shelves
        sc := by
  obtain ⟨hiff, -, hselects⟩ := Plan.rows_membership (s := library) (by decide +kernel) titles
    .sqlite "writer" (List.cons_ne_nil .null [.int 1])
  obtain ⟨c, hc⟩ := Outcome.exists_ok (x := (titles.asking (.inSet (.field "writer")
    [.null, .int 1])).compile .sqlite library) (by decide +kernel)
  obtain ⟨c', hc'⟩ := hiff.1 ⟨c, hc⟩
  have hrows : ((titles.asking (.inSet (.field "writer") [.null, .int 1])).compile .sqlite
      library).toOption.map (·.select.rows shelves) = some [[some (Sum.inrₗ "Notes")]] := by
    decide +kernel
  have hrows' : ((titles.asking (.equalsOne "writer" [.null, .int 1])).compile .sqlite
      library).toOption.map (·.select.rows shelves) =
        some [[some (Sum.inrₗ "Notes")], [some (Sum.inrₗ "Songs")]] := by
    decide +kernel
  rw [hc] at hrows
  rw [hc'] at hrows'
  exact ⟨c, c', hc, hc', Option.some.inj hrows, Option.some.inj hrows',
    fun sc => (hselects plainCells shelves sc).2.2 fun _ => rfl⟩

end SchemaLedger.Query
