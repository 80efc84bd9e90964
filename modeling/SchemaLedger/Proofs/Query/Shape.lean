import SchemaLedger.Proofs.Outcome
import SchemaLedger.Proofs.Query.Literals
import SchemaLedger.Proofs.Sql.Rendering

set_option autoImplicit false

/-!
# Literals and conditions

Compiling a plan under other literals gives the same selection under other values, or fails where it
failed before. The values of the selection are literals of the plan in their order.
-/
namespace SchemaLedger.Query

open Outcome (Follows)
open Sql (ColumnRef Condition)

variable {f : Value → Value} {s : Schema} {root : Entity}

/-! ## Predicates -/

namespace Leaf

def mapLiterals (f : Value → Value) : Leaf → Leaf
  | .compare op other => .compare op (other.mapLiterals f)
  | .oneOf values => .oneOf (values.map f)

def literals : Leaf → List Value
  | .compare _ other => other.literals
  | .oneOf values => values

theorem literalTest_of_ne {v : Value} (h : v ≠ .null) (column : ColumnRef) (op : Comparison) :
    literalTest column op v = .ok (.compare op column (.literal column.type v)) := by
  cases v with
  | null => exact absurd rfl h
  | _ => rfl

theorem literalTest_follows (hf : KeepsNull f) (column : ColumnRef) (op : Comparison) (v : Value) :
    Follows (Sql.Test.mapValues f) (literalTest column op v) (literalTest column op (f v)) := by
  by_cases hv : v = .null
  · subst hv
    rw [(hf .null).2 rfl]
    cases op <;> trivial
  · rw [literalTest_of_ne hv, literalTest_of_ne (mt (hf v).1 hv)]
    rfl

/-- The column on the right of a comparison of two paths. -/
def rightColumn (s : Schema) (root : Entity) (path : String) (column : ColumnRef) (other : String) :
    Result ColumnRef :=
  if other = path then .ok column else resolve s root other

theorem test_field (path : String) (column : ColumnRef) (op : Comparison) (other : String) :
    (Leaf.compare op (.field other)).test s root path column =
      rightColumn s root path column other >>= fun right =>
        .ok (.compare op column (.column right)) := by
  rw [test, rightColumn]
  split <;> rfl

theorem test_follows (hf : KeepsNull f) (path : String) (column : ColumnRef) (leaf : Leaf) :
    Follows (Sql.Test.mapValues f) (leaf.test s root path column)
      ((leaf.mapLiterals f).test s root path column) := by
  cases leaf with
  | oneOf values =>
    cases values with
    | nil => exact rfl
    | cons v values => exact rfl
  | compare op other =>
    cases other with
    | field other =>
      rw [mapLiterals, Expr.mapLiterals, test_field]
      exact .bind_same fun right => rfl
    | value v => exact literalTest_follows hf column op v
    | _ => trivial

theorem values_test {path : String} {column : ColumnRef} {leaf : Leaf} {t : Sql.Test}
    (h : leaf.test s root path column = .ok t) : t.values = leaf.literals := by
  cases leaf with
  | oneOf values =>
    cases values with
    | nil =>
      cases h
      rfl
    | cons v values =>
      cases h
      rfl
  | compare op other =>
    cases other with
    | field other =>
      rw [test_field] at h
      obtain ⟨right, -, hok⟩ := (Outcome.bind_eq_ok _ _ _).1 h
      cases hok
      rfl
    | value v =>
      by_cases hv : v = .null
      · subst hv
        cases op <;> cases h <;> rfl
      · obtain rfl := Except.ok.inj ((literalTest_of_ne hv column op).symm.trans h)
        exact (Expr.literals_value hv).symm
    | _ => cases h

/-- Whether the leaf asks for a member of a set without members. -/
def isEmptySet : Leaf → Bool
  | .oneOf values => values.isEmpty
  | .compare _ _ => false

theorem isConstant_test {path : String} {column : ColumnRef} {leaf : Leaf} {t : Sql.Test}
    (h : leaf.test s root path column = .ok t) (he : leaf.isEmptySet = false) :
    (Condition.test t).isConstant = false := by
  cases leaf with
  | oneOf values =>
    cases values with
    | nil => cases he
    | cons v values =>
      cases h
      rfl
  | compare op other =>
    cases other with
    | field other =>
      rw [test_field] at h
      obtain ⟨right, -, hok⟩ := (Outcome.bind_eq_ok _ _ _).1 h
      cases hok
      rfl
    | value v =>
      by_cases hv : v = .null
      · subst hv
        cases op <;> cases h <;> rfl
      · obtain rfl := Except.ok.inj ((literalTest_of_ne hv column op).symm.trans h)
        rfl
    | _ => cases h

end Leaf

theorem linkedRow_follows (hf : KeepsNull f) (path : String) (c : Path.Crossing) (leaf : Leaf)
    (n : Nat) :
    Follows (Sql.LinkedRow.mapValues f) (linkedRow s root path c leaf n)
      (linkedRow s root path c (leaf.mapLiterals f) n) := by
  obtain ⟨chain, owner, link, rest⟩ := c
  refine .bind_same fun target => ?_
  match rest with
  | [] => exact (leaf.test_follows hf path _).bind fun t => rfl
  | [name] =>
    dsimp only
    split
    · trivial
    · exact .bind_same fun column => (leaf.test_follows hf path column).bind fun t => rfl
  | _ :: _ :: _ => trivial

theorem values_linkedRow {path : String} {c : Path.Crossing} {leaf : Leaf} {n : Nat}
    {row : Sql.LinkedRow} (h : linkedRow s root path c leaf n = .ok row) :
    row.test.values = leaf.literals := by
  obtain ⟨chain, owner, link, rest⟩ := c
  obtain ⟨target, -, h⟩ := (Outcome.bind_eq_ok _ _ _).1 h
  match rest with
  | [] =>
    obtain ⟨t, ht, hok⟩ := (Outcome.bind_eq_ok _ _ _).1 h
    cases hok
    exact Leaf.values_test ht
  | [name] =>
    dsimp only at h
    split at h
    · cases h
    · obtain ⟨column, -, h⟩ := (Outcome.bind_eq_ok _ _ _).1 h
      obtain ⟨t, ht, hok⟩ := (Outcome.bind_eq_ok _ _ _).1 h
      cases hok
      exact Leaf.values_test ht
  | _ :: _ :: _ => cases h

theorem leafCondition_follows (hf : KeepsNull f) (links : Nat) (path : String) (leaf : Leaf) :
    Follows (Prod.map (Condition.mapValues f) id) (leafCondition s root links path leaf)
      (leafCondition s root links path (leaf.mapLiterals f)) := by
  refine .bind_same fun crossing => ?_
  cases crossing with
  | none =>
    exact .bind_same fun column => (leaf.test_follows hf path column).bind fun t => rfl
  | some c => exact (linkedRow_follows hf path c leaf (links + 1)).bind fun row => rfl

theorem orient_follows (f : Value → Value) (left : Expr) (op : Comparison) (right : Expr) :
    Follows (Prod.map id (Leaf.mapLiterals f)) (orient s root left op right)
      (orient s root (left.mapLiterals f) op (right.mapLiterals f)) := by
  have hpath : ∀ e : Expr, (e.mapLiterals f).path? = e.path? := by
    intro e
    cases e <;> rfl
  unfold orient
  rw [hpath, hpath]
  cases left.path? with
  | none =>
    cases right.path? with
    | none => trivial
    | some other => exact rfl
  | some path =>
    cases right.path? with
    | none => exact rfl
    | some other =>
      refine .bind_same fun crossing => ?_
      cases crossing with
      | none => exact rfl
      | some c => trivial

mutual

theorem condition_follows (hf : KeepsNull f) : ∀ (links : Nat) (e : Expr),
    Follows (Prod.map (Condition.mapValues f) id) (condition s root links e)
      (condition s root links (e.mapLiterals f))
  | links, .and operands => by
    refine (conditions_follows hf links operands).bind fun items => ?_
    exact congrArg (·, items.2) (Condition.connect_mapValues f .and items.1)
  | links, .or operands => by
    refine (conditions_follows hf links operands).bind fun items => ?_
    exact congrArg (·, items.2) (Condition.connect_mapValues f .or items.1)
  | links, .not operand => by
    refine (condition_follows hf links operand).bind fun c => ?_
    exact congrArg (·, c.2) (c.1.negated_mapValues f)
  | links, .compare left op right =>
    (orient_follows f left op right).bind fun leaf => leafCondition_follows hf links leaf.1 leaf.2
  | links, .inSet (.field path) values => leafCondition_follows hf links path (.oneOf values)
  | _, .inSet (.value _) _ => trivial
  | _, .inSet (.bare _) _ => trivial
  | _, .inSet (.compare _ _ _) _ => trivial
  | _, .inSet (.and _) _ => trivial
  | _, .inSet (.or _) _ => trivial
  | _, .inSet (.not _) _ => trivial
  | _, .inSet (.inSet _ _) _ => trivial
  | _, .field _ => trivial
  | _, .value _ => trivial
  | _, .bare _ => trivial

theorem conditions_follows (hf : KeepsNull f) : ∀ (links : Nat) (es : List Expr),
    Follows (Prod.map (List.map (Condition.mapValues f)) id) (conditions s root links es)
      (conditions s root links (Expr.mapLiteralsOf f es))
  | _, [] => rfl
  | links, e :: rest => by
    refine (condition_follows hf links e).bind fun c => ?_
    exact (conditions_follows hf c.2 rest).bind fun cs => rfl

end

/-! ### The values of a condition -/

/-- What a condition has of the literals of its expression: some of them in their order, and all of
them unless a set without members decides a part of it. -/
structure Gives (literals : List Value) (hasEmptySet : Bool) (c : Condition) : Prop where
  sublist : c.values.Sublist literals
  whole : hasEmptySet = false → c.isConstant = false ∧ c.values = literals

theorem Gives.of_eq {literals : List Value} {hasEmptySet : Bool} {c : Condition}
    (hv : c.values = literals) (hc : hasEmptySet = false → c.isConstant = false) :
    Gives literals hasEmptySet c :=
  ⟨hv ▸ List.Sublist.refl _, fun h => ⟨hc h, hv⟩⟩

theorem Gives.negated {literals : List Value} {hasEmptySet : Bool} {c : Condition}
    (h : Gives literals hasEmptySet c) : Gives literals hasEmptySet c.negated := by
  refine ⟨?_, fun he => ⟨Condition.isConstant_negated (h.whole he).1, ?_⟩⟩
  · rw [Condition.values_negated]
    exact h.sublist
  · rw [Condition.values_negated]
    exact (h.whole he).2

/-- What the operands of a connective have of their literals. -/
structure GiveAll (literals : List Value) (hasEmptySet : Bool) (cs : List Condition) : Prop where
  sublist : (cs.flatMap Condition.values).Sublist literals
  whole : hasEmptySet = false →
    (∀ c ∈ cs, c.isConstant = false) ∧ cs.flatMap Condition.values = literals

theorem GiveAll.connect {literals : List Value} {hasEmptySet : Bool} {cs : List Condition}
    (h : GiveAll literals hasEmptySet cs) (k : Sql.Connective) :
    Gives literals hasEmptySet (.connect k cs) where
  sublist := (Condition.values_connect_sublist k cs).trans h.sublist
  whole he := by
    obtain ⟨hcs, hall⟩ := h.whole he
    exact ⟨Condition.isConstant_connect hcs, (Condition.values_connect hcs).trans hall⟩

theorem GiveAll.cons {xs ys : List Value} {x y : Bool} {c : Condition} {cs : List Condition}
    (hc : Gives xs x c) (hcs : GiveAll ys y cs) : GiveAll (xs ++ ys) (x || y) (c :: cs) where
  sublist := hc.sublist.append hcs.sublist
  whole he := by
    obtain ⟨hx, hy⟩ := Bool.or_eq_false_iff.1 he
    obtain ⟨hcc, hcv⟩ := hc.whole hx
    obtain ⟨hrest, hv⟩ := hcs.whole hy
    refine ⟨List.forall_mem_cons.2 ⟨hcc, hrest⟩, ?_⟩
    rw [List.flatMap_cons, hcv, hv]

theorem gives_leafCondition {links n : Nat} {path : String} {leaf : Leaf} {c : Condition}
    (h : leafCondition s root links path leaf = .ok (c, n)) :
    Gives leaf.literals leaf.isEmptySet c := by
  obtain ⟨crossing, -, h⟩ := (Outcome.bind_eq_ok _ _ _).1 h
  cases crossing with
  | none =>
    obtain ⟨column, -, h⟩ := (Outcome.bind_eq_ok _ _ _).1 h
    obtain ⟨t, ht, hok⟩ := (Outcome.bind_eq_ok _ _ _).1 h
    cases hok
    exact .of_eq (Leaf.values_test ht) (Leaf.isConstant_test ht)
  | some crossing =>
    obtain ⟨row, hrow, hok⟩ := (Outcome.bind_eq_ok _ _ _).1 h
    cases hok
    exact .of_eq (values_linkedRow hrow) fun _ => rfl

theorem literals_of_path? {e : Expr} {path : String} (h : e.path? = some path) : e.literals = [] := by
  cases e with
  | field _ => rfl
  | _ => cases h

theorem literals_orient {left right : Expr} {op : Comparison} {path : String} {leaf : Leaf}
    (h : orient s root left op right = .ok (path, leaf)) :
    leaf.literals = left.literals ++ right.literals ∧ leaf.isEmptySet = false := by
  unfold orient at h
  cases hl : left.path? with
  | none =>
    cases hr : right.path? with
    | none => simp [hl, hr] at h
    | some other =>
      simp only [hl, hr] at h
      cases h
      rw [literals_of_path? hr, List.append_nil]
      exact ⟨rfl, rfl⟩
  | some path =>
    rw [literals_of_path? hl, List.nil_append]
    cases hr : right.path? with
    | none =>
      simp only [hl, hr] at h
      cases h
      exact ⟨rfl, rfl⟩
    | some other =>
      simp only [hl, hr] at h
      obtain ⟨crossing, -, h⟩ := (Outcome.bind_eq_ok _ _ _).1 h
      cases crossing with
      | none =>
        cases h
        exact ⟨rfl, rfl⟩
      | some c => cases h

mutual

theorem gives_condition : ∀ (links : Nat) (e : Expr) (c : Condition) (n : Nat),
    condition s root links e = .ok (c, n) → Gives e.literals e.hasEmptySet c
  | links, .and operands, c, n, h => by
    obtain ⟨⟨items, m⟩, hitems, hok⟩ := (Outcome.bind_eq_ok _ _ _).1 h
    cases hok
    exact (gives_conditions links operands items n hitems).connect .and
  | links, .or operands, c, n, h => by
    obtain ⟨⟨items, m⟩, hitems, hok⟩ := (Outcome.bind_eq_ok _ _ _).1 h
    cases hok
    exact (gives_conditions links operands items n hitems).connect .or
  | links, .not operand, c, n, h => by
    obtain ⟨⟨c, m⟩, hc, hok⟩ := (Outcome.bind_eq_ok _ _ _).1 h
    cases hok
    exact (gives_condition links operand c n hc).negated
  | links, .compare left op right, c, n, h => by
    obtain ⟨⟨path, leaf⟩, hleaf, hc⟩ := (Outcome.bind_eq_ok _ _ _).1 h
    obtain ⟨hlit, hset⟩ := literals_orient hleaf
    have hgives := gives_leafCondition hc
    rw [hlit, hset] at hgives
    exact hgives
  | links, .inSet (.field path) values, c, n, h => by
    have hleaf : leafCondition s root links path (.oneOf values) = .ok (c, n) := h
    exact gives_leafCondition hleaf
  | _, .inSet (.value _) _, _, _, h => nomatch h
  | _, .inSet (.bare _) _, _, _, h => nomatch h
  | _, .inSet (.compare _ _ _) _, _, _, h => nomatch h
  | _, .inSet (.and _) _, _, _, h => nomatch h
  | _, .inSet (.or _) _, _, _, h => nomatch h
  | _, .inSet (.not _) _, _, _, h => nomatch h
  | _, .inSet (.inSet _ _) _, _, _, h => nomatch h
  | _, .field _, _, _, h => nomatch h
  | _, .value _, _, _, h => nomatch h
  | _, .bare _, _, _, h => nomatch h

theorem gives_conditions : ∀ (links : Nat) (es : List Expr) (cs : List Condition) (n : Nat),
    conditions s root links es = .ok (cs, n) →
    GiveAll (Expr.literalsOf es) (Expr.anyEmptySet es) cs
  | _, [], cs, n, h => by
    cases h
    exact ⟨List.Sublist.refl _, fun _ => ⟨nofun, rfl⟩⟩
  | links, e :: rest, cs, n, h => by
    obtain ⟨⟨c, m⟩, hc, h⟩ := (Outcome.bind_eq_ok _ _ _).1 h
    obtain ⟨⟨others, k⟩, hothers, hok⟩ := (Outcome.bind_eq_ok _ _ _).1 h
    cases hok
    exact .cons (gives_condition links e c m hc) (gives_conditions m rest others n hothers)

end

/-! ## Plans -/

/-- The compiled query under other literals, another limit and another offset. -/
def Compiled.mapLiterals (f : Value → Value) (limit offset : Option Int) (c : Compiled) : Compiled :=
  { c with select :=
    { c.select with condition := c.select.condition.map (Condition.mapValues f), limit, offset } }

theorem Plan.chains_mapLiterals (f : Value → Value) (s : Schema) (root : Entity) (p : Plan) :
    (p.mapLiterals f).chains s root = p.chains s root := by
  unfold chains mapLiterals
  cases p.predicate with
  | none => rfl
  | some e => simp only [Option.map_some, Expr.paths_mapLiterals]

theorem predicate_follows (hf : KeepsNull f) (predicate : Option Expr) :
    Follows (Option.map (Condition.mapValues f))
      (predicate.mapM fun e => condition s root 0 e >>= fun c => .ok c.1)
      ((predicate.map (Expr.mapLiterals f)).mapM fun e =>
        condition s root 0 e >>= fun c => .ok c.1) := by
  cases predicate with
  | none => exact rfl
  | some e =>
    have hc : Follows (Condition.mapValues f) (condition s root 0 e >>= fun c => .ok c.1)
        (condition s root 0 (e.mapLiterals f) >>= fun c => .ok c.1) :=
      (condition_follows hf 0 e).bind fun c => rfl
    exact hc.bind fun c => rfl

/-- Compiling looks at no literal, and at neither the limit nor the offset. -/
theorem Plan.compileOver_follows (hf : KeepsNull f) (p : Plan) (d : Dialect)
    (limit offset : Option Int) :
    Follows (Compiled.mapLiterals f limit offset) (p.compileOver d s root)
      ({ p.mapLiterals f with limit, offset }.compileOver d s root) := by
  have hchains := p.chains_mapLiterals f s root
  unfold compileOver
  refine .bind_same fun columns => .bind_same fun _ => ?_
  refine (predicate_follows hf p.predicate).bind fun condition => .bind_same fun ordering => ?_
  change Follows _ _ ((joinedChains ((p.mapLiterals f).chains s root)).mapM (joinOf s root) >>= _)
  rw [hchains]
  exact .bind_same fun joins => rfl

end SchemaLedger.Query
