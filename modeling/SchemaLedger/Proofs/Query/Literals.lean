import SchemaLedger.Proofs.Value.Sameness
import SchemaLedger.Query.Compile

set_option autoImplicit false

/-!
# Literals of plans

Two plans have the same shape if they differ only in their literals, null standing where null stands,
and both or neither have a limit, and an offset. Such plans are images of one plan under two maps of
literals, so what holds of every plan and every map of literals holds of any two of them.
-/
namespace SchemaLedger.Query

/-- A map of literals under which null, and null alone, stays null. -/
def KeepsNull (f : Value → Value) : Prop := ∀ v, f v = .null ↔ v = .null

namespace Expr

mutual

/-- The literals from left to right. A null that stands alone is tested for, never given. -/
def literals : Expr → List Value
  | .value .null => []
  | .value v => [v]
  | .and operands => literalsOf operands
  | .or operands => literalsOf operands
  | .not operand => literals operand
  | .compare left _ right => literals left ++ literals right
  | .inSet subject values => literals subject ++ values
  | _ => []

def literalsOf : List Expr → List Value
  | [] => []
  | e :: rest => literals e ++ literalsOf rest

end

mutual

def mapLiterals (f : Value → Value) : Expr → Expr
  | .field path => .field path
  | .value v => .value (f v)
  | .bare v => .bare (f v)
  | .compare left op right => .compare (mapLiterals f left) op (mapLiterals f right)
  | .and operands => .and (mapLiteralsOf f operands)
  | .or operands => .or (mapLiteralsOf f operands)
  | .not operand => .not (mapLiterals f operand)
  | .inSet subject values => .inSet (mapLiterals f subject) (values.map f)

def mapLiteralsOf (f : Value → Value) : List Expr → List Expr
  | [] => []
  | e :: rest => mapLiterals f e :: mapLiteralsOf f rest

end

mutual

/-- Whether some set of the expression has no members. -/
def hasEmptySet : Expr → Bool
  | .and operands => anyEmptySet operands
  | .or operands => anyEmptySet operands
  | .not operand => hasEmptySet operand
  | .inSet _ values => values.isEmpty
  | _ => false

def anyEmptySet : List Expr → Bool
  | [] => false
  | e :: rest => hasEmptySet e || anyEmptySet rest

end

/-- All that is left of a literal in a shape. -/
def blank : Value → Value
  | .null => .null
  | _ => .bool true

def shape (e : Expr) : Expr := e.mapLiterals blank

theorem literals_value {v : Value} (h : v ≠ .null) : literals (.value v) = [v] := by
  cases v with
  | null => exact absurd rfl h
  | _ => rfl

mutual

theorem literals_mapLiterals {f : Value → Value} (hf : KeepsNull f) :
    ∀ e : Expr, (mapLiterals f e).literals = e.literals.map f
  | .value v => by
    by_cases hv : v = .null
    · subst hv
      rw [mapLiterals, (hf .null).2 rfl]
      rfl
    · rw [mapLiterals, literals_value hv, literals_value (mt (hf v).1 hv)]
      rfl
  | .and operands => literals_mapLiteralsOf hf operands
  | .or operands => literals_mapLiteralsOf hf operands
  | .not operand => literals_mapLiterals hf operand
  | .compare left op right => by
    simp only [mapLiterals, literals, List.map_append, literals_mapLiterals hf left,
      literals_mapLiterals hf right]
  | .inSet subject values => by
    simp only [mapLiterals, literals, List.map_append, literals_mapLiterals hf subject]
  | .field _ => rfl
  | .bare _ => rfl

theorem literals_mapLiteralsOf {f : Value → Value} (hf : KeepsNull f) :
    ∀ es : List Expr, literalsOf (mapLiteralsOf f es) = (literalsOf es).map f
  | [] => rfl
  | e :: rest => by
    simp only [mapLiteralsOf, literalsOf, List.map_append, literals_mapLiterals hf e,
      literals_mapLiteralsOf hf rest]

end

mutual

theorem hasEmptySet_mapLiterals (f : Value → Value) :
    ∀ e : Expr, (mapLiterals f e).hasEmptySet = e.hasEmptySet
  | .and operands => anyEmptySet_mapLiteralsOf f operands
  | .or operands => anyEmptySet_mapLiteralsOf f operands
  | .not operand => hasEmptySet_mapLiterals f operand
  | .inSet _ _ => List.isEmpty_map
  | .compare _ _ _ => rfl
  | .field _ => rfl
  | .value _ => rfl
  | .bare _ => rfl

theorem anyEmptySet_mapLiteralsOf (f : Value → Value) :
    ∀ es : List Expr, anyEmptySet (mapLiteralsOf f es) = anyEmptySet es
  | [] => rfl
  | e :: rest => by
    simp only [mapLiteralsOf, anyEmptySet, hasEmptySet_mapLiterals f e,
      anyEmptySet_mapLiteralsOf f rest]

end

mutual

theorem paths_mapLiterals (f : Value → Value) : ∀ e : Expr, (mapLiterals f e).paths = e.paths
  | .and operands => paths_mapLiteralsOf f operands
  | .or operands => paths_mapLiteralsOf f operands
  | .not operand => paths_mapLiterals f operand
  | .inSet subject _ => paths_mapLiterals f subject
  | .compare left _ right => by
    simp only [mapLiterals, paths, paths_mapLiterals f left, paths_mapLiterals f right]
  | .field _ => rfl
  | .value _ => rfl
  | .bare _ => rfl

theorem paths_mapLiteralsOf (f : Value → Value) :
    ∀ es : List Expr, pathsOf (mapLiteralsOf f es) = pathsOf es
  | [] => rfl
  | e :: rest => by
    simp only [mapLiteralsOf, pathsOf, paths_mapLiterals f e, paths_mapLiteralsOf f rest]

end

/-! ## Two literals as one -/

/-- Two literals at one place, or the null that both are. -/
def pair (v w : Value) : Value := if v.isNull then .null else .list [v, w]

def first : Value → Value
  | .list [v, w] => if v.isNull then .list [v, w] else v
  | v => v

def second : Value → Value
  | .list [v, w] => if w.isNull then .list [v, w] else w
  | v => v

theorem keepsNull_first : KeepsNull first := by
  intro v
  unfold first
  split
  · split <;> simp_all [Value.isNull_iff]
  · exact Iff.rfl

theorem keepsNull_second : KeepsNull second := by
  intro v
  unfold second
  split
  · split <;> simp_all [Value.isNull_iff]
  · exact Iff.rfl

theorem blank_eq_blank {v w : Value} (h : blank v = blank w) : v = .null ↔ w = .null := by
  cases v <;> cases w <;> simp_all [blank]

theorem first_pair {v w : Value} : first (pair v w) = v := by
  unfold pair
  split
  · next hv => exact (Value.isNull_iff.1 hv).symm
  · next hv => simp [first, hv]

theorem second_pair {v w : Value} (h : blank v = blank w) : second (pair v w) = w := by
  have hw : v.isNull = w.isNull := by
    rw [Bool.eq_iff_iff, Value.isNull_iff, Value.isNull_iff, blank_eq_blank h]
  unfold pair
  rw [hw]
  split
  · next hn => exact (Value.isNull_iff.1 hn).symm
  · next hn => simp [second, hn]

theorem exists_values {vs ws : List Value} (h : vs.map blank = ws.map blank) :
    ∃ us : List Value, us.map first = vs ∧ us.map second = ws := by
  induction vs generalizing ws with
  | nil =>
    cases ws with
    | nil => exact ⟨[], rfl, rfl⟩
    | cons w ws => cases h
  | cons v vs ih =>
    cases ws with
    | nil => cases h
    | cons w ws =>
      obtain ⟨hvw, hrest⟩ := List.cons.inj h
      obtain ⟨us, rfl, rfl⟩ := ih hrest
      exact ⟨pair v w :: us, congrArg (· :: _) first_pair, congrArg (· :: _) (second_pair hvw)⟩

mutual

/-- Two expressions of one shape are images of one expression. -/
theorem exists_common : ∀ e e' : Expr, e.shape = e'.shape →
    ∃ t : Expr, t.mapLiterals first = e ∧ t.mapLiterals second = e'
  | .field path, e', h => by
    cases e' with
    | field other =>
      cases h
      exact ⟨.field path, rfl, rfl⟩
    | _ => cases h
  | .value v, e', h => by
    cases e' with
    | value w =>
      refine ⟨.value (pair v w), ?_, ?_⟩
      · rw [mapLiterals, first_pair]
      · rw [mapLiterals, second_pair (Expr.value.inj h)]
    | _ => cases h
  | .bare v, e', h => by
    cases e' with
    | bare w =>
      refine ⟨.bare (pair v w), ?_, ?_⟩
      · rw [mapLiterals, first_pair]
      · rw [mapLiterals, second_pair (Expr.bare.inj h)]
    | _ => cases h
  | .compare left op right, e', h => by
    cases e' with
    | compare left' op' right' =>
      obtain ⟨hl, rfl, hr⟩ := Expr.compare.inj h
      obtain ⟨l, rfl, rfl⟩ := exists_common left left' hl
      obtain ⟨r, rfl, rfl⟩ := exists_common right right' hr
      exact ⟨.compare l op r, rfl, rfl⟩
    | _ => cases h
  | .and operands, e', h => by
    cases e' with
    | and operands' =>
      obtain ⟨ts, rfl, rfl⟩ := exists_commons operands operands' (Expr.and.inj h)
      exact ⟨.and ts, rfl, rfl⟩
    | _ => cases h
  | .or operands, e', h => by
    cases e' with
    | or operands' =>
      obtain ⟨ts, rfl, rfl⟩ := exists_commons operands operands' (Expr.or.inj h)
      exact ⟨.or ts, rfl, rfl⟩
    | _ => cases h
  | .not operand, e', h => by
    cases e' with
    | not operand' =>
      obtain ⟨t, rfl, rfl⟩ := exists_common operand operand' (Expr.not.inj h)
      exact ⟨.not t, rfl, rfl⟩
    | _ => cases h
  | .inSet subject values, e', h => by
    cases e' with
    | inSet subject' values' =>
      obtain ⟨hs, hv⟩ := Expr.inSet.inj h
      obtain ⟨t, rfl, rfl⟩ := exists_common subject subject' hs
      obtain ⟨us, rfl, rfl⟩ := exists_values hv
      exact ⟨.inSet t us, rfl, rfl⟩
    | _ => cases h

theorem exists_commons : ∀ es es' : List Expr,
    mapLiteralsOf blank es = mapLiteralsOf blank es' →
    ∃ ts : List Expr, mapLiteralsOf first ts = es ∧ mapLiteralsOf second ts = es'
  | [], es', h => by
    cases es' with
    | nil => exact ⟨[], rfl, rfl⟩
    | cons e' rest' => cases h
  | e :: rest, es', h => by
    cases es' with
    | nil => cases h
    | cons e' rest' =>
      obtain ⟨he, hrest⟩ := List.cons.inj h
      obtain ⟨t, rfl, rfl⟩ := exists_common e e' he
      obtain ⟨ts, rfl, rfl⟩ := exists_commons rest rest' hrest
      exact ⟨t :: ts, rfl, rfl⟩

end

end Expr

/-! ## Plans -/

namespace Plan

def literals (p : Plan) : List Value := (p.predicate.map Expr.literals).getD []

def mapLiterals (f : Value → Value) (p : Plan) : Plan :=
  { p with predicate := p.predicate.map (·.mapLiterals f) }

def hasEmptySet (p : Plan) : Bool := p.predicate.any Expr.hasEmptySet

/-- Of a limit and an offset, the shape has only whether they are there. -/
def shape (p : Plan) : Plan :=
  { p.mapLiterals Expr.blank with limit := p.limit.map fun _ => 0, offset := p.offset.map fun _ => 0 }

theorem literals_mapLiterals {f : Value → Value} (hf : KeepsNull f) (p : Plan) :
    (p.mapLiterals f).literals = p.literals.map f := by
  cases h : p.predicate with
  | none => simp [literals, mapLiterals, h]
  | some e => simp [literals, mapLiterals, h, Expr.literals_mapLiterals hf]

theorem hasEmptySet_mapLiterals (f : Value → Value) (p : Plan) :
    (p.mapLiterals f).hasEmptySet = p.hasEmptySet := by
  cases h : p.predicate with
  | none => simp [hasEmptySet, mapLiterals, h]
  | some e => simp [hasEmptySet, mapLiterals, h, Expr.hasEmptySet_mapLiterals]

/-- Two plans of one shape are images of one plan, but for the numbers of their limits and offsets. -/
theorem exists_common {p q : Plan} (h : p.shape = q.shape) :
    ∃ t : Plan, { t.mapLiterals Expr.first with limit := p.limit, offset := p.offset } = p ∧
      { t.mapLiterals Expr.second with limit := q.limit, offset := q.offset } = q := by
  obtain ⟨entity, predicate, projections, joins, ordering, limit, offset⟩ := p
  obtain ⟨entity', predicate', projections', joins', ordering', limit', offset'⟩ := q
  simp only [shape, mapLiterals, Plan.mk.injEq] at h
  obtain ⟨rfl, hpred, rfl, rfl, rfl, -, -⟩ := h
  cases predicate with
  | none =>
    cases predicate' with
    | none => exact ⟨⟨entity, none, projections, joins, ordering, none, none⟩, rfl, rfl⟩
    | some e' => cases hpred
  | some e =>
    cases predicate' with
    | none => cases hpred
    | some e' =>
      obtain ⟨t, rfl, rfl⟩ := Expr.exists_common e e' (Option.some.inj hpred)
      exact ⟨⟨entity, some t, projections, joins, ordering, none, none⟩, rfl, rfl⟩

end Plan

end SchemaLedger.Query
