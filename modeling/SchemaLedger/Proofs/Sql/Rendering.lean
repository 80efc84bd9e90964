import Mathlib.Data.List.Flatten
import SchemaLedger.Sql.Select

set_option autoImplicit false

/-!
# Values and texts

A condition has values at its leaves. Rendering takes them over one by one, in the order of the text,
and nothing else of the text or of the parameters' names looks at them: a map of the values of a
condition is the same map of the parameters of its rendering.
-/
namespace SchemaLedger.Sql

/-! ## Fragments -/

namespace Piece

def mapValue (f : Value → Value) : Piece → Piece
  | .text s => .text s
  | .parameter p => .parameter { p with value := f p.value }

def value? : Piece → Option Value
  | .text _ => none
  | .parameter p => some p.value

end Piece

namespace Fragment

def mapValues (f : Value → Value) (g : Fragment) : Fragment := List.map (Piece.mapValue f) g

def values (g : Fragment) : List Value := List.filterMap Piece.value? g

@[simp] theorem mapValues_ofText (f : Value → Value) (s : String) :
    mapValues f (ofText s) = ofText s := rfl

@[simp] theorem mapValues_literal (f : Value → Value) (type : LogicalType) (v : Value) :
    mapValues f (literal type v) = literal type (f v) := rfl

@[simp] theorem mapValues_append (f : Value → Value) (g h : Fragment) :
    mapValues f (g ++ h) = mapValues f g ++ mapValues f h := List.map_append

@[simp] theorem values_ofText (s : String) : values (ofText s) = [] := rfl

@[simp] theorem values_literal (type : LogicalType) (v : Value) :
    values (literal type v) = [v] := rfl

@[simp] theorem values_append (g h : Fragment) : values (g ++ h) = values g ++ values h :=
  List.filterMap_append

@[simp] theorem mapValues_parenthesised (f : Value → Value) (g : Fragment) :
    mapValues f g.parenthesised = (mapValues f g).parenthesised := by
  simp [parenthesised]

@[simp] theorem values_parenthesised (g : Fragment) : values g.parenthesised = values g := by
  simp [parenthesised]

theorem values_mapValues (f : Value → Value) (g : Fragment) :
    values (mapValues f g) = (values g).map f := by
  induction g with
  | nil => rfl
  | cons piece rest ih =>
    cases piece with
    | text s => exact ih
    | parameter p => exact congrArg (f p.value :: ·) ih

theorem isEmpty_mapValues (f : Value → Value) (g : Fragment) :
    (mapValues f g).isEmpty = g.isEmpty := List.isEmpty_map

theorem mapValues_join (f : Value → Value) (separator : String) (gs : List Fragment) :
    mapValues f (join separator gs) = join separator (gs.map (mapValues f)) := by
  induction gs with
  | nil => rfl
  | cons g rest ih =>
    cases rest with
    | nil => rfl
    | cons h rest =>
      rw [join, mapValues_append, mapValues_append, mapValues_ofText, ih]
      rfl

theorem values_join (separator : String) (gs : List Fragment) :
    values (join separator gs) = gs.flatMap values := by
  induction gs with
  | nil => rfl
  | cons g rest ih =>
    cases rest with
    | nil => simp [join]
    | cons h rest =>
      rw [join, values_append, values_append, values_ofText, List.append_nil, ih]
      rfl

end Fragment

/-! ## Statements -/

namespace Prepared

/-- The counts that a fragment leaves behind. -/
def after (d : Dialect) : Counted → Fragment → Counted
  | c, [] => c
  | c, .text _ :: rest => after d c rest
  | c, .parameter p :: rest => after d (name d c p).2 rest

theorem ofPieces_append (d : Dialect) (g h : Fragment) (c : Counted) :
    ofPieces d c (g ++ h) =
      ⟨(ofPieces d c g).text ++ (ofPieces d (after d c g) h).text,
        (ofPieces d c g).parameters ++ (ofPieces d (after d c g) h).parameters⟩ := by
  induction g generalizing c with
  | nil => simp [ofPieces, after]
  | cons piece rest ih =>
    cases piece with
    | text s => simp [ofPieces, after, ih, String.append_assoc]
    | parameter p => simp [ofPieces, after, ih, String.append_assoc]

theorem ofPieces_parameter (d : Dialect) (c : Counted) (p : Parameter) (rest : Fragment) :
    ofPieces d c (.parameter p :: rest) =
      ⟨Fragment.placeholder d (name d c p).1 p.type ++ (ofPieces d (name d c p).2 rest).text,
        ((name d c p).1, p) :: (ofPieces d (name d c p).2 rest).parameters⟩ := rfl

theorem name_mapValue (d : Dialect) (c : Counted) (p : Parameter) (v : Value) :
    name d c { p with value := v } = name d c p := rfl

theorem after_mapValues (d : Dialect) (f : Value → Value) (g : Fragment) (c : Counted) :
    after d c (g.mapValues f) = after d c g := by
  induction g generalizing c with
  | nil => rfl
  | cons piece rest ih =>
    cases piece with
    | text s => exact ih c
    | parameter p => exact ih (name d c p).2

/-- The text and the names are those of any other values; only the values follow the map. -/
theorem ofPieces_mapValues (d : Dialect) (f : Value → Value) (g : Fragment) (c : Counted) :
    ofPieces d c (g.mapValues f) =
      ⟨(ofPieces d c g).text,
        (ofPieces d c g).parameters.map fun q => (q.1, { q.2 with value := f q.2.value })⟩ := by
  induction g generalizing c with
  | nil => rfl
  | cons piece rest ih =>
    cases piece with
    | text s =>
      change ofPieces d c (.text s :: Fragment.mapValues f rest) = _
      rw [ofPieces, ih]
      rfl
    | parameter p =>
      change ofPieces d c (.parameter _ :: Fragment.mapValues f rest) = _
      rw [ofPieces_parameter, ofPieces_parameter, name_mapValue, ih, List.map_cons]

theorem values_ofPieces (d : Dialect) (g : Fragment) (c : Counted) :
    (ofPieces d c g).values.map (·.2) = g.values := by
  induction g generalizing c with
  | nil => rfl
  | cons piece rest ih =>
    cases piece with
    | text s => exact ih c
    | parameter p => exact congrArg (p.value :: ·) (ih (name d c p).2)

end Prepared

/-! ## Tests -/

namespace Operand

def mapValues (f : Value → Value) : Operand → Operand
  | .literal type v => .literal type (f v)
  | .named after type v => .named after type (f v)
  | o => o

def values : Operand → List Value
  | .literal _ v => [v]
  | .named _ _ v => [v]
  | _ => []

theorem render_mapValues (d : Dialect) (f : Value → Value) (o : Operand) :
    (o.mapValues f).render d = (o.render d).mapValues f := by
  cases o <;> rfl

theorem values_render (d : Dialect) (o : Operand) : (o.render d).values = o.values := by
  cases o <;> rfl

end Operand

namespace Test

def mapValues (f : Value → Value) : Test → Test
  | .compare op left right => .compare op left (right.mapValues f)
  | .oneOf expected c vs => .oneOf expected c (vs.map f)
  | t => t

def values : Test → List Value
  | .compare _ _ right => right.values
  | .oneOf _ _ vs => vs
  | _ => []

theorem renderValues_map (f : Value → Value) (c : ColumnRef) (vs : List Value) :
    renderValues c (vs.map f) = (renderValues c vs).mapValues f := by
  simp [renderValues, Fragment.mapValues_join, Function.comp_def]

theorem values_renderValues (c : ColumnRef) (vs : List Value) : (renderValues c vs).values = vs := by
  simp [renderValues, Fragment.values_join, List.flatMap_map]

theorem render_mapValues (d : Dialect) (f : Value → Value) (t : Test) :
    (t.mapValues f).render d = (t.render d).mapValues f := by
  cases t with
  | compare op left right => simp [mapValues, render, Operand.render_mapValues]
  | oneOf expected c vs => cases expected <;> simp [mapValues, render, renderValues_map]
  | constant b => rfl
  | isNull expected c => rfl

theorem values_render (d : Dialect) (t : Test) : (t.render d).values = t.values := by
  cases t with
  | compare op left right => simp [values, render, Operand.values_render]
  | oneOf expected c vs => cases expected <;> simp [values, render, values_renderValues]
  | constant b => rfl
  | isNull expected c => rfl

theorem negated_mapValues (f : Value → Value) (t : Test) :
    (t.mapValues f).negated = t.negated.mapValues f := by
  cases t <;> rfl

theorem values_negated (t : Test) : t.negated.values = t.values := by
  cases t <;> rfl

end Test

namespace LinkedRow

def mapValues (f : Value → Value) (r : LinkedRow) : LinkedRow := { r with test := r.test.mapValues f }

/-- The key of the owner, and the test. -/
def keyed (d : Dialect) (r : LinkedRow) : Fragment :=
  .join " AND " [(Test.compare .eq r.linkOwner (.column r.owner)).render d, r.test.render d]

theorem condition_cases (d : Dialect) (r : LinkedRow) :
    r.test = .constant false ∨ r.condition d = r.keyed d ∧ ∀ f, (r.mapValues f).condition d =
      (r.mapValues f).keyed d := by
  obtain ⟨link, target, linkOwner, owner, test⟩ := r
  cases test with
  | constant b =>
    cases b with
    | false => exact .inl rfl
    | true => exact .inr ⟨rfl, fun _ => rfl⟩
  | _ => exact .inr ⟨rfl, fun _ => rfl⟩

theorem keyed_mapValues (d : Dialect) (f : Value → Value) (r : LinkedRow) :
    (r.mapValues f).keyed d = (r.keyed d).mapValues f := by
  rw [keyed, keyed, Fragment.mapValues_join, mapValues, Test.render_mapValues]
  rfl

theorem values_keyed (d : Dialect) (r : LinkedRow) : (r.keyed d).values = r.test.values := by
  rw [keyed, Fragment.values_join, List.flatMap_cons, List.flatMap_singleton, Test.values_render,
    Test.values_render]
  rfl

theorem condition_mapValues (d : Dialect) (f : Value → Value) (r : LinkedRow) :
    (r.mapValues f).condition d = (r.condition d).mapValues f := by
  rcases r.condition_cases d with h | ⟨h, hmap⟩
  · simp [condition, mapValues, h, Test.mapValues, Test.render]
  · rw [h, hmap, keyed_mapValues]

theorem values_condition (d : Dialect) (r : LinkedRow) : (r.condition d).values = r.test.values := by
  rcases r.condition_cases d with h | ⟨h, -⟩
  · simp [condition, h, Test.values, Test.render]
  · rw [h, values_keyed]

theorem render_mapValues (d : Dialect) (f : Value → Value) (r : LinkedRow) :
    (r.mapValues f).render d = (r.render d).mapValues f := by
  simp only [render, Fragment.mapValues_append, Fragment.mapValues_ofText, condition_mapValues]
  rfl

theorem values_render (d : Dialect) (r : LinkedRow) : (r.render d).values = r.test.values := by
  simp [render, values_condition]

end LinkedRow

/-! ## Conditions -/

namespace Condition

mutual

def mapValues (f : Value → Value) : Condition → Condition
  | .test t => .test (t.mapValues f)
  | .settled b => .settled b
  | .linked row => .linked (row.mapValues f)
  | .list k items => .list k (mapItems f items)
  | .negation c => .negation (mapValues f c)

def mapItems (f : Value → Value) : List Condition → List Condition
  | [] => []
  | c :: rest => mapValues f c :: mapItems f rest

end

mutual

/-- The values from left to right. -/
def values : Condition → List Value
  | .test t => t.values
  | .settled _ => []
  | .linked row => row.test.values
  | .list _ items => valuesOf items
  | .negation c => values c

def valuesOf : List Condition → List Value
  | [] => []
  | c :: rest => values c ++ valuesOf rest

end

theorem mapItems_eq (f : Value → Value) (cs : List Condition) :
    mapItems f cs = cs.map (mapValues f) := by
  induction cs with
  | nil => rfl
  | cons c rest ih => rw [mapItems, ih, List.map_cons]

theorem valuesOf_eq (cs : List Condition) : valuesOf cs = cs.flatMap values := by
  induction cs with
  | nil => rfl
  | cons c rest ih => rw [valuesOf, ih, List.flatMap_cons]

/-! ### Rendering -/

theorem isEmpty_mapItems (f : Value → Value) (cs : List Condition) :
    (mapItems f cs).isEmpty = cs.isEmpty := by
  cases cs <;> rfl

theorem groupedIn_mapValues (f : Value → Value) (k : Connective) (c : Condition) :
    (c.mapValues f).groupedIn k = c.groupedIn k := by
  cases c with
  | list k' items => simp [mapValues, groupedIn, isEmpty_mapItems]
  | _ => rfl

theorem groupedInNegation_mapValues (f : Value → Value) (c : Condition) :
    (c.mapValues f).groupedInNegation = c.groupedInNegation := by
  cases c with
  | list k items => simp [mapValues, groupedInNegation, isEmpty_mapItems]
  | _ => rfl

theorem group_mapValues (f : Value → Value) (needed : Bool) (g : Fragment) :
    group needed (g.mapValues f) = (group needed g).mapValues f := by
  cases needed with
  | false => rfl
  | true => exact (Fragment.mapValues_parenthesised f g).symm

theorem values_group (needed : Bool) (g : Fragment) : (group needed g).values = g.values := by
  cases needed with
  | false => rfl
  | true => exact Fragment.values_parenthesised g

theorem join_filter_mapValues (f : Value → Value) (separator : String) (gs : List Fragment) :
    .join separator ((gs.map (Fragment.mapValues f)).filter (!·.isEmpty)) =
      (Fragment.join separator (gs.filter (!·.isEmpty))).mapValues f := by
  have hcomp : ((!·.isEmpty) ∘ Fragment.mapValues f : Fragment → Bool) = (!·.isEmpty) := by
    funext g
    exact congrArg (! ·) (Fragment.isEmpty_mapValues f g)
  rw [Fragment.mapValues_join, List.filter_map, hcomp]

theorem flatMap_values_filter (gs : List Fragment) :
    (gs.filter (!·.isEmpty)).flatMap Fragment.values = gs.flatMap Fragment.values := by
  induction gs with
  | nil => rfl
  | cons g rest ih =>
    cases g with
    | nil => exact ih
    | cons piece others =>
      rw [List.filter_cons_of_pos rfl, List.flatMap_cons, ih, List.flatMap_cons]

mutual

theorem render_mapValues (d : Dialect) (f : Value → Value) :
    ∀ c : Condition, (c.mapValues f).render d = (c.render d).mapValues f
  | .test t => t.render_mapValues d f
  | .settled _ => rfl
  | .linked row => row.render_mapValues d f
  | .list k items => by
    rw [mapValues, render, render, renderItems_mapItems d f k items, join_filter_mapValues]
  | .negation c => by
    rw [mapValues, render, render, render_mapValues d f c, groupedInNegation_mapValues,
      group_mapValues, Fragment.mapValues_append, Fragment.mapValues_ofText]

theorem renderItems_mapItems (d : Dialect) (f : Value → Value) (k : Connective) :
    ∀ cs : List Condition,
      renderItems d k (mapItems f cs) = (renderItems d k cs).map (Fragment.mapValues f)
  | [] => rfl
  | c :: rest => by
    rw [mapItems, renderItems, renderItems, List.map_cons, render_mapValues d f c,
      renderItems_mapItems d f k rest, groupedIn_mapValues, group_mapValues]

end

mutual

theorem values_render (d : Dialect) : ∀ c : Condition, (c.render d).values = c.values
  | .test t => t.values_render d
  | .settled _ => rfl
  | .linked row => row.values_render d
  | .list k items => by
    rw [render, Fragment.values_join, flatMap_values_filter, values_renderItems d k items, values]
  | .negation c => by
    rw [render, Fragment.values_append, values_group, values_render d c]
    rfl

theorem values_renderItems (d : Dialect) (k : Connective) :
    ∀ cs : List Condition, (renderItems d k cs).flatMap Fragment.values = valuesOf cs
  | [] => rfl
  | c :: rest => by
    rw [renderItems, List.flatMap_cons, values_group, values_render d c,
      values_renderItems d k rest, valuesOf]

end

/-! ### Connectives -/

theorem constant?_mapValues (f : Value → Value) (c : Condition) :
    (c.mapValues f).constant? = c.constant? := by
  cases c with
  | test t => cases t <;> rfl
  | _ => rfl

theorem negated_mapValues (f : Value → Value) (c : Condition) :
    (c.mapValues f).negated = c.negated.mapValues f := by
  cases c with
  | test t => exact congrArg Condition.test (t.negated_mapValues f)
  | _ => rfl

theorem operandsOf_mapValues (f : Value → Value) (k : Connective) (c : Condition) :
    operandsOf k (c.mapValues f) = (operandsOf k c).map (mapValues f) := by
  cases c with
  | list k' items =>
    simp only [mapValues, operandsOf]
    split
    · exact mapItems_eq f items
    · rfl
  | _ => rfl

theorem connect_mapValues (f : Value → Value) (k : Connective) (cs : List Condition) :
    connect k (cs.map (mapValues f)) = (connect k cs).mapValues f := by
  have hany : (cs.map (mapValues f)).any (·.constant? = some !k.neutral) =
      cs.any (·.constant? = some !k.neutral) := by
    simp [List.any_map, Function.comp_def, constant?_mapValues]
  have hfilter : (cs.map (mapValues f)).filter (·.constant? ≠ some k.neutral) =
      (cs.filter (·.constant? ≠ some k.neutral)).map (mapValues f) := by
    simp [List.filter_map, Function.comp_def, constant?_mapValues]
  unfold connect
  rw [hany, hfilter]
  split
  · rfl
  · generalize cs.filter (·.constant? ≠ some k.neutral) = kept
    match kept, cs with
    | [], [] => rfl
    | [], _ :: _ => rfl
    | [c], _ => rfl
    | c :: c' :: rest, _ =>
      simp [mapValues, mapItems_eq, List.flatMap_map, List.map_flatMap, operandsOf_mapValues]

theorem flatMap_values_operandsOf (k : Connective) (c : Condition) :
    (operandsOf k c).flatMap values = c.values := by
  cases c with
  | list k' items =>
    simp only [operandsOf]
    split
    · rw [values, valuesOf_eq]
    · simp
  | _ => simp [operandsOf]

/-- A connection has the values of its operands, less those of the operands it can do without. -/
theorem values_connect_sublist (k : Connective) (cs : List Condition) :
    (connect k cs).values.Sublist (cs.flatMap values) := by
  have hkept : ((cs.filter (·.constant? ≠ some k.neutral)).flatMap values).Sublist
      (cs.flatMap values) := List.filter_sublist.flatMap _
  unfold connect
  split
  · exact List.nil_sublist _
  · revert hkept
    generalize cs.filter (·.constant? ≠ some k.neutral) = kept
    intro hkept
    match kept, cs with
    | [], [] => exact List.nil_sublist _
    | [], _ :: _ => exact List.nil_sublist _
    | [c], _ => simpa using hkept
    | c :: c' :: rest, _ =>
      rw [values, valuesOf_eq, List.flatMap_assoc]
      simpa only [flatMap_values_operandsOf] using hkept

/-- Whether a condition is true of all rows or of none. -/
def isConstant : Condition → Bool
  | .test (.constant _) => true
  | .settled _ => true
  | _ => false

theorem constant?_eq_none {c : Condition} (h : c.isConstant = false) : c.constant? = none := by
  cases c with
  | test t =>
    cases t with
    | constant b => cases h
    | _ => rfl
  | _ => rfl

theorem isConstant_negated {c : Condition} (h : c.isConstant = false) :
    c.negated.isConstant = false := by
  cases c with
  | test t =>
    cases t with
    | constant b => cases h
    | _ => rfl
  | settled b => cases h
  | _ => rfl

theorem values_negated (c : Condition) : c.negated.values = c.values := by
  cases c with
  | test t => exact t.values_negated
  | _ => rfl

/-- A connection of conditions that are not constant leaves none out. -/
theorem connect_eq {k : Connective} {cs : List Condition} (h : ∀ c ∈ cs, c.isConstant = false) :
    (∃ c, cs = [c] ∧ connect k cs = c) ∨ connect k cs = .list k (cs.flatMap (operandsOf k)) := by
  have hnone : ∀ c ∈ cs, c.constant? = none := fun c hc => constant?_eq_none (h c hc)
  have hany : cs.any (·.constant? = some !k.neutral) = false := by
    simp only [List.any_eq_false, decide_eq_true_eq]
    intro c hc
    simp [hnone c hc]
  have hfilter : cs.filter (·.constant? ≠ some k.neutral) = cs := by
    rw [List.filter_eq_self]
    intro c hc
    simp [hnone c hc]
  unfold connect
  rw [hany, hfilter]
  match cs with
  | [] => exact .inr rfl
  | [c] => exact .inl ⟨c, rfl, rfl⟩
  | c :: c' :: rest => exact .inr rfl

theorem isConstant_connect {k : Connective} {cs : List Condition}
    (h : ∀ c ∈ cs, c.isConstant = false) : (connect k cs).isConstant = false := by
  rcases connect_eq (k := k) h with ⟨c, rfl, hc⟩ | hc
  · rw [hc]
    exact h c (List.mem_singleton_self c)
  · rw [hc]
    rfl

theorem values_connect {k : Connective} {cs : List Condition}
    (h : ∀ c ∈ cs, c.isConstant = false) : (connect k cs).values = cs.flatMap values := by
  rcases connect_eq (k := k) h with ⟨c, rfl, hc⟩ | hc
  · rw [hc, List.flatMap_singleton]
  · rw [hc, values, valuesOf_eq, List.flatMap_assoc]
    simp only [flatMap_values_operandsOf]

end Condition

end SchemaLedger.Sql
