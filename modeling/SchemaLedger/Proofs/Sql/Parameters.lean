import SchemaLedger.Proofs.Outcome
import SchemaLedger.Proofs.Sql.Effect
import SchemaLedger.Proofs.Sql.Rendering
import SchemaLedger.Session.Request
import SchemaLedger.Sql.Write

set_option autoImplicit false

/-!
# Parameters of writes

A write has a parameter for each column that it assigns, named after the column, and one for the key in
its condition, with a name that is counted.
-/
namespace SchemaLedger

namespace Sql

variable {d : Dialect}

namespace Prepared

/-- The parameters of a fragment whose names are not counted. -/
def uncounted (d : Dialect) (g : Fragment) : List (String × Parameter) :=
  g.filterMap fun
    | .parameter p => some (Fragment.placeholderName d p.stem, p)
    | .text _ => none

theorem ofPieces_uncounted {g : Fragment} (h : ∀ p, Piece.parameter p ∈ g → p.counted = false)
    (c : Counted) : (ofPieces d c g).parameters = uncounted d g ∧ after d c g = c := by
  induction g generalizing c with
  | nil => exact ⟨rfl, rfl⟩
  | cons piece rest ih =>
    have hrest := fun c => ih (fun p hp => h p (List.mem_cons_of_mem _ hp)) c
    cases piece with
    | text s => exact hrest c
    | parameter p =>
      have hname : name d c p = (Fragment.placeholderName d p.stem, c) := by
        rw [name, h p List.mem_cons_self]
        rfl
      rw [ofPieces_parameter, after, hname]
      exact ⟨congrArg ((Fragment.placeholderName d p.stem, p) :: ·) (hrest c).1, (hrest c).2⟩

theorem uncounted_append (g h : Fragment) :
    uncounted d (g ++ h) = uncounted d g ++ uncounted d h := List.filterMap_append

theorem uncounted_join (separator : String) (gs : List Fragment) :
    uncounted d (.join separator gs) = gs.flatMap (uncounted d) := by
  induction gs with
  | nil => rfl
  | cons g rest ih =>
    cases rest with
    | nil => simp [Fragment.join]
    | cons h rest =>
      rw [Fragment.join, uncounted_append, uncounted_append, ih]
      simp [Fragment.ofText, uncounted]

theorem mem_join {separator : String} {gs : List Fragment} {p : Parameter}
    (h : Piece.parameter p ∈ Fragment.join separator gs) : ∃ g ∈ gs, Piece.parameter p ∈ g := by
  induction gs with
  | nil => cases h
  | cons g rest ih =>
    cases rest with
    | nil => exact ⟨g, List.mem_singleton_self g, h⟩
    | cons g' rest =>
      rw [Fragment.join] at h
      simp only [Fragment.ofText, List.mem_append, List.mem_singleton, reduceCtorEq, or_false] at h
      rcases h with h | h
      · exact ⟨g, List.mem_cons_self, h⟩
      · obtain ⟨g'', hg, hp⟩ := ih h
        exact ⟨g'', List.mem_cons_of_mem _ hg, hp⟩

/-- A fragment without counted names leaves the rest as it would be without it. -/
theorem ofFragment_append {g : Fragment} (h : ∀ p, Piece.parameter p ∈ g → p.counted = false)
    (rest : Fragment) : (ofFragment d (g ++ rest)).parameters =
      uncounted d g ++ (ofFragment d rest).parameters := by
  obtain ⟨hparameters, hafter⟩ := ofPieces_uncounted (d := d) h {}
  rw [ofFragment, ofPieces_append, hparameters, hafter]
  rfl

end Prepared

namespace Assignment

/-- The parameter of a column that is assigned. -/
def named (d : Dialect) (a : Assignment) : String × Parameter :=
  (Fragment.placeholderName d a.column,
    { stem := a.column, counted := false, type := a.type, value := a.value })

theorem uncounted_of_mem {assignments : List Assignment} {f : Assignment → Fragment} {p : Parameter}
    (hf : ∀ a, Piece.parameter p ∈ f a → p.counted = false)
    (h : Piece.parameter p ∈ Fragment.join ", " (assignments.map f)) : p.counted = false := by
  obtain ⟨g, hg, hp⟩ := Prepared.mem_join h
  obtain ⟨a, -, rfl⟩ := List.mem_map.1 hg
  exact hf a hp

end Assignment

/-! ## Statements -/

theorem parameters_insert (i : Insert) :
    ((Request.insert i).prepare d).parameters = i.assignments.map (·.named d) := by
  have hcounted : ∀ p, Piece.parameter p ∈ i.renderCounted d → p.counted = false := by
    intro p hp
    unfold Insert.renderCounted at hp
    split at hp <;> simp [Fragment.ofText] at hp
  have hnone : Prepared.uncounted d (i.renderCounted d) = [] := by
    unfold Insert.renderCounted
    split <;> rfl
  have hvalues : ∀ p, Piece.parameter p ∈ i.renderValues d → p.counted = false := by
    intro p hp
    unfold Insert.renderValues at hp
    split at hp
    · simp [Fragment.ofText] at hp
    · simp only [Fragment.parenthesised, Fragment.ofText, List.mem_append, List.mem_singleton,
        reduceCtorEq, false_or, or_false] at hp
      refine Assignment.uncounted_of_mem (fun a ha => ?_) hp
      rw [Assignment.parameter, List.mem_singleton, Piece.parameter.injEq] at ha
      rw [ha]
  have hsome : Prepared.uncounted d (i.renderValues d) = i.assignments.map (·.named d) := by
    unfold Insert.renderValues
    split
    case isTrue hempty => rw [List.isEmpty_iff.1 hempty]; rfl
    case isFalse =>
      simp only [Fragment.parenthesised, Prepared.uncounted_append, Prepared.uncounted_join,
        List.flatMap_map]
      exact (List.append_nil _).trans (List.map_eq_flatMap ..).symm
  have hall : ∀ p, Piece.parameter p ∈ i.render d → p.counted = false := by
    intro p hp
    simp only [Insert.render, Fragment.ofText, List.mem_append, List.mem_singleton, reduceCtorEq,
      false_or] at hp
    exact hp.elim (hvalues p) (hcounted p)
  rw [Request.prepare, Prepared.ofFragment, (Prepared.ofPieces_uncounted hall {}).1, Insert.render,
    Prepared.uncounted_append, Prepared.uncounted_append, hsome, hnone, List.append_nil]
  rfl

theorem parameters_update (u : Update) : ((Request.update u).prepare d).parameters =
    u.assignments.map (·.named d) ++ (Prepared.ofFragment d (u.condition.render d)).parameters := by
  have hassignment : ∀ a : Assignment, Prepared.uncounted d (a.render d) = [a.named d] :=
    fun _ => rfl
  rw [Request.prepare, Update.render, Prepared.ofFragment_append]
  · simp only [Prepared.uncounted_append, Prepared.uncounted_join, List.flatMap_map, hassignment]
    rw [← List.map_eq_flatMap]
    simp [Prepared.uncounted, Fragment.ofText]
  · intro p hp
    simp only [Fragment.ofText, List.mem_append, List.mem_singleton, reduceCtorEq, false_or,
      or_false] at hp
    refine Assignment.uncounted_of_mem (fun a ha => ?_) hp
    simp only [Assignment.render, Assignment.parameter, Fragment.ofText, List.mem_append,
      List.mem_singleton, reduceCtorEq, false_or, Piece.parameter.injEq] at ha
    rw [ha]

theorem parameters_delete (x : Delete) : ((Request.delete x).prepare d).parameters =
    (Prepared.ofFragment d (x.condition.render d)).parameters := by
  rw [Request.prepare, Delete.render, Prepared.ofFragment_append]
  · rfl
  · simp [Fragment.ofText]

/-! ## Conditions -/

/-- The first name that is counted for a column. -/
def countedName (d : Dialect) (column : String) : String :=
  Fragment.placeholderName d (Counted.next d.longestName {} (Fragment.stemOf column)).1

theorem parameters_compare (op : Comparison) (left : ColumnRef) (right : Operand) :
    (Prepared.ofFragment d ((Test.compare op left right).render d)).parameters =
      (Prepared.ofFragment d (right.render d)).parameters := by
  rw [Test.render, Prepared.ofFragment_append (by simp [Fragment.ofText])]
  rfl

theorem Prepared.name_counted (n : Counted) (p : Parameter) (h : p.counted = true) :
    name d n p = (Fragment.placeholderName d (n.next d.longestName p.stem).1,
      (n.next d.longestName p.stem).2) := by
  rw [name, if_pos h]

theorem parameters_counted (p : Parameter) (h : p.counted = true) :
    (Prepared.ofFragment d [.parameter p]).parameters =
      [(Fragment.placeholderName d (Counted.next d.longestName {} p.stem).1, p)] := by
  rw [Prepared.ofFragment, Prepared.ofPieces_parameter, Prepared.name_counted {} p h]
  rfl

/-- A truth value stands in the text; any other value beside a column is a parameter, whatever has been
counted before. -/
theorem ofPieces_holding (n : Counted) (c : ColumnRef) (v : Value) :
    ((Prepared.ofPieces d n ((holding c v).render d)).parameters = [] ∧
        Prepared.after d n ((holding c v).render d) = n ∧ (v = .null ∨ ∃ b, v = .bool b)) ∨
      (((Prepared.ofPieces d n ((holding c v).render d)).parameters =
          [(Fragment.placeholderName d (n.next d.longestName (Fragment.stemOf c.column)).1,
            { stem := Fragment.stemOf c.column, type := typeBeside c.type v, value := v })] ∧
        Prepared.after d n ((holding c v).render d) =
          (n.next d.longestName (Fragment.stemOf c.column)).2) ∧
        v ≠ .null ∧ ∀ b, v ≠ .bool b) := by
  have hnamed : ∀ v : Value, holding c v =
      .compare .eq c (.named c.column (typeBeside c.type v) v) →
      (Prepared.ofPieces d n ((holding c v).render d)).parameters =
          [(Fragment.placeholderName d (n.next d.longestName (Fragment.stemOf c.column)).1,
            { stem := Fragment.stemOf c.column, type := typeBeside c.type v, value := v })] ∧
        Prepared.after d n ((holding c v).render d) =
          (n.next d.longestName (Fragment.stemOf c.column)).2 := by
    intro v hv
    rw [hv, Test.render, Operand.render, Fragment.ofText, List.singleton_append,
      Prepared.ofPieces, Prepared.after, Prepared.ofPieces_parameter, Prepared.after,
      Prepared.name_counted n _ rfl, Prepared.ofPieces, Prepared.after]
    dsimp only
    exact ⟨rfl, rfl⟩
  cases v with
  | null => exact Or.inl ⟨rfl, rfl, Or.inl rfl⟩
  | bool b => exact Or.inl ⟨rfl, rfl, Or.inr ⟨b, rfl⟩⟩
  | _ => exact Or.inr ⟨hnamed _ rfl, by simp, by simp⟩

theorem parameters_holding (c : ColumnRef) (v : Value) :
    ((Prepared.ofFragment d ((holding c v).render d)).parameters = [] ∧
        (v = .null ∨ ∃ b, v = .bool b)) ∨
      ((Prepared.ofFragment d ((holding c v).render d)).parameters =
        [(countedName d c.column,
          { stem := Fragment.stemOf c.column, type := typeBeside c.type v, value := v })] ∧
        v ≠ .null ∧ ∀ b, v ≠ .bool b) :=
  (ofPieces_holding {} c v).imp (fun ⟨hnone, _, htext⟩ => ⟨hnone, htext⟩)
    fun ⟨⟨hone, _⟩, hplain⟩ => ⟨hone, hplain⟩

theorem parameters_equal (c : ColumnRef) (v : Value) :
    (Prepared.ofFragment d ((equal c v).render d)).parameters =
      if v.isNull then [] else
        [(Fragment.placeholderName d (Counted.next d.longestName {} "param").1,
          { stem := "param", type := c.type, value := v })] := by
  rw [equal]
  split
  · rfl
  · rw [parameters_compare]
    exact parameters_counted _ rfl

theorem parameters_renderCondition (d : Dialect) (c : Condition) :
    (Prepared.ofFragment d (Select.renderCondition d (some c))).parameters =
      (Prepared.ofFragment d (c.render d)).parameters := by
  rw [Select.renderCondition, Option.map_some]
  cases c.render d <;> rfl

/-- What is selected, joined and ordered by brings no parameter. -/
theorem parameters_select {q : Select} {c : Condition} (hc : q.condition = some c)
    (hlimit : q.limit = none) (hoffset : q.offset = none) :
    ((Request.select q).prepare d).parameters =
      (Prepared.ofFragment d (c.render d)).parameters := by
  have hlast : q.render d = .ofText ("SELECT " ++ ", ".intercalate (q.outputs.map (·.render d)) ++
      " \nFROM " ++ renderFrom d q.source q.joins) ++
        (Select.renderCondition d (some c) ++ Select.renderOrdering d q.ordering) := by
    have hnone : Select.renderLimit d none none = [] := by cases d <;> rfl
    rw [Select.render, hc, hlimit, hoffset, hnone, List.append_nil, List.append_assoc]
  have hordering : ∀ n : Counted,
      (Prepared.ofPieces d n (Select.renderOrdering d q.ordering)).parameters = [] := by
    intro n
    rw [Select.renderOrdering]
    split <;> rfl
  rw [Request.prepare, hlast, Prepared.ofFragment_append (by simp [Fragment.ofText]),
    Prepared.ofFragment, Prepared.ofPieces_append, hordering, List.append_nil]
  exact parameters_renderCondition d c

/-! ## Assignments -/

namespace Assignment

variable {t : Table} {values : Entries}

theorem mem_ofTable {a : Assignment} : a ∈ ofTable t values ↔
    ∃ c ∈ t.columns, Entries.get? c.name values = some a.value ∧ a.column = c.name ∧
      a.type = c.type := by
  simp only [ofTable, List.mem_filterMap, Option.map_eq_some_iff]
  constructor
  · rintro ⟨c, hc, v, hv, rfl⟩
    exact ⟨c, hc, hv, rfl, rfl⟩
  · obtain ⟨column, type, value⟩ := a
    rintro ⟨c, hc, hv, rfl, rfl⟩
    exact ⟨c, hc, value, hv, rfl⟩

theorem columns_ofTable : ((ofTable t values).map (·.column)).Sublist t.columnNames := by
  have hsome : ∀ c ∈ t.columns, ((Entries.get? c.name values).map (Assignment.mk c.name c.type ·)).map
      (·.column) = if (Entries.get? c.name values).isSome then some c.name else none := by
    intro c _
    cases Entries.get? c.name values <;> rfl
  rw [ofTable, List.map_filterMap, List.filterMap_congr hsome, Table.columnNames]
  induction t.columns with
  | nil => exact List.Sublist.slnil
  | cons c rest ih =>
    rw [List.filterMap_cons, List.map_cons]
    split
    · exact ih.cons _
    · rename_i h
      split at h
      · cases h
        exact ih.cons_cons _
      · cases h

end Assignment

end Sql

/-! ## Proper requests -/

/-- A request whose parameters have different names and are values of their types. -/
structure Request.Proper (d : Dialect) (r : Request) : Prop where
  apart : ((r.prepare d).parameters.map (·.1)).Nodup
  admitted : ∀ q ∈ (r.prepare d).parameters, q.2.type.admits q.2.value = true

namespace Request

open Sql (Assignment ColumnRef)

variable {d : Dialect} {r : Request}

theorem Proper.exists_bind (h : r.Proper d) : ∃ ps, (r.prepare d).bind d = .ok ps := by
  refine Outcome.exists_mapM fun (name, q) hq => ?_
  obtain ⟨b, hb⟩ := Sql.Binding.exists_bind (h.admitted _ hq) d
  refine ⟨(name, b), ?_⟩
  simp only [Sql.Binding.bind, hb]
  rfl

variable {assignments : List Assignment} {columns : List String}

theorem names_named (assignments : List Assignment) :
    (assignments.map (·.named d)).map (·.1) =
      (assignments.map (·.column)).map (Sql.Fragment.placeholderName d) := by
  rw [List.map_map, List.map_map]
  rfl

theorem proper_insert {i : Sql.Insert}
    (hcolumns : (i.assignments.map (·.column)).Sublist columns)
    (hapart : (columns.map (Sql.Fragment.placeholderName d)).Nodup)
    (hvalues : ∀ a ∈ i.assignments, a.type.admits a.value = true) : (insert i).Proper d := by
  refine ⟨?_, ?_⟩ <;> rw [Sql.parameters_insert]
  · rw [names_named]
    exact hapart.sublist (hcolumns.map _)
  · intro q hq
    obtain ⟨a, ha, rfl⟩ := List.mem_map.1 hq
    exact hvalues a ha

variable {c : ColumnRef} {v : Value} {table : String}

/-- A condition on a key brings one parameter at most, of the type of the key. -/
theorem forall_holding (hv : c.type.admits v = true) (ht : c.type ≠ .json)
    {P : String × Sql.Parameter → Prop}
    (hnamed : c.type ≠ .bool → v ≠ .null → ∀ p : Sql.Parameter, p.type = c.type → p.value = v →
      P (Sql.countedName d c.column, p)) :
    ∀ q ∈ (Sql.Prepared.ofFragment d ((Sql.holding c v).render d)).parameters, P q := by
  rcases Sql.parameters_holding (d := d) c v with ⟨hnone, -⟩ | ⟨hone, hnull, htruth⟩
  · rw [hnone]
    exact List.forall_mem_nil _
  · rw [hone]
    refine List.forall_mem_singleton.2
      (hnamed (fun hbool => ?_) hnull _ (Sql.typeBeside_of_admits hv ht) rfl)
    have hcases := LogicalType.admitted_of_admits hv ht
    rw [hbool] at hcases
    cases hcases with
    | null => exact hnull rfl
    | bool b => exact htruth b rfl

theorem nodup_holding (d : Dialect) (c : ColumnRef) (v : Value) :
    ((Sql.Prepared.ofFragment d ((Sql.holding c v).render d)).parameters.map (·.1)).Nodup := by
  rcases Sql.parameters_holding (d := d) c v with ⟨hnone, -⟩ | ⟨hone, -⟩
  · rw [hnone]
    exact List.nodup_nil
  · rw [hone]
    exact List.nodup_singleton _

theorem admitted_holding (hv : c.type.admits v = true) (ht : c.type ≠ .json) :
    ∀ q ∈ (Sql.Prepared.ofFragment d ((Sql.holding c v).render d)).parameters,
      q.2.type.admits q.2.value = true :=
  forall_holding hv ht fun _ _ p htype hvalue => by rw [htype, hvalue, hv]

theorem proper_select {outputs : List Sql.Output} (hv : c.type.admits v = true)
    (ht : c.type ≠ .json) :
    (select { outputs, source := { table }, condition := some (.test (Sql.holding c v)) }).Proper
      d := by
  refine ⟨?_, ?_⟩ <;> rw [Sql.parameters_select rfl rfl rfl]
  · exact nodup_holding d c v
  · exact admitted_holding hv ht

/-- A query for the rows with a value in a column has one parameter at most. -/
theorem proper_equal {outputs : List Sql.Output} (hv : c.type.admits v = true) :
    (select { outputs, source := { table }, condition := some (.test (Sql.equal c v)) }).Proper
      d := by
  refine ⟨?_, ?_⟩ <;>
    rw [Sql.parameters_select rfl rfl rfl, Sql.Condition.render, Sql.parameters_equal] <;> split
  · exact List.nodup_nil
  · exact List.nodup_singleton _
  · exact List.forall_mem_nil _
  · exact List.forall_mem_singleton.2 hv

theorem proper_update (hv : c.type.admits v = true) (ht : c.type ≠ .json)
    (hcolumns : (assignments.map (·.column)).Sublist columns)
    (hapart : (columns.map (Sql.Fragment.placeholderName d)).Nodup)
    (hkey : c.type ≠ .bool → v ≠ .null → ∀ a ∈ assignments,
      Sql.Fragment.placeholderName d a.column ≠ Sql.countedName d c.column)
    (hvalues : ∀ a ∈ assignments, a.type.admits a.value = true) :
    (update { table, assignments, condition := .test (Sql.holding c v) }).Proper d := by
  refine ⟨?_, ?_⟩ <;> rw [Sql.parameters_update, Sql.Condition.render]
  · rw [List.map_append, names_named]
    refine List.nodup_append.2 ⟨hapart.sublist (hcolumns.map _), nodup_holding d c v, ?_⟩
    intro x hx y hy
    obtain ⟨column, hcolumn, rfl⟩ := List.mem_map.1 hx
    obtain ⟨a, ha, rfl⟩ := List.mem_map.1 hcolumn
    obtain ⟨q, hq, rfl⟩ := List.mem_map.1 hy
    exact forall_holding (P := fun q => Sql.Fragment.placeholderName d a.column ≠ q.1) hv ht
      (fun hbool hnull _ _ _ => hkey hbool hnull a ha) q hq
  · refine List.forall_mem_append.2 ⟨fun q hq => ?_, admitted_holding hv ht⟩
    obtain ⟨a, ha, rfl⟩ := List.mem_map.1 hq
    exact hvalues a ha

end Request

namespace Sql

variable {d : Dialect} {c : ColumnRef} {v : Value} {u : Update}

/-- An update is refused before it is sent if it writes a column that is called like the parameter
for the key. -/
theorem wellNamed_iff (hu : u.condition = .test (holding c v)) :
    u.wellNamed d = true ↔ (v = .null ∨ ∃ b, v = .bool b) ∨
      ∀ a ∈ u.assignments, a.column ≠ Fragment.stemOf c.column ++ "_1" := by
  have hnamed : ∀ v : Value, holding c v =
      .compare .eq c (.named c.column (typeBeside c.type v) v) →
      u.condition = .test (holding c v) → (u.wellNamed d = true ↔
        ∀ a ∈ u.assignments, a.column ≠ Fragment.stemOf c.column ++ "_1") := by
    intro v hv hu
    rw [Update.wellNamed, hu, Condition.render, hv, Test.render]
    simp [Fragment.ofText, Operand.render]
  cases v with
  | null => simp [Update.wellNamed, hu, Condition.render, holding, Test.render, Fragment.ofText]
  | bool b =>
    simp [Update.wellNamed, hu, Condition.render, holding, Test.render, Fragment.ofText,
      Operand.render]
  | _ =>
    rw [hnamed _ rfl hu]
    simp

end Sql

end SchemaLedger
