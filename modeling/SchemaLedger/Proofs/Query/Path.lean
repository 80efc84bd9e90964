import SchemaLedger.Proofs.Query.Meaning
import SchemaLedger.Proofs.Schema.Declarations

set_option autoImplicit false

/-!
# Paths and rows

The compiler walks the references of a path over entities; the meaning of a path follows them over
rows. Where the first arrives, the second reads.
-/
namespace SchemaLedger.Query

open Sql (Cells Contents Row)

variable {C : Cells} {s : Schema} {db : Contents C}

theorem relationship?_mem {e : Entity} {name : String} {r : Relationship}
    (h : e.relationship? name = some r) : r ∈ e.relationships ∧ r.name = name :=
  ⟨List.mem_of_find?_eq_some h, by simpa using List.find?_some h⟩

namespace Path

theorem parts_eq (path : String) : parts path = chain path ++ [lastPart path] := by
  have hne : parts path ≠ [] := by
    simp [parts, Text.splitAtChar_ne_nil]
  rw [chain, lastPart, List.getLast?_eq_some_getLast hne, Option.getD_some,
    List.dropLast_append_getLast]

theorem target_eq_ok {name : String} {e : Entity} :
    target s name = .ok e ↔ s.entity? name = some e := by
  unfold target
  cases s.entity? name <;> simp

theorem walk_cons_eq_ok {path part : String} {rest : List String} {e e' : Entity} :
    walk s path e (part :: rest) = .ok e' ↔
      ∃ r target, e.relationship? part = some (.single r) ∧ s.entity? r.target = some target ∧
        walk s path target rest = .ok e' := by
  rw [walk]
  constructor
  · intro h
    split at h
    · cases h
    · cases h
    · next r hr =>
      obtain ⟨next, hnext, h⟩ := (Outcome.bind_eq_ok _ _ _).1 h
      exact ⟨r, next, hr, target_eq_ok.1 hnext, h⟩
  · rintro ⟨r, next, hr, hnext, h⟩
    rw [hr]
    exact (Outcome.bind_eq_ok _ _ _).2 ⟨next, target_eq_ok.2 hnext, h⟩

theorem walk_append_eq_ok {path : String} {xs ys : List String} {e e' : Entity} :
    walk s path e (xs ++ ys) = .ok e' ↔
      ∃ m, walk s path e xs = .ok m ∧ walk s path m ys = .ok e' := by
  induction xs generalizing e with
  | nil => simp [walk]
  | cons part rest ih =>
    rw [List.cons_append, walk_cons_eq_ok]
    constructor
    · rintro ⟨r, next, hr, hnext, h⟩
      obtain ⟨m, hm, hys⟩ := ih.1 h
      exact ⟨m, walk_cons_eq_ok.2 ⟨r, next, hr, hnext, hm⟩, hys⟩
    · rintro ⟨m, hm, hys⟩
      obtain ⟨r, next, hr, hnext, hm⟩ := walk_cons_eq_ok.1 hm
      exact ⟨r, next, hr, hnext, ih.2 ⟨m, hm, hys⟩⟩

theorem mem_of_walk {path : String} {chain : List String} {e e' : Entity} (he : e ∈ s.entities)
    (h : walk s path e chain = .ok e') : e' ∈ s.entities := by
  induction chain generalizing e with
  | nil =>
    cases h
    exact he
  | cons part rest ih =>
    obtain ⟨r, next, -, hnext, h⟩ := walk_cons_eq_ok.1 h
    exact ih (List.mem_of_find?_eq_some hnext) h

/-- A crossing stands where a walk arrives at a many-to-many relationship. -/
theorem crossingFrom_eq_some {path : String} {parts before : List String} {e : Entity}
    {c : Crossing} (h : crossingFrom s path before e parts = .ok (some c)) :
    ∃ chain, c.chain = before ++ chain ∧ parts = chain ++ c.link.name :: c.rest ∧
      walk s path e chain = .ok c.owner ∧ c.owner.relationship? c.link.name = some (.many c.link) := by
  induction parts generalizing before e with
  | nil => cases h
  | cons part rest ih =>
    unfold crossingFrom at h
    split at h
    · next l hl =>
      cases h
      have hname : l.name = part := (relationship?_mem hl).2
      refine ⟨[], (List.append_nil _).symm, ?_, rfl, ?_⟩
      · rw [List.nil_append, hname]
      · rw [hname]
        exact hl
    · cases h
    · cases h
    · next r hr _ =>
      obtain ⟨next, hnext, h⟩ := (Outcome.bind_eq_ok _ _ _).1 h
      obtain ⟨chain, hchain, rfl, hwalk, hlink⟩ := ih h
      refine ⟨part :: chain, ?_, rfl, ?_, hlink⟩
      · rw [hchain, List.append_assoc, List.singleton_append]
      · exact walk_cons_eq_ok.2 ⟨r, next, hr, target_eq_ok.1 hnext, hwalk⟩

end Path

open SchemaLedger.Query.Path (walk walk_cons_eq_ok)

theorem follow_append {path : String} {xs ys : List String} {e e' : Entity} {row : Option (Row C)}
    (h : walk s path e xs = .ok e') :
    follow s db e row (xs ++ ys) = follow s db e' (follow s db e row xs) ys := by
  induction xs generalizing e row with
  | nil =>
    cases h
    rfl
  | cons part rest ih =>
    obtain ⟨r, next, hr, hnext, h⟩ := walk_cons_eq_ok.1 h
    rw [List.cons_append, follow, follow]
    simp only [hr, hnext, Option.bind_some]
    exact ih h

theorem see_append {path : String} {xs ys : List String} {e e' : Entity} {row : Option (Row C)}
    (h : walk s path e xs = .ok e') (hy : ys ≠ []) :
    see s db e row (xs ++ ys) = see s db e' (follow s db e row xs) ys := by
  induction xs generalizing e row with
  | nil =>
    cases h
    rfl
  | cons part rest ih =>
    obtain ⟨r, next, hr, hnext, h⟩ := walk_cons_eq_ok.1 h
    have hne : (rest ++ ys).isEmpty = false := by simp [hy]
    rw [List.cons_append, follow, see]
    simp only [hr, hnext, Option.bind_some, hne]
    exact ih h

/-- A column is not a many-to-many relationship. -/
theorem see_column {e : Entity} {name : String} (he : e.Sound) (hn : name ∈ e.columnNames)
    (row : Option (Row C)) : see s db e row [name] = seeColumn s e row name := by
  rw [see]
  split
  · next l hl =>
    obtain ⟨hlink, hname⟩ := relationship?_mem hl
    rcases (e.mem_columnNames name).1 hn with ⟨f, hf, hfn⟩ | ⟨r, hr, hrn⟩
    · exact absurd (hfn.trans hname.symm) (he.apart hf hlink)
    · have heq := List.inj_on_of_nodup_map he.relationshipNames hlink
        ((e.mem_references r).1 hr) (hname.trans hrn.symm)
      cases heq
  · rfl
  · rfl

/-! ## Resolved paths -/

theorem columnOf_eq_ok {path name : String} {e : Entity} {source : Sql.Occurrence}
    {c : Sql.ColumnRef} :
    columnOf s path e source name = .ok c ↔
      name ∈ e.columnNames ∧ ∃ t, columnType? s e name = some t ∧ c = ⟨source, name, t⟩ := by
  unfold columnOf
  split
  · next hn =>
    cases columnType? s e name <;> simp [hn, eq_comm]
  · next hn => simp [hn, Path.unknown]

theorem resolve_eq_ok {root : Entity} {path : String} {c : Sql.ColumnRef} :
    resolve s root path = .ok c ↔
      ∃ e t, walk s path root (Path.chain path) = .ok e ∧ Path.lastPart path ∈ e.columnNames ∧
        columnType? s e (Path.lastPart path) = some t ∧
        c = ⟨occurrence root (Path.chain path), Path.lastPart path, t⟩ := by
  unfold resolve
  simp only [Outcome.bind_eq_ok, columnOf_eq_ok]
  constructor
  · rintro ⟨e, he, hn, t, ht, rfl⟩
    exact ⟨e, t, he, hn, ht, rfl⟩
  · rintro ⟨e, t, he, hn, ht, rfl⟩
    exact ⟨e, he, hn, t, ht, rfl⟩

theorem seePath_of_resolve (hs : s.Sound) {root : Entity} (hroot : root ∈ s.entities) {path : String}
    {c : Sql.ColumnRef} (h : resolve s root path = .ok c) (row : Row C) :
    seePath s db root row path = some (.one c.type
      ((follow s db root (some row) (Path.chain path)).bind (· c.column))) := by
  obtain ⟨e, t, he, hn, ht, rfl⟩ := resolve_eq_ok.1 h
  have hsound := hs.entities e (Path.mem_of_walk hroot he)
  rw [seePath, Path.parts_eq, see_append he (List.cons_ne_nil _ _), see_column hsound hn, seeColumn,
    ht, Option.map_some]

theorem seePath_of_crossing {root : Entity} {path : String} {c : Path.Crossing}
    (h : Path.crossing s root path = .ok (some c)) (row : Row C) :
    seePath s db root row path = (s.entity? c.link.target).bind fun target =>
      seeLinked s target (((follow s db root (some row) c.chain).map
        (linkedRows db c.owner c.link target)).getD []) c.rest := by
  obtain ⟨chain, hchain, hparts, hwalk, hlink⟩ := Path.crossingFrom_eq_some h
  rw [List.nil_append] at hchain
  rw [seePath, hparts, see_append hwalk (List.cons_ne_nil _ _), ← hchain, see]
  simp only [hlink]

theorem Path.walk_of_crossing {root : Entity} {path : String} {c : Path.Crossing}
    (h : Path.crossing s root path = .ok (some c)) :
    walk s path root c.chain = .ok c.owner ∧ .many c.link ∈ c.owner.relationships := by
  obtain ⟨chain, hchain, -, hwalk, hlink⟩ := Path.crossingFrom_eq_some h
  rw [List.nil_append] at hchain
  exact ⟨hchain ▸ hwalk, (relationship?_mem hlink).1⟩

end SchemaLedger.Query
