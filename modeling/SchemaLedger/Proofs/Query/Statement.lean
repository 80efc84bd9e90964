import SchemaLedger.Proofs.Query.Shape
import SchemaLedger.Proofs.Schema.Soundness

set_option autoImplicit false

/-!
# Literals and statements

Two plans of one shape have one text and the same parameters, and what is given for these are literals
of the plans, each from its place. Only the numbers of a limit and an offset can be told from a text,
and only from the casts that PostgreSQL has for small and for large ones.
-/
namespace SchemaLedger.Query

open Sql (Condition Fragment Prepared Select)

variable {s : Schema} {root : Entity}

/-! ## The clause of limit and offset -/

/-- The type of a number, by its magnitude: the smaller one below 2 ^ 31. -/
def countType (n : Int) : LogicalType := .ofMagnitude n.natAbs

/-- The types of the limit and of the offset, as far as they are there. -/
def Plan.countTypes (p : Plan) : Option LogicalType × Option LogicalType :=
  (p.limit.map countType, p.offset.map countType)

/-- The text of the clause, by the types of its numbers and the names of its parameters. -/
def limitText (d : Dialect) (first second : String) :
    Option LogicalType × Option LogicalType → String
  | (none, none) => ""
  | (limit, offset) =>
    match d, limit, offset with
    | .sqlite, _, _ => "\n LIMIT ? OFFSET ?"
    | .postgresql, some t, none => " \n LIMIT " ++ Fragment.placeholder d first t
    | .postgresql, some t, some u =>
      " \n LIMIT " ++ Fragment.placeholder d first t ++ " OFFSET " ++ Fragment.placeholder d second u
    | .postgresql, none, some u => "\n LIMIT ALL OFFSET " ++ Fragment.placeholder d first u
    | .postgresql, none, none => ""

/-- What is given for the limit and the offset: on SQLite a number for both as soon as there is one. -/
def Plan.counts (d : Dialect) (p : Plan) : List Value :=
  match d, p.limit, p.offset with
  | _, none, none => []
  | .sqlite, limit, offset => [.int (limit.getD (-1)), .int (offset.getD 0)]
  | .postgresql, limit, offset => (limit.toList ++ offset.toList).map .int

/-- A statement up to its limit and offset. -/
def body (d : Dialect) (s : Select) : Fragment := { s with limit := none, offset := none }.render d

theorem render_eq (d : Dialect) (s : Select) :
    s.render d = body d s ++ Select.renderLimit d s.limit s.offset := by
  rw [body, Select.render, Select.render, Select.renderLimit, List.append_nil]

theorem values_renderLimit (d : Dialect) (p : Plan) :
    (Select.renderLimit d p.limit p.offset).values = p.counts d := by
  unfold Select.renderLimit Plan.counts
  cases d <;> cases p.limit <;> cases p.offset <;> rfl

/-- The name of the next number, and the counts after it. -/
def nextCount (d : Dialect) (c : Sql.Counted) : String × Sql.Counted :=
  Prepared.name d c { stem := "param", type := .int, value := .null }

/-- The name of a number depends neither on its type nor on the number. -/
theorem name_count (d : Dialect) (c : Sql.Counted) (t : LogicalType) (v : Value) :
    Prepared.name d c { stem := "param", type := t, value := v } = nextCount d c := rfl

/-- The clause is a text with one number behind it, -/
theorem ofPieces_count (d : Dialect) (c : Sql.Counted) (lead : String) (n : Int) :
    (Prepared.ofPieces d c (.ofText lead ++ Select.count n)).text =
        lead ++ Fragment.placeholder d (nextCount d c).1 (countType n) ∧
      (Prepared.ofPieces d c (.ofText lead ++ Select.count n)).parameters.map (·.1) =
        [(nextCount d c).1] := by
  simp only [Fragment.ofText, Select.count, Fragment.literal, List.cons_append, List.nil_append,
    Prepared.ofPieces, String.append_empty, name_count, List.map_cons, List.map_nil, countType,
    and_self]

/-- or two of these. -/
theorem ofPieces_counts (d : Dialect) (c : Sql.Counted) (lead between : String) (n m : Int) :
    (Prepared.ofPieces d c
        (.ofText lead ++ Select.count n ++ .ofText between ++ Select.count m)).text =
      lead ++ Fragment.placeholder d (nextCount d c).1 (countType n) ++ between ++
        Fragment.placeholder d (nextCount d (nextCount d c).2).1 (countType m) ∧
      (Prepared.ofPieces d c
        (.ofText lead ++ Select.count n ++ .ofText between ++ Select.count m)).parameters.map (·.1) =
        [(nextCount d c).1, (nextCount d (nextCount d c).2).1] := by
  simp only [Fragment.ofText, Select.count, Fragment.literal, List.cons_append, List.nil_append,
    Prepared.ofPieces, String.append_empty, String.append_assoc, name_count, List.map_cons,
    List.map_nil, countType, and_self]

theorem text_counts_sqlite (c : Sql.Counted) (n m : Int) :
    (Prepared.ofPieces .sqlite c
        (.ofText "\n LIMIT " ++ Select.count n ++ .ofText " OFFSET " ++ Select.count m)).text =
      "\n LIMIT ? OFFSET ?" := by
  rw [(ofPieces_counts .sqlite c _ _ n m).1]
  change "\n LIMIT " ++ "?" ++ " OFFSET " ++ "?" = _
  decide

/-- What the clause is for the names that a statement has left. -/
theorem text_renderLimit (d : Dialect) (c : Sql.Counted) (limit offset : Option Int) :
    (Prepared.ofPieces d c (Select.renderLimit d limit offset)).text =
      limitText d (nextCount d c).1 (nextCount d (nextCount d c).2).1
        (limit.map countType, offset.map countType) := by
  cases limit with
  | none =>
    cases offset with
    | none => cases d <;> rfl
    | some m =>
      cases d with
      | sqlite => exact text_counts_sqlite c _ m
      | postgresql => exact (ofPieces_count .postgresql c _ m).1
  | some n =>
    cases offset with
    | none =>
      cases d with
      | sqlite => exact text_counts_sqlite c n _
      | postgresql => exact (ofPieces_count .postgresql c _ n).1
    | some m =>
      cases d with
      | sqlite => exact text_counts_sqlite c n m
      | postgresql => exact (ofPieces_counts .postgresql c _ _ n m).1

/-- The names that the clause takes, by what is there. -/
def limitNames (d : Dialect) (first second : String) (limit offset : Bool) : List String :=
  match d, limit, offset with
  | _, false, false => []
  | .sqlite, _, _ | _, true, true => [first, second]
  | _, _, _ => [first]

theorem names_limit (d : Dialect) (c : Sql.Counted) (limit offset : Option Int) :
    (Prepared.ofPieces d c (Select.renderLimit d limit offset)).parameters.map (·.1) =
      limitNames d (nextCount d c).1 (nextCount d (nextCount d c).2).1 limit.isSome
        offset.isSome := by
  cases limit with
  | none =>
    cases offset with
    | none => cases d <;> rfl
    | some m =>
      cases d with
      | sqlite => exact (ofPieces_counts .sqlite c _ _ _ m).2
      | postgresql => exact (ofPieces_count .postgresql c _ m).2
  | some n =>
    cases offset with
    | none =>
      cases d with
      | sqlite => exact (ofPieces_counts .sqlite c _ _ n _).2
      | postgresql => exact (ofPieces_count .postgresql c _ n).2
    | some m =>
      cases d with
      | sqlite => exact (ofPieces_counts .sqlite c _ _ n m).2
      | postgresql => exact (ofPieces_counts .postgresql c _ _ n m).2

section Presence

variable {limit limit' offset offset' : Option Int} (hl : limit.isSome = limit'.isSome)
  (ho : offset.isSome = offset'.isSome)

include hl ho

theorem names_renderLimit (d : Dialect) (c : Sql.Counted) :
    (Prepared.ofPieces d c (Select.renderLimit d limit offset)).parameters.map (·.1) =
      (Prepared.ofPieces d c (Select.renderLimit d limit' offset')).parameters.map (·.1) := by
  rw [names_limit, names_limit, hl, ho]

theorem limitText_sqlite (first second : String) :
    limitText .sqlite first second (limit.map countType, offset.map countType) =
      limitText .sqlite first second (limit'.map countType, offset'.map countType) := by
  cases limit <;> cases limit' <;> cases hl <;> cases offset <;> cases offset' <;> cases ho <;> rfl

end Presence

/-! ## Statements of one shape -/

theorem values_renderCondition (d : Dialect) (c : Option Condition) :
    (Select.renderCondition d c).values = (c.map Condition.values).getD [] := by
  cases c with
  | none => rfl
  | some c =>
    have hvalues := c.values_render d
    simp only [Select.renderCondition, Option.map_some, Option.getD_some]
    cases h : c.render d with
    | nil => exact (congrArg Fragment.values h).symm.trans hvalues
    | cons piece rest =>
      rw [Fragment.values_append, ← h, hvalues]
      rfl

theorem values_body (d : Dialect) (s : Select) :
    (body d s).values = (s.condition.map Condition.values).getD [] := by
  have hordering : ∀ keys, (Select.renderOrdering d keys).values = [] := by
    intro keys
    unfold Select.renderOrdering
    split <;> rfl
  rw [body, Select.render, Fragment.values_append, Fragment.values_append, Fragment.values_append,
    hordering, values_renderCondition]
  simp only [Fragment.values_ofText, List.nil_append, List.append_nil]
  exact List.append_nil _

theorem renderCondition_mapValues (d : Dialect) (f : Value → Value) (c : Option Condition) :
    Select.renderCondition d (c.map (Condition.mapValues f)) =
      (Select.renderCondition d c).mapValues f := by
  cases c with
  | none => rfl
  | some c =>
    simp only [Select.renderCondition, Option.map_some, Condition.render_mapValues]
    cases c.render d <;> rfl

theorem body_mapLiterals (d : Dialect) (f : Value → Value) (limit offset : Option Int)
    (c : Compiled) : body d (c.mapLiterals f limit offset).select = (body d c.select).mapValues f := by
  have hordering : ∀ keys, (Select.renderOrdering d keys).mapValues f =
      Select.renderOrdering d keys := by
    intro keys
    unfold Select.renderOrdering
    split <;> rfl
  rw [body, body, Select.render, Select.render, Fragment.mapValues_append,
    Fragment.mapValues_append, Fragment.mapValues_append, hordering, ← renderCondition_mapValues]
  rfl

/-- What the statements of two plans of one shape have in common. -/
structure Alike (d : Dialect) (p q : Plan) (a b : Prepared) : Prop where
  names : a.parameters.map (·.1) = b.parameters.map (·.1)
  text : d = .sqlite ∨ p.countTypes = q.countTypes → a.text = b.text
  /-- In any case the texts differ in nothing but the casts of a limit and an offset. -/
  clauses : ∃ head first second, a.text = head ++ limitText d first second p.countTypes ∧
    b.text = head ++ limitText d first second q.countTypes
  values : ∃ bound : List (Value × Value), bound.Sublist (p.literals.zip q.literals) ∧
    (p.hasEmptySet = false → bound = p.literals.zip q.literals) ∧
    a.values.map (·.2) = bound.map (·.1) ++ p.counts d ∧
    b.values.map (·.2) = bound.map (·.2) ++ q.counts d

section Statement

variable (d : Dialect) (f : Value → Value) (limit offset : Option Int) (c : Compiled)

theorem statement_mapLiterals :
    (c.mapLiterals f limit offset).statement d =
      .ofFragment d ((body d c.select).mapValues f ++ Select.renderLimit d limit offset) := by
  rw [Compiled.statement, render_eq, body_mapLiterals]
  rfl

theorem exists_text : ∃ head first second, ∀ f limit offset,
    ((c.mapLiterals f limit offset).statement d).text =
      head ++ limitText d first second (limit.map countType, offset.map countType) := by
  let after := Prepared.after d {} (body d c.select)
  refine ⟨(Prepared.ofFragment d (body d c.select)).text, (nextCount d after).1,
    (nextCount d (nextCount d after).2).1, fun f limit offset => ?_⟩
  rw [statement_mapLiterals, Prepared.ofFragment, Prepared.ofPieces_append,
    Prepared.ofPieces_mapValues, Prepared.after_mapValues, text_renderLimit]
  rfl

theorem names_mapLiterals :
    ((c.mapLiterals f limit offset).statement d).parameters.map (·.1) =
      (Prepared.ofFragment d (body d c.select)).parameters.map (·.1) ++
        (Prepared.ofPieces d (Prepared.after d {} (body d c.select))
          (Select.renderLimit d limit offset)).parameters.map (·.1) := by
  rw [statement_mapLiterals, Prepared.ofFragment, Prepared.ofPieces_append,
    Prepared.ofPieces_mapValues, Prepared.after_mapValues, List.map_append, List.map_map]
  rfl

theorem values_mapLiterals :
    ((c.mapLiterals f limit offset).statement d).values.map (·.2) =
      ((c.select.condition.map Condition.values).getD []).map f ++
        (Select.renderLimit d limit offset).values := by
  rw [statement_mapLiterals, Prepared.ofFragment, Prepared.values_ofPieces, Fragment.values_append,
    Fragment.values_mapValues, values_body]

end Statement

theorem Plan.compile_follows {f : Value → Value} (hf : KeepsNull f) (p : Plan) (d : Dialect)
    (s : Schema) (limit offset : Option Int) :
    Outcome.Follows (Compiled.mapLiterals f limit offset) (p.compile d s)
      ({ p.mapLiterals f with limit, offset }.compile d s) := by
  refine .bind_same fun _ => ?_
  dsimp only [mapLiterals]
  cases s.entity? p.entity with
  | none => trivial
  | some root => exact p.compileOver_follows hf d limit offset

theorem Plan.gives_compile {p : Plan} {d : Dialect} {c : Compiled} (h : p.compile d s = .ok c) :
    ((c.select.condition.map Condition.values).getD []).Sublist p.literals ∧
      (p.hasEmptySet = false → (c.select.condition.map Condition.values).getD [] = p.literals) := by
  obtain ⟨root, hover⟩ : ∃ root, p.compileOver d s root = .ok c := by
    obtain ⟨_, -, h⟩ := (Outcome.bind_eq_ok _ _ _).1 h
    split at h
    · cases h
    · exact ⟨_, h⟩
  obtain ⟨columns, -, h⟩ := (Outcome.bind_eq_ok _ _ _).1 hover
  obtain ⟨_, -, h⟩ := (Outcome.bind_eq_ok _ _ _).1 h
  obtain ⟨condition?, hcond, h⟩ := (Outcome.bind_eq_ok _ _ _).1 h
  obtain ⟨ordering, -, h⟩ := (Outcome.bind_eq_ok _ _ _).1 h
  obtain ⟨joins, -, hok⟩ := (Outcome.bind_eq_ok _ _ _).1 h
  cases hok
  unfold literals hasEmptySet
  cases hp : p.predicate with
  | none =>
    rw [hp] at hcond
    cases hcond
    exact ⟨List.nil_sublist _, fun _ => rfl⟩
  | some e =>
    rw [hp] at hcond
    obtain ⟨c, hc, hok⟩ := (Outcome.bind_eq_ok _ _ _).1 hcond
    cases hok
    obtain ⟨⟨c', n⟩, hc, hok⟩ := (Outcome.bind_eq_ok _ _ _).1 hc
    cases hok
    have hgives := gives_condition 0 e c n hc
    exact ⟨hgives.sublist, fun he => (hgives.whole he).2⟩

/-- Two plans of one shape both fail to compile, or compile to statements that differ only in the
literals they are given, and in the casts of the limit and the offset. -/
theorem Plan.compile_of_shape (d : Dialect) (s : Schema) {p q : Plan} (h : p.shape = q.shape) :
    (∃ c c', p.compile d s = .ok c ∧ q.compile d s = .ok c' ∧
      Alike d p q (c.statement d) (c'.statement d)) ∨
    ∃ e e', p.compile d s = .error e ∧ q.compile d s = .error e' := by
  obtain ⟨t, hp, hq⟩ := exists_common h
  have hpt := t.compile_follows Expr.keepsNull_first d s p.limit p.offset
  have hqt := t.compile_follows Expr.keepsNull_second d s q.limit q.offset
  rw [hp] at hpt
  rw [hq] at hqt
  cases ht : t.compile d s with
  | error e =>
    obtain ⟨e', he'⟩ := hpt.eq_error ht
    obtain ⟨e'', he''⟩ := hqt.eq_error ht
    exact .inr ⟨e', e'', he', he''⟩
  | ok c =>
    refine .inl ⟨_, _, hpt.eq_ok ht, hqt.eq_ok ht, ?_⟩
    have hl : p.limit.isSome = q.limit.isSome := by
      simpa [shape] using congrArg (Option.isSome ∘ Plan.limit) h
    have ho : p.offset.isSome = q.offset.isSome := by
      simpa [shape] using congrArg (Option.isSome ∘ Plan.offset) h
    have hpl : p.literals = t.literals.map Expr.first :=
      (congrArg Plan.literals hp).symm.trans (t.literals_mapLiterals Expr.keepsNull_first)
    have hql : q.literals = t.literals.map Expr.second :=
      (congrArg Plan.literals hq).symm.trans (t.literals_mapLiterals Expr.keepsNull_second)
    have hset : p.hasEmptySet = t.hasEmptySet :=
      (congrArg Plan.hasEmptySet hp).symm.trans (t.hasEmptySet_mapLiterals Expr.first)
    have hzip : p.literals.zip q.literals = t.literals.map fun v => (Expr.first v, Expr.second v) := by
      rw [hpl, hql, List.zip_map']
    obtain ⟨hsub, hwhole⟩ := gives_compile ht
    obtain ⟨head, first, second, htext⟩ := exists_text d c
    refine ⟨?_, ?_, ?_, ?_⟩
    · rw [names_mapLiterals, names_mapLiterals, names_renderLimit hl ho]
    · intro hd
      rw [htext, htext]
      rcases hd with rfl | hd
      · rw [limitText_sqlite hl ho]
      · exact congrArg (head ++ limitText d first second ·) hd
    · exact ⟨head, first, second, htext _ _ _, htext _ _ _⟩
    · refine ⟨((c.select.condition.map Condition.values).getD []).map
        fun v => (Expr.first v, Expr.second v), ?_, ?_, ?_, ?_⟩
      · rw [hzip]
        exact hsub.map _
      · intro he
        rw [hzip, hwhole (hset.symm.trans he)]
      · rw [values_mapLiterals, values_renderLimit, List.map_map]
        rfl
      · rw [values_mapLiterals, values_renderLimit, List.map_map]
        rfl

/-! ### A directory -/

/-- People with a name, an age that may be unknown, and friends. -/
def directory : Schema where
  entities := [
    { name := "Person", fields := [
        { name := "id", type := .bigint, primaryKey := true, auto := true },
        { name := "name" },
        { name := "age", type := .int, nullable := true }],
      relationships := [.many ⟨"friends", "Person"⟩] }]

/-- The first few people of a name, or older than all friends of a name. -/
def people (name other : String) (age limit : Int) : Plan where
  entity := "Person"
  predicate := some (.or [.compare (.value (.text name)) .eq (.field "name"),
    .and [.compare (.field "age") .gt (.value (.int age)),
      .not (.inSet (.field "friends.name") [.text other])]])
  limit := some limit

theorem compile_of_shape_people :
    ∃ c c', (people "Ada" "Bob" 30 10).compile .postgresql directory = .ok c ∧
      (people "' OR 1 = 1 --" "" 40 20).compile .postgresql directory = .ok c' ∧
      Alike .postgresql (people "Ada" "Bob" 30 10) (people "' OR 1 = 1 --" "" 40 20)
        (c.statement .postgresql) (c'.statement .postgresql) := by
  obtain ⟨c, hc⟩ := Outcome.exists_ok
    (x := (people "Ada" "Bob" 30 10).compile .postgresql directory) (by decide +kernel)
  rcases Plan.compile_of_shape .postgresql directory
    (p := people "Ada" "Bob" 30 10) (q := people "' OR 1 = 1 --" "" 40 20) rfl with h | ⟨e, _, he, -⟩
  · exact h
  · exact nomatch hc.symm.trans he

/-- A text of PostgreSQL tells a limit of 32 bits from a smaller one, and SQLite is given an offset
where the plan has only a limit. -/
theorem limits_of_people_show :
    directory.Valid ∧ (people "Ada" "Bob" 30 10).shape = (people "Ada" "Bob" 30 2147483648).shape ∧
      (∃ c c', (people "Ada" "Bob" 30 10).compile .postgresql directory = .ok c ∧
        (people "Ada" "Bob" 30 2147483648).compile .postgresql directory = .ok c' ∧
        (c.statement .postgresql).text ≠ (c'.statement .postgresql).text) ∧
      ∃ c, (people "Ada" "Bob" 30 10).compile .sqlite directory = .ok c ∧
        (c.statement .sqlite).values.length = (people "Ada" "Bob" 30 10).literals.length + 2 := by
  refine ⟨by decide +kernel, rfl, ?_, ?_⟩
  · obtain ⟨c, hc⟩ := Outcome.exists_ok
      (x := (people "Ada" "Bob" 30 10).compile .postgresql directory) (by decide +kernel)
    obtain ⟨c', hc'⟩ := Outcome.exists_ok
      (x := (people "Ada" "Bob" 30 2147483648).compile .postgresql directory) (by decide +kernel)
    have htext : ((people "Ada" "Bob" 30 10).compile .postgresql directory).toOption.map
          (fun c => (c.statement .postgresql).text) ≠
        ((people "Ada" "Bob" 30 2147483648).compile .postgresql directory).toOption.map
          (fun c => (c.statement .postgresql).text) := by decide +kernel
    rw [hc, hc'] at htext
    exact ⟨c, c', hc, hc', fun h => htext (congrArg some h)⟩
  · obtain ⟨c, hc⟩ := Outcome.exists_ok
      (x := (people "Ada" "Bob" 30 10).compile .sqlite directory) (by decide +kernel)
    have hlength : ((people "Ada" "Bob" 30 10).compile .sqlite directory).toOption.map
        (fun c => (c.statement .sqlite).values.length) =
          some ((people "Ada" "Bob" 30 10).literals.length + 2) := by decide +kernel
    rw [hc] at hlength
    exact ⟨c, hc, Option.some.inj hlength⟩

end SchemaLedger.Query
