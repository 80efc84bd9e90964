import SchemaLedger.Migration.Batch
import SchemaLedger.Proofs.Migration.Effect
import SchemaLedger.Proofs.Outcome

set_option autoImplicit false

/-!
# The statements of a step

What the statements of a step are when there are any: a column added in place, a table put in the place
of another one, or changes of one column. The statements of a batch are those of its steps, each rendered
on the schema that the steps before it lead to.
-/
namespace SchemaLedger

namespace Sql.Ddl

variable {d : Dialect} {before after : Schema} {step : Step} {list : List Statement}

theorem replacementName_ne (n : String) : replacementName n ≠ n := by
  intro h
  have hlength := congrArg String.length h
  rw [replacementName, String.length_append] at hlength
  exact absurd hlength (by simp)

/-- The statements that put a new table in the place of an old one. -/
def replacing (others : Tables) (table : Table) (name : String) (copied : List (String × Expr)) :
    List Statement :=
  .createTable (others ++ [table]) table ::
    ((if copied.isEmpty then [] else [.copyRows name table.name copied]) ++
      [.dropTable name, .renameTable table.name name])

/-- The parts of a rebuild: the table of the new entity, made among the old tables. -/
structure Rebuilds (before after : Schema) (name : String) (changed : List (String × Expr))
    (others : Tables) (old new : Entity) (table : Table) (list : List Statement) : Prop where
  tables : Tables.ofSchema .sqlite before = .ok others
  source : before.entity? name = some old
  goal : after.entity? name = some new
  free : others.find? (replacementName name) = none
  built : Table.ofEntity .sqlite after (replacementName name) new = .ok table
  statements : list = replacing others table name (copiedColumns old new changed)

theorem exists_rebuilds {name : String} {changed : List (String × Expr)}
    (h : rebuild before after name changed = .ok list) :
    ∃ others old new table, Rebuilds before after name changed others old new table list := by
  obtain ⟨others, hothers, h⟩ := (Outcome.bind_eq_ok _ _ _).1 h
  obtain ⟨new, hnew, h⟩ := (Outcome.bind_eq_ok _ _ _).1 h
  split at h
  · cases h
  rename_i hfree
  obtain ⟨table, htable, h⟩ := (Outcome.bind_eq_ok _ _ _).1 h
  obtain ⟨old, hold, h⟩ := (Outcome.bind_eq_ok _ _ _).1 h
  have entity? : ∀ {s : Schema} {e : Entity}, liftSchema (s.entity name) = .ok e →
      s.entity? name = some e := fun h =>
    (Schema.entity_eq_ok _ _ _).1 ((Outcome.mapError_eq_ok _ _ _).1 h)
  refine ⟨others, old, new, table, hothers, entity? hold, entity? hnew, ?_, htable, ?_⟩
  · exact Option.not_isSome_iff_eq_none.1 hfree
  · simpa [replacing] using (Except.ok.inj h).symm

/-- Whether SQLite carries the step out by adding a column. -/
def addsInPlace : Step → Bool
  | .addField _ f => (f.nullable || f.hasDefault) && !f.unique
  | .addRelationship _ (.single r) => r.nullable
  | _ => false

/-- The column that a step adds to a table, and what it refers to. -/
inductive Extends (d : Dialect) (after : Schema) : Step → Column → Option (String × String) → Prop
  | field {n : String} {f : Field} {c : Column} (h : addedColumn d f = .ok c) :
    Extends d after (.addField n f) c none
  | reference {n : String} {r : Reference} {c : Column} {target : String × String}
    (h : addedReference after r = .ok (c, target)) :
    Extends d after (.addRelationship n (.single r)) c (some target)

/-- The values that a step gives to columns that a rebuild copies. -/
inductive Changes : Step → List (String × Expr) → Prop
  | altered {n : String} {old new : Field} {v : Expr} (h : alteredValue old new = .ok v) :
    Changes (.alterField n old new) [(new.name, v)]
  | same {step : Step} (h : ∀ n old new, step ≠ .alterField n old new) : Changes step []

theorem sqlite_cases (h : sqlite before after step = .ok list) :
    (addsInPlace step = true ∧ ∃ c target, Extends .sqlite after step c target ∧
      list = [.addColumn step.entityName c target]) ∨
    (addsInPlace step = false ∧ ∃ changed, Changes step changed ∧
      rebuild before after step.entityName changed = .ok list) := by
  unfold sqlite at h
  split at h
  case h_1 entity f =>
    split at h
    · rename_i hin
      obtain ⟨c, hc, h⟩ := (Outcome.bind_eq_ok _ _ _).1 h
      cases h
      exact .inl ⟨hin, c, none, .field hc, rfl⟩
    · rename_i hin
      exact .inr ⟨Bool.eq_false_iff.2 hin, [], .same fun _ _ _ => Step.noConfusion, h⟩
  case h_2 entity r =>
    split at h
    · rename_i hin
      obtain ⟨⟨c, target⟩, hc, h⟩ := (Outcome.bind_eq_ok _ _ _).1 h
      cases h
      exact .inl ⟨hin, c, some target, .reference hc, rfl⟩
    · rename_i hin
      exact .inr ⟨Bool.eq_false_iff.2 hin, [], .same fun _ _ _ => Step.noConfusion, h⟩
  case h_3 entity old new =>
    obtain ⟨v, hv, h⟩ := (Outcome.bind_eq_ok _ _ _).1 h
    exact .inr ⟨rfl, _, .altered hv, h⟩
  case h_4 hfield href halter =>
    refine .inr ⟨?_, [], .same halter, h⟩
    cases step with
    | addField n f => exact absurd rfl (hfield n f)
    | addRelationship n r =>
      cases r with
      | single r => exact absurd rfl (href n r)
      | many l => rfl
    | _ => rfl

theorem tableOf_eq_ok (ts : Tables) (n : String) (st : Statement) :
    tableOf ts n = .ok st ↔ ∃ t, ts.find? n = some t ∧ st = .createTable ts t := by
  unfold tableOf
  cases ts.find? n with
  | none => simp
  | some t => simp [eq_comm]

/-! ## Changes of one column -/

/-- A statement about the default or the rows of a column, which leaves the column as it is. -/
inductive Upkeep (entity column : String) : Statement → Prop
  | dropDefault : Upkeep entity column (.dropDefault entity column)
  | setDefault (literal : String) : Upkeep entity column (.setDefault entity column literal)
  | fillNulls (literal : String) : Upkeep entity column (.fillNulls entity column literal)

def dropsUnique (old new : Field) : Bool := !new.primaryKey && old.unique && !new.unique

def addsUnique (old new : Field) : Bool := !new.primaryKey && !old.unique && new.unique

/-- The statements that change the nullability of a column, once its nulls are filled. -/
def nullability (entity : String) (old new : Field) : List Statement :=
  if old.nullable && !new.nullable then [.setNotNull entity new.name]
  else if new.nullable && !old.nullable then [.dropNotNull entity new.name]
  else []

/-- The statements that change the type of a column. -/
def retyping (entity : String) (old new : Field) : List Statement :=
  if old.type ≠ new.type then
    [.changeType entity new.name new.type
      (Conversion.expression .postgresql new.name old.type new.type)]
  else []

theorem alterColumn_cases {entity : String} {old new : Field}
    (h : alterColumn entity old new = .ok list) :
    ∃ dropped filled, (∀ st ∈ dropped ++ filled, Upkeep entity new.name st) ∧
      list = (if dropsUnique old new then
            [.dropConstraint entity (uniqueConstraintName entity new.name)] else []) ++
          dropped ++ retyping entity old new ++ filled ++ nullability entity old new ++
        (if addsUnique old new then [addUnique entity new.name] else []) := by
  unfold alterColumn at h
  extract_lets column typeChanged defaultChanged dropped retyped at h
  obtain ⟨default, -, h⟩ := (Outcome.bind_eq_ok _ _ _).1 h
  extract_lets set filled nulls changes at h
  have hdropped : ∀ st ∈ dropped, Upkeep entity new.name st := by
    simp only [dropped]
    split
    · exact List.forall_mem_singleton.2 .dropDefault
    · exact List.forall_mem_nil _
  have hset : ∀ st ∈ set, Upkeep entity new.name st := by
    simp only [set]
    split
    · split
      · exact List.forall_mem_singleton.2 (.setDefault _)
      · exact List.forall_mem_nil _
    · exact List.forall_mem_nil _
  have hfilled : ∀ st ∈ filled, Upkeep entity new.name st := by
    simp only [filled]
    split
    · exact List.forall_mem_singleton.2 (.fillNulls _)
    · exact List.forall_mem_nil _
  have hretyped : retyped = retyping entity old new := by simp [retyped, typeChanged, retyping, column]
  have hnulls : ∃ fills, (∀ st ∈ fills, Upkeep entity new.name st) ∧
      nulls = fills ++ nullability entity old new := by
    simp only [nulls, nullability]
    split
    · exact ⟨filled, hfilled, rfl⟩
    · exact ⟨[], List.forall_mem_nil _, rfl⟩
  obtain ⟨fills, hfills, hnulls⟩ := hnulls
  refine ⟨dropped, set ++ fills, List.forall_mem_append.2
    ⟨hdropped, List.forall_mem_append.2 ⟨hset, hfills⟩⟩, ?_⟩
  have hchanges : changes = dropped ++ retyping entity old new ++ (set ++ fills) ++
      nullability entity old new := by
    simp only [changes, hretyped, hnulls, List.append_assoc]
  rw [hchanges] at h
  cases hk : new.primaryKey <;> cases ho : old.unique <;> cases hn : new.unique <;>
    simp [hk, ho, hn, dropsUnique, addsUnique, column] at h ⊢ <;> exact h.symm

/-- A statement that changes a column or a constraint of a table and keeps both table and columns. -/
def Amends (table : String) : Statement → Prop
  | .addUnique t _ | .dropConstraint t _ | .dropDefault t _ | .setDefault t _ _
  | .changeType t _ _ _ | .fillNulls t _ _ | .setNotNull t _ | .dropNotNull t _ => t = table
  | _ => False

theorem amends_alterColumn {entity : String} {old new : Field}
    (h : alterColumn entity old new = .ok list) : ∀ st ∈ list, Amends entity st := by
  obtain ⟨dropped, filled, hupkeep, rfl⟩ := alterColumn_cases h
  have hkeep : ∀ st ∈ dropped ++ filled, Amends entity st := by
    intro st hst
    cases hupkeep st hst <;> exact rfl
  have hif : ∀ {p : Prop} [Decidable p] {st : Statement}, Amends entity st →
      ∀ st' ∈ (if p then [st] else []), Amends entity st' := by
    intro p _ st hst
    split
    · exact List.forall_mem_singleton.2 hst
    · exact List.forall_mem_nil _
  obtain ⟨hdropped, hfilled⟩ := List.forall_mem_append.1 hkeep
  have hnulls : ∀ st ∈ nullability entity old new, Amends entity st := by
    rw [nullability]
    split
    · exact List.forall_mem_singleton.2 rfl
    · exact hif rfl
  simp only [List.forall_mem_append]
  exact ⟨⟨⟨⟨⟨hif rfl, hdropped⟩, hif rfl⟩, hfilled⟩, hnulls⟩, hif rfl⟩

/-! ## All statements of a step -/

/-- The statements that carry out a step: tables come or go, or the table of one entity is changed. -/
inductive Carries (d : Dialect) (before after : Schema) : Step → List Statement → Prop
  | create {e : Entity} {ts : Tables} {list : List Statement}
    (hts : Tables.ofSchema d after = .ok ts)
    (h : (e.name :: e.links.map fun l => joinEntityName e.name l.name).mapM (tableOf ts) = .ok list) :
    Carries d before after (.createEntity e) list
  | drop (e : Entity) : Carries d before after (.dropEntity e)
      (e.links.map (fun l => .dropTable (joinEntityName e.name l.name)) ++ [.dropTable e.name])
  | link {n : String} {l : ManyLink} {ts : Tables} {st : Statement}
    (hts : Tables.ofSchema d after = .ok ts) (h : tableOf ts (joinEntityName n l.name) = .ok st) :
    Carries d before after (.addRelationship n (.many l)) [st]
  | unlink (n : String) (l : ManyLink) :
    Carries d before after (.removeRelationship n (.many l)) [.dropTable (joinEntityName n l.name)]
  | alter {step : Step} {list : List Statement} (hchange : step.isChange = true)
    (hlink : step.isLink = false) (h : alterEntity d before after step = .ok list) :
    Carries d before after step list

theorem carries_of_statements (h : statements d before step = .ok list) :
    ∃ after, step.apply before = .ok after ∧ Carries d before after step list := by
  obtain ⟨after, hafter, h⟩ := (Outcome.bind_eq_ok _ _ _).1 h
  refine ⟨after, (Outcome.mapError_eq_ok _ _ _).1 hafter, ?_⟩
  cases step with
  | createEntity e =>
    obtain ⟨ts, hts, h⟩ := (Outcome.bind_eq_ok _ _ _).1 h
    exact .create hts h
  | dropEntity e =>
    cases h
    exact .drop e
  | addRelationship n r =>
    cases r with
    | single r => exact .alter rfl rfl h
    | many l =>
      obtain ⟨ts, hts, h⟩ := (Outcome.bind_eq_ok _ _ _).1 h
      obtain ⟨st, hst, rfl⟩ := (Outcome.map_eq_ok _ _ _).1 h
      exact .link hts hst
  | removeRelationship n r =>
    cases r with
    | single r => exact .alter rfl rfl h
    | many l =>
      cases h
      exact .unlink n l
  | addField _ _ | removeField _ _ | alterField _ _ _ | alterReference _ _ _ => exact .alter rfl rfl h

end Sql.Ddl

/-! ## Batches -/

namespace Batch

variable {d : Dialect} {c : Schema}

theorem renderSteps_cons {step : Step} {steps : List Step} {sqls : List String}
    {end' : Schema × List String} :
    (step :: steps).foldlM (renderStep d) (c, sqls) = .ok end' ↔
      ∃ list after, Sql.Ddl.render d c step = .ok list ∧ step.apply c = .ok after ∧
        steps.foldlM (renderStep d) (after, sqls ++ list) = .ok end' := by
  rw [List.foldlM_cons, Outcome.bind_eq_ok]
  constructor
  · rintro ⟨state, hstate, hrest⟩
    obtain ⟨list, hlist, hstate⟩ := (Outcome.bind_eq_ok _ _ _).1 hstate
    obtain ⟨after, hafter, hstate⟩ := (Outcome.bind_eq_ok _ _ _).1 hstate
    cases hstate
    exact ⟨list, after, hlist, (Outcome.mapError_eq_ok _ _ _).1 hafter, hrest⟩
  · rintro ⟨list, after, hlist, hafter, hrest⟩
    refine ⟨(after, sqls ++ list), ?_, hrest⟩
    refine (Outcome.bind_eq_ok _ _ _).2 ⟨list, hlist, (Outcome.bind_eq_ok _ _ _).2 ⟨after, ?_, rfl⟩⟩
    exact (Outcome.mapError_eq_ok _ _ _).2 hafter

/-- A batch that can be rendered can be applied. -/
theorem applyAll_of_renderSteps {steps : List Step} {sqls : List String}
    {end' : Schema × List String} (h : steps.foldlM (renderStep d) (c, sqls) = .ok end') :
    Step.applyAll c steps = .ok end'.1 := by
  induction steps generalizing c sqls with
  | nil =>
    cases h
    rfl
  | cons step rest ih =>
    obtain ⟨list, after, -, hafter, hrest⟩ := renderSteps_cons.1 h
    exact (Step.applyAll_cons _ _ _ _).2 ⟨after, hafter, ih hrest⟩

end Batch

end SchemaLedger
