import SchemaLedger.Migration.HistoryTable
import SchemaLedger.Proofs.Sql.Ddl

set_option autoImplicit false

/-!
# Tables that steps touch

Which tables the statements of a step write to. A step on a schema that has no entity under the name
of the history table touches that table only by an attempt to create it again.
-/
namespace SchemaLedger

open Sql (Statement Table Tables)

/-- Whether two names stand for one table. SQLite does not tell the cases of letters apart. -/
def Dialect.SameTable (d : Dialect) (a b : String) : Prop :=
  match d with
  | .sqlite => a.toList.map Char.toLower = b.toList.map Char.toLower
  | .postgresql => a = b

/-- A name of the history table. -/
def HistoryTable.Named (d : Dialect) (name : String) : Prop := d.SameTable name HistoryTable.name

namespace HistoryTable

variable {d : Dialect}

theorem lower_of_named {name : String} (h : Named d name) :
    name.toList.map Char.toLower = HistoryTable.name.toList := by
  cases d with
  | sqlite => exact h.trans (by decide)
  | postgresql =>
    cases h
    decide

theorem not_named_join (entity link : String) : ¬ Named d (joinEntityName entity link) := by
  intro h
  have hjoin : joinEntityName entity link = entity ++ "_" ++ link ++ "_Man" ++ "y" := by
    rw [String.append_assoc]
    rfl
  have hlower := lower_of_named h
  rw [hjoin, String.toList_append, List.map_append] at hlower
  have hlast := congrArg List.getLast? hlower
  rw [show "y".toList.map Char.toLower = ['y'] by decide, List.getLast?_concat] at hlast
  exact absurd hlast (by decide)

theorem not_named_replacement (entity : String) : ¬ Named d (Sql.Ddl.replacementName entity) := by
  intro h
  have hlower := lower_of_named h
  rw [Sql.Ddl.replacementName, String.toList_append] at hlower
  have hhead : some '_' = HistoryTable.name.toList.head? := congrArg List.head? hlower
  exact absurd hhead (by decide)

end HistoryTable

/-- The tables that a statement changes. -/
def Sql.Statement.targets : Statement → List String
  | .createTable _ t => [t.name]
  | .dropTable name => [name]
  | .addColumn table _ _ | .dropColumn table _ | .addUnique table _ | .dropConstraint table _
  | .dropDefault table _ | .setDefault table _ _ | .changeType table _ _ _ | .fillNulls table _ _
  | .setNotNull table _ | .dropNotNull table _ => [table]
  | .copyRows _ target _ => [target]
  | .renameTable name newName => [name, newName]

/-- No entity is named like the history table. -/
def Schema.Clear (d : Dialect) (s : Schema) : Prop :=
  ∀ n, s.Declares (.entity n) → ¬ HistoryTable.Named d n

namespace Sql.Ddl

open HistoryTable (Named)

variable {d : Dialect} {before after : Schema} {step : Step} {list : List Statement}

/-- The statement leaves the history table alone, or it creates a table under that name. -/
def Careful (d : Dialect) (st : Statement) : Prop :=
  (∀ n ∈ st.targets, ¬ Named d n) ∨ ∃ ts t, st = .createTable ts t ∧ Named d t.name

theorem careful_of_target {st : Statement} {n : String} (h : st.targets = [n])
    (hn : ¬ Named d n) : Careful d st := by
  refine Or.inl ?_
  rw [h]
  exact List.forall_mem_singleton.2 hn

theorem careful_createTable (ts : Tables) (t : Table) : Careful d (.createTable ts t) := by
  by_cases h : Named d t.name
  · exact Or.inr ⟨ts, t, rfl, h⟩
  · exact careful_of_target rfl h

theorem careful_tableOf {ts : Tables} {n : String} {st : Statement} (h : tableOf ts n = .ok st) :
    Careful d st := by
  obtain ⟨t, -, rfl⟩ := (tableOf_eq_ok ts n st).1 h
  exact careful_createTable ts t

theorem name_of_ofEntity {s : Schema} {name : String} {e : Entity} {t : Table}
    (h : Table.ofEntity d s name e = .ok t) : t.name = name := by
  obtain ⟨fields, -, h⟩ := (Outcome.bind_eq_ok _ _ _).1 h
  obtain ⟨references, -, h⟩ := (Outcome.bind_eq_ok _ _ _).1 h
  obtain ⟨foreignKeys, -, h⟩ := (Outcome.bind_eq_ok _ _ _).1 h
  split at h
  · cases h
  · cases h
    rfl

/-- A table is rebuilt under a name of its own, and takes the old name last. -/
theorem careful_rebuild {name : String} {changed : List (String × Expr)} (hn : ¬ Named .sqlite name)
    (h : rebuild before after name changed = .ok list) : ∀ st ∈ list, Careful .sqlite st := by
  obtain ⟨others, old, new, table, hre⟩ := exists_rebuilds h
  have hfresh : ¬ Named .sqlite table.name := by
    rw [name_of_ofEntity hre.built]
    exact HistoryTable.not_named_replacement name
  rw [hre.statements, replacing]
  refine List.forall_mem_cons.2 ⟨careful_createTable _ table, List.forall_mem_append.2 ⟨?_, ?_⟩⟩
  · split
    · exact List.forall_mem_nil _
    · exact List.forall_mem_singleton.2 (careful_of_target rfl hfresh)
  · refine List.forall_mem_cons.2
      ⟨careful_of_target rfl hn, List.forall_mem_singleton.2 (Or.inl ?_)⟩
    exact List.forall_mem_cons.2 ⟨hfresh, List.forall_mem_singleton.2 hn⟩

theorem careful_sqlite (hn : ¬ Named .sqlite step.entityName)
    (h : sqlite before after step = .ok list) : ∀ st ∈ list, Careful .sqlite st := by
  rcases sqlite_cases h with ⟨-, c, target, -, rfl⟩ | ⟨-, changed, -, h⟩
  · exact List.forall_mem_singleton.2 (careful_of_target rfl hn)
  · exact careful_rebuild hn h

theorem targets_of_amends {table : String} {st : Statement} (h : Amends table st) :
    st.targets = [table] := by
  cases st with
  | createTable _ _ | dropTable _ | addColumn _ _ _ | dropColumn _ _ | copyRows _ _ _
  | renameTable _ _ => exact h.elim
  | _ => exact congrArg ([·]) h

theorem careful_postgres (hn : ¬ Named .postgresql step.entityName)
    (h : postgres after step = .ok list) : ∀ st ∈ list, Careful .postgresql st := by
  unfold postgres at h
  split at h
  case h_1 entity f =>
    obtain ⟨column, -, h⟩ := (Outcome.bind_eq_ok _ _ _).1 h
    cases h
    refine List.forall_mem_cons.2 ⟨careful_of_target rfl hn, fun st hst => ?_⟩
    split at hst
    · rw [List.mem_singleton.1 hst]
      exact careful_of_target rfl hn
    · cases hst
  case h_2 entity f =>
    cases h
    exact List.forall_mem_singleton.2 (careful_of_target rfl hn)
  case h_3 entity old new =>
    exact fun st hst => careful_of_target (targets_of_amends (amends_alterColumn h st hst)) hn
  case h_4 entity r =>
    obtain ⟨⟨column, target⟩, -, h⟩ := (Outcome.bind_eq_ok _ _ _).1 h
    cases h
    exact List.forall_mem_singleton.2 (careful_of_target rfl hn)
  case h_5 entity old new =>
    cases h
    refine List.forall_mem_singleton.2 ?_
    split <;> exact careful_of_target rfl hn
  case h_6 entity r =>
    cases h
    exact List.forall_mem_singleton.2 (careful_of_target rfl hn)
  case h_7 =>
    cases h
    exact List.forall_mem_nil _

/-- The entity of a step that can be applied is there, unless the step creates it. -/
theorem declares_entityName (h : step.apply before = .ok after)
    (hcreate : ∀ e, step ≠ .createEntity e) : before.Declares (.entity step.entityName) := by
  by_cases hc : step.isChange = true
  · obtain ⟨e, e', he, -⟩ := (Step.apply_change before after hc).1 h
    by_contra hno
    rw [(Schema.entity?_eq_none before _).2 hno] at he
    cases he
  · cases step with
    | createEntity e => exact absurd rfl (hcreate e)
    | dropEntity e => exact ((Step.apply_dropEntity before after e).1 h).1
    | _ => exact absurd rfl hc

/-- All statements of a step on a schema without such an entity are careful. -/
theorem careful_statements (hclear : before.Clear d) (h : statements d before step = .ok list) :
    ∀ st ∈ list, Careful d st := by
  obtain ⟨after, happly, hcarries⟩ := carries_of_statements h
  have hn : (∀ e, step ≠ .createEntity e) → ¬ Named d step.entityName := fun hcreate =>
    hclear _ (declares_entityName happly hcreate)
  cases hcarries with
  | create _ htables => exact Outcome.forall_of_mapM (fun _ _ hst => careful_tableOf hst) htables
  | drop e =>
    intro st hst
    rcases List.mem_append.1 hst with hst | hst
    · obtain ⟨l, -, rfl⟩ := List.mem_map.1 hst
      exact careful_of_target rfl (HistoryTable.not_named_join _ _)
    · rw [List.mem_singleton.1 hst]
      exact careful_of_target rfl (hn nofun)
  | link _ hst => exact List.forall_mem_singleton.2 (careful_tableOf hst)
  | unlink n l =>
    exact List.forall_mem_singleton.2 (careful_of_target rfl (HistoryTable.not_named_join _ _))
  | alter hchange _ halter =>
    have hname : ¬ Named d step.entityName := hn fun e he => by
      rw [he] at hchange
      cases hchange
    cases d with
    | sqlite => exact careful_sqlite hname halter
    | postgresql => exact careful_postgres hname halter

theorem targets_tableOf {ts : Tables} {n : String} {st : Statement} (h : tableOf ts n = .ok st) :
    st.targets = [n] := by
  obtain ⟨t, ht, rfl⟩ := (tableOf_eq_ok ts n st).1 h
  have hname := List.find?_some (p := fun t : Table => decide (t.name = n)) ht
  exact congrArg ([·]) (of_decide_eq_true hname)

/-- A step that adds an entity creates its table. -/
theorem exists_target_of_adds {n : String} (h : statements d before step = .ok list)
    (hadds : step.Adds (.entity n)) : ∃ st ∈ list, n ∈ st.targets := by
  obtain ⟨after, -, hcarries⟩ := carries_of_statements h
  cases hcarries with
  | @create e _ _ _ htables =>
    obtain ⟨st, others, hst, -, rfl⟩ := Outcome.mapM_cons_eq_ok.1 htables
    have hn : e.name = n := hadds
    refine ⟨st, List.mem_cons_self, ?_⟩
    rw [targets_tableOf hst, hn]
    exact List.mem_singleton.2 rfl
  | alter hchange _ _ =>
    cases step with
    | createEntity e => cases hchange
    | _ => cases hadds
  | _ => cases hadds

/-- The schema after a step is clear if its statements create no table under the name of the history. -/
theorem clear_after (hs : before.names.Nodup) (hclear : before.Clear d)
    (h : statements d before step = .ok list) (happly : step.apply before = .ok after)
    (hlist : ∀ st ∈ list, ∀ n ∈ st.targets, ¬ Named d n) : after.Clear d := by
  intro n hn
  rcases (Step.declares_apply hs happly (.entity n)).1 hn with hadds | ⟨hbefore, -⟩
  · obtain ⟨st, hst, htarget⟩ := exists_target_of_adds h hadds
    exact hlist st hst n htarget
  · exact hclear n hbefore

end Sql.Ddl

end SchemaLedger
