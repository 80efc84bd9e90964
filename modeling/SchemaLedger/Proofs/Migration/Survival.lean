import SchemaLedger.Proofs.Migration.DiffReplay
import SchemaLedger.Proofs.Sql.Ddl
import SchemaLedger.Proofs.Sql.Table

set_option autoImplicit false

/-!
# Columns that survive

A difference leaves the rows of what both schemas have. PostgreSQL drops neither the table of such an
entity nor such a column. SQLite drops the table only when a new one holds the rows, each column copied
as it is or as the new declaration of its field wants it.
-/
namespace SchemaLedger

open Sql (Expr Statement Table Tables)

/-- A field or a single reference of an entity. -/
def Schema.HasColumn (s : Schema) (n c : String) : Prop :=
  (∃ f, s.Declares (.field n f) ∧ f.name = c) ∨
    ∃ r, s.Declares (.relationship n (.single r)) ∧ r.name = c

theorem Schema.hasColumn_iff {s : Schema} (hs : s.names.Nodup) {e : Entity} (he : e ∈ s.entities)
    (c : String) : s.HasColumn e.name c ↔ c ∈ e.columnNames := by
  rw [HasColumn, Entity.mem_columnNames]
  simp only [declares_field hs he, declares_relationship hs he, Entity.mem_references]

theorem Sql.defaultLiteral_eq_none {d : Dialect} {f : Field} (h : defaultLiteral d f = .ok none) :
    f.hasDefault = false := by
  unfold defaultLiteral at h
  split at h
  · rename_i hnull
    simpa [Field.hasDefault] using hnull
  · split at h
    · cases h
    · split at h <;> cases h
    · cases h
    · obtain ⟨text, -, h⟩ := (Outcome.map_eq_ok _ _ _).1 h
      cases h
    · split at h <;> cases h

namespace Diff

open Step (applyAll)

/-- A column of both schemas: a field, or a reference to the same entity. -/
inductive Shared (a b : Schema) (n c : String) : Prop
  | field {f g : Field} (hf : a.Declares (.field n f)) (hg : b.Declares (.field n g))
    (hfc : f.name = c) (hgc : g.name = c)
  | reference {r q : Reference} (hr : a.Declares (.relationship n (.single r)))
    (hq : b.Declares (.relationship n (.single q))) (hrc : r.name = c) (hqc : q.name = c)
    (ht : r.target = q.target)

/-- The value of a column under the new type of its field. -/
def Converts (c : String) (old new : Field) (v : Expr) : Prop :=
  old.type = new.type ∧ v = .column c ∨
    old.type ≠ new.type ∧ v = Sql.Conversion.expression .sqlite c old.type new.type

/-- What a rebuild copies column `c` as. A field that may no longer be null has its default for null. -/
inductive CopiedAs (c : String) : Step → Expr → Prop
  | same {step : Step} (h : ∀ n old new, step = .alterField n old new → new.name ≠ c) :
    CopiedAs c step (.column c)
  | converted {n : String} {old new : Field} {v : Expr} (hc : new.name = c)
    (hnull : new.nullable = true ∨ new.hasDefault = false) (hv : Converts c old new v) :
    CopiedAs c (.alterField n old new) v
  | filled {n : String} {old new : Field} {v : Expr} {literal : String} (hc : new.name = c)
    (hnull : new.nullable = false) (hdefault : Sql.defaultLiteral .sqlite new = .ok (some literal))
    (hv : Converts c old new v) :
    CopiedAs c (.alterField n old new) (.call "COALESCE" [v, .literal literal])

/-- What the statements of a step do for column `c` of entity `n`. -/
def Preserves (n c : String) (step : Step) (list : List Statement) : Dialect → Prop
  | .postgresql => .dropTable n ∉ list ∧ .dropColumn n c ∉ list
  | .sqlite => .dropColumn n c ∉ list ∧ (.dropTable n ∈ list →
      ∃ (others : Tables) (table : Table) (columns : List (String × Expr)) (v : Expr),
        list = [.createTable others table, .copyRows n table.name columns, .dropTable n,
          .renameTable table.name n] ∧
        table.name ≠ n ∧ c ∈ table.columnNames ∧ columns.filter (·.1 = c) = [(c, v)] ∧
          CopiedAs c step v)

variable {a b s t : Schema} {down up before after steps : List Step} {step : Step}
  {d : Dialect} {list : List Statement} {n c : String}

/-! ## Columns on the way -/

theorem Shared.owners (h : Shared a b n c) : a.Declares (.entity n) ∧ b.Declares (.entity n) := by
  cases h with
  | field hf hg _ _ => exact ⟨hf.owner, hg.owner⟩
  | reference hr hq _ _ _ => exact ⟨hr.owner, hq.owner⟩

/-- A step that takes a field of both schemas away puts another of its name in its place. -/
theorem Proposes.field_replaced (hprop : Proposes a b step) {f g : Field}
    (hg : b.Declares (.field n g)) (hn : f.name = g.name) (hrem : step.Removes (.field n f)) :
    ∃ i, step.Adds (.field n i) ∧ i.name = f.name := by
  cases step with
  | dropEntity e => exact absurd ((show n = e.name from hrem) ▸ hg.owner) hprop.2.1
  | removeField m i =>
    obtain ⟨rfl, hi⟩ := hrem
    exact absurd (hn.symm.trans hi) (hprop.2.2 g hg)
  | alterField m old new =>
    obtain ⟨rfl, hi⟩ := hrem
    exact ⟨new, rfl, hprop.2.2.1.symm.trans hi.symm⟩
  | _ => exact hrem.elim

theorem Proposes.reference_replaced (ha : a.Sound) (hprop : Proposes a b step) {r q : Reference}
    (hr : a.Declares (.relationship n (.single r))) (hq : b.Declares (.relationship n (.single q)))
    (hn : r.name = q.name) (ht : r.target = q.target)
    (hrem : step.Removes (.relationship n (.single r))) :
    ∃ i, step.Adds (.relationship n (.single i)) ∧ i.name = r.name := by
  cases step with
  | dropEntity e => exact absurd ((show n = e.name from hrem) ▸ hq.owner) hprop.2.1
  | removeRelationship m i =>
    obtain ⟨rfl, hi⟩ := hrem
    exact absurd hi.symm (hprop.1.not_altered ha hr hq hn ht)
  | alterReference m old new =>
    obtain ⟨rfl, hi⟩ := hrem
    exact ⟨new, rfl, hprop.2.2.1.symm.trans hi.symm⟩
  | _ => exact hrem.elim

/-- A shared column is there at every moment of the run. -/
theorem Plan.keeps_column (hp : Plan a b down up) (ha : a.Sound) (hb : b.Sound)
    (hsplit : down ++ up = before ++ after) (hrun : applyAll a before = .ok t)
    (hc : Shared a b n c) : t.HasColumn n c := by
  have hprop : ∀ st ∈ before, Proposes a b st := fun st hst =>
    hp.proposed st (by rw [hsplit]; exact List.mem_append_left _ hst)
  have hdecl := hp.declares ha hb hsplit hrun
  cases hc with
  | @field f g hf hg hfc hgc =>
    refine .inl ?_
    by_cases hrem : ∃ st ∈ before, st.Removes (.field n f)
    · obtain ⟨st, hst, hrem⟩ := hrem
      obtain ⟨i, hadd, hi⟩ := (hprop st hst).field_replaced hg (hfc.trans hgc.symm) hrem
      exact ⟨i, (hdecl _).2 (.inl ⟨st, hst, hadd⟩), hi.trans hfc⟩
    · push Not at hrem
      exact ⟨_, (hdecl _).2 (.inr ⟨hf, hrem⟩), hfc⟩
  | @reference r q hr hq hrc hqc ht =>
    refine .inr ?_
    by_cases hrem : ∃ st ∈ before, st.Removes (.relationship n (.single r))
    · obtain ⟨st, hst, hrem⟩ := hrem
      obtain ⟨i, hadd, hi⟩ :=
        (hprop st hst).reference_replaced ha hr hq (hrc.trans hqc.symm) ht hrem
      exact ⟨i, (hdecl _).2 (.inl ⟨st, hst, hadd⟩), hi.trans hrc⟩
    · push Not at hrem
      exact ⟨_, (hdecl _).2 (.inr ⟨hr, hrem⟩), hrc⟩

/-- No step removes a shared column for good. -/
theorem Proposes.spares (ha : a.Sound) (hprop : Proposes a b step) (hc : Shared a b n c) :
    (∀ f, step = .removeField n f → f.name ≠ c) ∧
      ∀ r, step = .removeRelationship n (.single r) → r.name ≠ c := by
  constructor
  · rintro f rfl rfl
    cases hc with
    | field hf hg hfc hgc => exact hprop.2.2 _ hg hgc
    | reference hr hq hrc hqc ht =>
      obtain ⟨e, he, rfl, hfm⟩ := hprop.2.1
      rw [Schema.declares_relationship ha.distinct he] at hr
      exact (ha.entities e he).apart hfm hr hrc.symm
  · rintro r rfl rfl
    cases hc with
    | field hf hg hfc hgc =>
      obtain ⟨e, he, rfl, hfm⟩ := hf
      have hr := hprop.1.1
      rw [Schema.declares_relationship ha.distinct he] at hr
      exact (ha.entities e he).apart hfm hr hfc
    | reference hr hq hrc hqc ht =>
      exact hprop.1.not_altered ha hr hq (hrc.trans hqc.symm) ht hrc.symm

/-! ## The statements of a step -/

/-- Statements that take nothing away need to copy nothing. -/
theorem preserves_of_spared (htable : .dropTable n ∉ list) (hcolumn : .dropColumn n c ∉ list) :
    Preserves n c step list d := by
  cases d with
  | postgresql => exact ⟨htable, hcolumn⟩
  | sqlite => exact ⟨hcolumn, fun h => absurd h htable⟩

theorem filter_copiedColumns {old new : Entity} (changed : List (String × Expr))
    (hd : new.columnNames.Nodup) (hold : c ∈ old.columnNames) (hnew : c ∈ new.columnNames) :
    (Sql.Ddl.copiedColumns old new changed).filter (·.1 = c) =
      [(c, (Entries.get? c changed).getD (.column c))] := by
  have honce : (new.columnNames.filter (· ∈ old.columnNames)).filter (· = c) = [c] := by
    have hcount : (new.columnNames.filter (· ∈ old.columnNames)).count c = 1 :=
      List.count_eq_one_of_mem (hd.filter _) (List.mem_filter.2 ⟨hnew, by simpa using hold⟩)
    have heq := List.filter_eq (l := new.columnNames.filter (· ∈ old.columnNames)) c
    rw [hcount] at heq
    simpa using heq
  rw [Sql.Ddl.copiedColumns, List.filter_map]
  exact congrArg (List.map _) honce

theorem converts_converted (old new : Field) :
    Converts new.name old new (if old.type = new.type then .column new.name
      else Sql.Conversion.expression .sqlite new.name old.type new.type) := by
  split
  · exact .inl ⟨‹_›, rfl⟩
  · exact .inr ⟨‹_›, rfl⟩

theorem copiedAs_of_alteredValue {old new : Field} {v : Expr}
    (h : Sql.Ddl.alteredValue old new = .ok v) :
    CopiedAs new.name (.alterField n old new) v := by
  unfold Sql.Ddl.alteredValue at h
  extract_lets converted at h
  obtain ⟨default, hdefault, h⟩ := (Outcome.bind_eq_ok _ _ _).1 h
  have hconv : Converts new.name old new converted := converts_converted old new
  split at h
  case h_1 hnull =>
    cases h
    exact .filled rfl hnull hdefault hconv
  case h_2 hother =>
    rw [← Except.ok.inj h]
    refine .converted rfl ?_ hconv
    by_cases hnull : new.nullable = true
    · exact .inl hnull
    · refine .inr (Sql.defaultLiteral_eq_none (hdefault.trans (congrArg Except.ok ?_)))
      exact Option.eq_none_iff_forall_ne_some.2 fun literal hl =>
        hother literal hl (Bool.eq_false_iff.2 hnull)

theorem copiedAs_of_changes {changed : List (String × Expr)} (h : Sql.Ddl.Changes step changed) :
    CopiedAs c step ((Entries.get? c changed).getD (.column c)) := by
  cases h with
  | same hno => exact .same fun m old new heq => absurd heq (hno m old new)
  | @altered m old new v hv =>
    by_cases hc : new.name = c
    · have hget : (Entries.get? c [(new.name, v)]).getD (.column c) = v := by
        simp [Entries.get?, hc]
      rw [hget, ← hc]
      exact copiedAs_of_alteredValue hv
    · have hget : (Entries.get? c [(new.name, v)]).getD (.column c) = .column c := by
        simp [Entries.get?, hc]
      rw [hget]
      exact .same fun _ _ _ heq => by
        cases heq
        exact hc

/-- On PostgreSQL only the removal of a column drops one, and no step about a member drops a table. -/
theorem drops_postgres (h : Sql.Ddl.postgres t step = .ok list) :
    (∀ m, .dropTable m ∉ list) ∧ ∀ m x, .dropColumn m x ∈ list →
      (∃ f, step = .removeField m f ∧ f.name = x) ∨
        ∃ r, step = .removeRelationship m r ∧ r.name = x := by
  unfold Sql.Ddl.postgres at h
  split at h
  case h_1 m f =>
    obtain ⟨column, -, h⟩ := (Outcome.bind_eq_ok _ _ _).1 h
    cases h
    simp [Sql.Ddl.addUnique]
  case h_2 m f =>
    cases h
    simp
  case h_3 m old new =>
    have hall := Sql.Ddl.amends_alterColumn h
    exact ⟨fun k hk => (hall _ hk).elim, fun k x hk => (hall _ hk).elim⟩
  case h_4 m r =>
    obtain ⟨⟨column, target⟩, -, h⟩ := (Outcome.bind_eq_ok _ _ _).1 h
    cases h
    simp
  case h_5 m old new =>
    cases h
    split <;> simp
  case h_6 m r =>
    cases h
    simp
  case h_7 =>
    cases h
    simp

theorem preserves_rebuild {changed : List (String × Expr)} (hs : s.Sound) (ht : t.Sound)
    (hold : s.HasColumn n c) (hnew : t.HasColumn n c) (hchanged : Sql.Ddl.Changes step changed)
    (h : Sql.Ddl.rebuild s t step.entityName changed = .ok list) :
    Preserves n c step list .sqlite := by
  obtain ⟨others, old, new, table, hre⟩ := Sql.Ddl.exists_rebuilds h
  have hlist := hre.statements
  refine ⟨?_, fun hdrop => ?_⟩
  · rw [hlist, Sql.Ddl.replacing]
    split <;> simp
  · have hn : step.entityName = n := by
      rw [hlist, Sql.Ddl.replacing] at hdrop
      split at hdrop <;> simpa [eq_comm] using hdrop
    rw [hn] at hre hlist
    obtain ⟨hom, hon⟩ := (Schema.entity?_eq_some hs.distinct _ _).1 hre.source
    obtain ⟨hnm, hnn⟩ := (Schema.entity?_eq_some ht.distinct _ _).1 hre.goal
    have hcold := (Schema.hasColumn_iff hs.distinct hom c).1 (hon ▸ hold)
    have hcnew := (Schema.hasColumn_iff ht.distinct hnm c).1 (hnn ▸ hnew)
    have htable := Sql.Table.ofEntity_of_eq_ok ht hre.built
    have hcopied := filter_copiedColumns changed
      (ht.entities new hnm).columnNames hcold hcnew
    have hne : (Sql.Ddl.copiedColumns old new changed).isEmpty = false := by
      rw [List.isEmpty_eq_false_iff]
      intro hnil
      rw [hnil] at hcopied
      cases hcopied
    refine ⟨others ++ [table], table, _, _, ?_, ?_, (htable.columnNames c).2 hcnew, hcopied,
      copiedAs_of_changes hchanged⟩
    · rw [hlist, Sql.Ddl.replacing, hne]
      rfl
    · rw [htable.name]
      exact Sql.Ddl.replacementName_ne n

theorem preserves_statements (hs : s.Sound) (ht : t.Sound) (happly : step.apply s = .ok t)
    (hold : s.HasColumn n c) (hnew : t.HasColumn n c)
    (hstays : ∀ e, step = .dropEntity e → e.name ≠ n ∧ e.links = [])
    (hfield : ∀ f, step = .removeField n f → f.name ≠ c)
    (href : ∀ r, step = .removeRelationship n (.single r) → r.name ≠ c)
    (hlink : ∀ m l, step = .removeRelationship m (.many l) → joinEntityName m l.name ≠ n)
    (h : Sql.Ddl.statements d s step = .ok list) : Preserves n c step list d := by
  obtain ⟨after, hafter, hcarries⟩ := Sql.Ddl.carries_of_statements h
  obtain rfl := Except.ok.inj (happly.symm.trans hafter)
  have hcreate : ∀ {ts : Tables} {m : String} {st : Statement}, Sql.Ddl.tableOf ts m = .ok st →
      st ≠ .dropTable n ∧ st ≠ .dropColumn n c := by
    intro ts m st hst
    obtain ⟨t, -, rfl⟩ := (Sql.Ddl.tableOf_eq_ok _ _ _).1 hst
    exact ⟨nofun, nofun⟩
  cases hcarries with
  | create _ htables =>
    have hall := Outcome.forall_of_mapM (fun _ _ hst => hcreate hst) htables
    exact preserves_of_spared (fun hm => (hall _ hm).1 rfl) fun hm => (hall _ hm).2 rfl
  | drop e =>
    obtain ⟨hn, hlinks⟩ := hstays _ rfl
    rw [hlinks]
    exact preserves_of_spared (by simpa [eq_comm] using hn) (by simp)
  | link _ hst =>
    obtain ⟨hn, hc⟩ := hcreate hst
    exact preserves_of_spared (by simpa [eq_comm] using hn) (by simpa [eq_comm] using hc)
  | unlink m l =>
    have hn := hlink _ _ rfl
    exact preserves_of_spared (by simpa [eq_comm] using hn) (by simp)
  | alter _ hmany halter =>
    cases d with
    | sqlite =>
      rcases Sql.Ddl.sqlite_cases halter with
        ⟨-, column, target, -, rfl⟩ | ⟨-, changed, hchanged, hrebuild⟩
      · exact preserves_of_spared (by simp) (by simp)
      · exact preserves_rebuild hs ht hold hnew hchanged hrebuild
    | postgresql =>
      obtain ⟨htable, hcolumn⟩ := drops_postgres halter
      refine preserves_of_spared (htable n) fun hm => ?_
      rcases hcolumn n c hm with ⟨f, rfl, hf⟩ | ⟨r, rfl, hr⟩
      · exact hfield f rfl hf
      · cases r with
        | single r => exact href r rfl hr
        | many l => cases hmany

/-- Of a column of both schemas no step of their difference loses the rows. -/
theorem preserves_shared {texts : List String} (ha : a.Valid) (hb : b.Valid)
    (h : diff a b = .ok steps) (hsplit : steps = before ++ step :: after)
    (hrun : applyAll a before = .ok s) (hrender : Sql.Ddl.render d s step = .ok texts)
    (hc : Shared a b n c) :
    ∃ list, Sql.Ddl.statements d s step = .ok list ∧ list.mapM (·.render d) = .ok texts ∧
      Preserves n c step list d := by
  rw [Schema.valid_iff_sound] at ha hb
  obtain ⟨down, up, rfl, hdraft⟩ := draft_of_diff ha hb h
  have hp := hdraft.toPlan
  have hprop := hp.proposed step (by simp [hsplit])
  obtain ⟨list, hlist, htexts⟩ := (Outcome.bind_eq_ok _ _ _).1 hrender
  obtain ⟨t, hafter, -⟩ := (Outcome.bind_eq_ok _ _ _).1 hlist
  have happly := (Outcome.mapError_eq_ok _ _ _).1 hafter
  have hnext : down ++ up = (before ++ [step]) ++ after := by simp [hsplit]
  have hrun' : applyAll a (before ++ [step]) = .ok t := Step.applyAll_concat hrun happly
  have hs := hp.sound ha hb hsplit hrun
  refine ⟨list, hlist, htexts, preserves_statements hs (hp.sound ha hb hnext hrun') happly
    (hp.keeps_column ha hb hsplit hrun hc) (hp.keeps_column ha hb hnext hrun' hc) ?_
    (hprop.spares ha hc).1 (hprop.spares ha hc).2 ?_ hlist⟩
  · rintro e rfl
    refine ⟨fun hn => hprop.2.1 (hn ▸ hc.owners.2), ?_⟩
    have hdown : .dropEntity e ∈ down := by
      rcases List.mem_append.1 (hsplit ▸ List.mem_append_right _ List.mem_cons_self) with hin | hin
      · exact hin
      · cases hp.rises _ hin
    obtain ⟨g, -, rfl⟩ := hdraft.sources e hdown
    exact g.links_withoutLinks
  · rintro m l rfl hn
    have hl := hp.still ha hb hsplit hrun hprop.1.1 rfl
    exact hs.unshadowed m l hl (hn ▸ hp.keeps_entity ha hb hsplit hrun hc.owners.1 hc.owners.2)

/-- A mark in words, which may be missing, and one in points. -/
def mark : Field := { name := "mark", nullable := true }

def points : Field := { name := "mark", type := .int, default := .int 0 }

/-- Notes with a mark of either kind. -/
def notes (f : Field) : Schema where
  entities := [{ name := "Note", fields := [account, f] }]

theorem preserves_shared_mark :
    ∃ texts list, Sql.Ddl.render .sqlite (notes mark) (.alterField "Note" mark points) = .ok texts ∧
      Sql.Ddl.statements .sqlite (notes mark) (.alterField "Note" mark points) = .ok list ∧
        list.mapM (·.render .sqlite) = .ok texts ∧
          Preserves "Note" "mark" (.alterField "Note" mark points) list .sqlite := by
  obtain ⟨texts, htexts⟩ := Outcome.exists_ok
    (x := Sql.Ddl.render .sqlite (notes mark) (.alterField "Note" mark points)) (by decide +kernel)
  have hdiff : diff (notes mark) (notes points) = .ok [.alterField "Note" mark points] := rfl
  have hmark : ∀ f, (notes f).Declares (.field "Note" f) := fun f =>
    ⟨_, List.mem_singleton_self _, rfl, List.mem_cons_of_mem _ (List.mem_singleton_self _)⟩
  obtain ⟨list, hlist, hrender, hpreserves⟩ := preserves_shared (by decide +kernel)
    (by decide +kernel) hdiff (List.nil_append _).symm rfl htexts
    (.field (hmark mark) (hmark points) rfl rfl)
  exact ⟨texts, list, htexts, hlist, hrender, hpreserves⟩

end Diff

end SchemaLedger
