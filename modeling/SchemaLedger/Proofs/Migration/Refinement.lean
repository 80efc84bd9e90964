import SchemaLedger.Proofs.Migration.DiffReplay
import SchemaLedger.Proofs.Schema.Declarations
import SchemaLedger.Proofs.Sql.Alteration
import SchemaLedger.Proofs.Sql.Replacement

set_option autoImplicit false

/-!
# Statements carry out their steps

The statements of each step of a difference lead from the catalog of the schema before the step to that
of the schema after it, with one exception: a reference added in place to an entity whose key has a dot
in its name. The new column refers to the key, but CREATE TABLE takes the part before the last dot for a
table.
-/
namespace SchemaLedger

open Sql (Catalog Statement Tables catalog run)

/-- Whether a step adds a reference in place to a key with a dot in its name. -/
def Step.AddsDotted (d : Dialect) (t : Schema) : Step → Prop
  | .addRelationship _ (.single r) =>
    (d = .postgresql ∨ r.nullable = true) ∧ ∃ k, t.Key r.target k ∧ '.' ∈ k.name.toList
  | _ => False

namespace Sql

variable {d : Dialect} {s t : Schema} {c c' : Catalog} {step : Step} {list : List Statement}

theorem changesColumns_of_change (h : step.isChange = true) (hlink : step.isLink = false) :
    ChangesColumns step := by
  intro x hx
  cases step with
  | createEntity _ | dropEntity _ => cases h
  | addField n f =>
    obtain ⟨⟨⟩⟩ | ⟨⟨⟩⟩ := hx
    exact ⟨f.name, rfl⟩
  | removeField n f =>
    obtain ⟨⟨⟩⟩ | ⟨⟨⟩⟩ := hx
    exact ⟨f.name, rfl⟩
  | alterField n old new =>
    obtain ⟨⟨⟩⟩ | ⟨⟨⟩⟩ := hx
    · exact ⟨old.name, rfl⟩
    · exact ⟨new.name, rfl⟩
  | addRelationship n r =>
    cases r with
    | many l => cases hlink
    | single r =>
      obtain ⟨⟨⟩⟩ | ⟨⟨⟩⟩ := hx
      exact ⟨r.name, rfl⟩
  | removeRelationship n r =>
    cases r with
    | many l => cases hlink
    | single r =>
      obtain ⟨⟨⟩⟩ | ⟨⟨⟩⟩ := hx
      exact ⟨r.name, rfl⟩
  | alterReference n old new =>
    obtain ⟨⟨⟩⟩ | ⟨⟨⟩⟩ := hx
    · exact ⟨old.name, rfl⟩
    · exact ⟨new.name, rfl⟩

section Step

variable (hs : s.Sound) (ht : t.Sound) (hapt : step.Apt s) (happly : step.apply s = .ok t)

include hs ht hapt happly

theorem run_sqlite_iff (hc : catalog .sqlite s = .ok c) (hc' : catalog .sqlite t = .ok c')
    (h : step.isChange = true) (hlink : step.isLink = false)
    (hlist : Ddl.sqlite s t step = .ok list)
    (hrender : ∃ texts, list.mapM (·.render .sqlite) = .ok texts) :
    run .sqlite list c = c' ↔ ¬ step.AddsDotted .sqlite t := by
  rcases Ddl.sqlite_cases hlist with ⟨hin, column, target, hextends, rfl⟩ | ⟨hin, changed, -, hlist⟩
  · cases hextends with
    | @field n f _ hcolumn =>
      refine iff_of_true ?_ id
      have hu : f.unique = false := by
        simp only [Ddl.addsInPlace, Bool.and_eq_true, Bool.not_eq_true'] at hin
        exact hin.2
      have hrun := run_addField hs ht happly hc hc' hcolumn
      rw [hu] at hrun
      exact hrun
    | @reference n r _ _ hcolumn =>
      refine (run_addReference hs ht happly hc hc' hcolumn).trans (not_congr ?_)
      exact (and_iff_right (.inr hin)).symm
  · refine iff_of_true (run_rebuild hs ht hapt happly hc hc' h
      (changesColumns_of_change h hlink) hlist hrender) ?_
    cases step with
    | addRelationship n r =>
      cases r with
      | single r =>
        rintro ⟨hd | hn, -⟩
        · cases hd
        · rw [show r.nullable = false from hin] at hn
          cases hn
      | many l => exact id
    | _ => exact id

theorem run_postgres_iff (hc : catalog .postgresql s = .ok c) (hc' : catalog .postgresql t = .ok c')
    (h : step.isChange = true) (hlink : step.isLink = false)
    (hlist : Ddl.postgres t step = .ok list) :
    run .postgresql list c = c' ↔ ¬ step.AddsDotted .postgresql t := by
  cases step with
  | createEntity _ | dropEntity _ => cases h
  | addField n f =>
    obtain ⟨column, hcolumn, hlist⟩ := (Outcome.bind_eq_ok _ _ _).1 hlist
    cases hlist
    exact iff_of_true (run_addField hs ht happly hc hc' hcolumn) id
  | removeField n f =>
    cases hlist
    exact iff_of_true (run_dropColumn hs ht hapt happly hc hc' rfl rfl rfl hapt rfl) id
  | alterField n old new =>
    exact iff_of_true (run_alterField hs ht hapt happly hc hc' hlist) id
  | addRelationship n r =>
    cases r with
    | many l => cases hlink
    | single r =>
      obtain ⟨⟨column, target⟩, hcolumn, hlist⟩ := (Outcome.bind_eq_ok _ _ _).1 hlist
      cases hlist
      refine (run_addReference hs ht happly hc hc' hcolumn).trans (not_congr ?_)
      exact (and_iff_right (.inl rfl)).symm
  | removeRelationship n r =>
    cases r with
    | many l => cases hlink
    | single r =>
      cases hlist
      exact iff_of_true (run_dropColumn hs ht hapt happly hc hc' rfl rfl rfl hapt rfl) id
  | alterReference n old new =>
    cases hlist
    exact iff_of_true (run_alterReference hs ht hapt happly hc hc') id

/-- What the statements of one step make of a catalog. -/
theorem run_statements_iff (hc : catalog d s = .ok c) (hc' : catalog d t = .ok c')
    (hlist : Ddl.statements d s step = .ok list)
    (hrender : ∃ texts, list.mapM (·.render d) = .ok texts) :
    run d list c = c' ↔ ¬ step.AddsDotted d t := by
  obtain ⟨after, hafter, hcarries⟩ := Ddl.carries_of_statements hlist
  obtain rfl := Except.ok.inj (happly.symm.trans hafter)
  have hcreated : ∀ {ts : Tables} {table : Table} {texts : List String},
      List.mapM (·.render d) [Statement.createTable ts table] = .ok texts →
      ∀ k ∈ table.foreignKeys, ∃ r, ts.resolve k = .ok r := by
    intro ts table texts h
    obtain ⟨text, rest, htext, -⟩ := Outcome.mapM_cons_eq_ok.1 h
    exact resolve_of_createTable htext
  obtain ⟨texts, htexts⟩ := hrender
  cases hcarries with
  | @create e ts _ hts htables =>
    obtain ⟨st, others, hst, hothers, rfl⟩ := Outcome.mapM_cons_eq_ok.1 htables
    rw [show e.links = [] from hapt] at hothers
    cases hothers
    obtain ⟨table, htable, rfl⟩ := (Ddl.tableOf_eq_ok _ _ _).1 hst
    exact iff_of_true
      (run_createEntity hs ht hapt happly hc hc' hts htable (hcreated htexts)) id
  | drop e =>
    rw [hapt.1]
    refine iff_of_true (run_dropTable hs ht hapt happly hc hc' (fun _ => id) fun x hx => ?_) id
    exact table_of_dropEntity hs hapt ((Step.apply_dropEntity s t e).1 happly).1 hx
  | link hts hst =>
    obtain ⟨table, htable, rfl⟩ := (Ddl.tableOf_eq_ok _ _ _).1 hst
    exact iff_of_true (run_addLink hs ht happly hc hc' hts htable (hcreated htexts)) id
  | unlink n l =>
    exact iff_of_true (run_dropTable hs ht hapt happly hc hc' (fun _ => id)
      fun x hx => table_of_removeLink hs hapt hx) id
  | alter hchange hlink halter =>
    cases d with
    | sqlite => exact run_sqlite_iff hs ht hapt happly hc hc' hchange hlink halter ⟨texts, htexts⟩
    | postgresql => exact run_postgres_iff hs ht hapt happly hc hc' hchange hlink halter

end Step

end Sql

namespace Diff

open Step (applyAll)

variable {a b s t : Schema} {down up before after steps : List Step} {step : Step} {d : Dialect}
  {c c' : Catalog}

/-- A dropped entity has lost its many-to-many relationships before. -/
theorem Plan.unlinked (hp : Plan a b down up) (ha : a.Sound) (hb : b.Sound) {e : Entity}
    (hsplit : down ++ up = before ++ .dropEntity e :: after) (hrun : applyAll a before = .ok s)
    (l : ManyLink) : ¬ s.Declares (.relationship e.name (.many l)) := by
  intro hl
  have hgone : ¬ b.Declares (.entity e.name) :=
    (hp.proposed (.dropEntity e) (by simp [hsplit])).2.1
  rcases (hp.declares ha hb hsplit hrun _).1 hl with ⟨st, hst, hadd⟩ | ⟨hla, hleft⟩
  · exact hgone ((hp.proposed st (by simp [hsplit, hst])).declares hadd).owner
  · have hobs : Obsolete a b e.name (.many l) := ⟨hla, fun q hq => absurd hq.owner hgone⟩
    have hin : .removeRelationship e.name (.many l) ∈ down ++ up :=
      List.mem_append_left _ (hp.removed _ ⟨hobs, fun h => by cases h⟩ rfl rfl)
    have hlast := hp.drops_last
    rw [hsplit] at hin hlast
    rcases List.mem_append.1 hin with hin | hin
    · exact hleft _ hin ⟨rfl, rfl⟩
    · rcases List.mem_cons.1 hin with heq | hin
      · cases heq
      · obtain ⟨g, hg⟩ := (List.pairwise_cons.1 (List.pairwise_append.1 hlast).2.1).1 _ hin e rfl rfl
        cases hg

theorem Draft.apt (h : Draft a b down up) (ha : a.Sound) (hb : b.Sound)
    (hsplit : down ++ up = before ++ step :: after) (hrun : applyAll a before = .ok s) :
    step.Apt s := by
  have hin : step ∈ down ++ up := by simp [hsplit]
  have hprop := h.proposed step hin
  have hstill := fun {x} => h.toPlan.still ha hb hsplit hrun (d := x)
  cases step with
  | createEntity e =>
    obtain ⟨-, g, -, rfl⟩ := hprop
    exact g.links_withoutLinks
  | dropEntity e =>
    refine ⟨?_, h.toPlan.unlinked ha hb hsplit hrun⟩
    rcases List.mem_append.1 hin with hdown | hup
    · obtain ⟨g, -, rfl⟩ := h.sources e hdown
      exact g.links_withoutLinks
    · cases h.rises _ hup
  | removeField n f => exact hstill hprop.2.1 rfl
  | alterField n old new =>
    obtain ⟨hold, hnew, hname, hsame⟩ := (h.altered n old new).1 hin
    refine ⟨hstill hold rfl, hname, ?_⟩
    rcases h.migratable n old new hold hnew hname with heq | ⟨hkeeps, -⟩
    · rw [hsame] at heq
      cases heq
    · exact hkeeps
  | removeRelationship n r => exact hstill hprop.1.1 rfl
  | alterReference n old new => exact ⟨hstill hprop.1 rfl, hprop.2.2⟩
  | addField _ _ | addRelationship _ _ => trivial

/-- The statements of a step of a difference lead from one catalog to the next, unless the step adds a
reference in place to a key with a dot in its name. -/
theorem run_statements_diff_iff {texts : List String} (ha : a.Valid) (hb : b.Valid)
    (h : diff a b = .ok steps) (hsplit : steps = before ++ step :: after)
    (hrun : applyAll a before = .ok s) (happly : step.apply s = .ok t)
    (hrender : Sql.Ddl.render d s step = .ok texts) (hc : catalog d s = .ok c)
    (hc' : catalog d t = .ok c') :
    ∃ list, Sql.Ddl.statements d s step = .ok list ∧ list.mapM (·.render d) = .ok texts ∧
      (run d list c = c' ↔ ¬ step.AddsDotted d t) := by
  rw [Schema.valid_iff_sound] at ha hb
  obtain ⟨down, up, rfl, hdraft⟩ := draft_of_diff ha hb h
  have hapt := hdraft.apt ha hb hsplit hrun
  have hs := hdraft.sound ha hb hsplit hrun
  have hnext : down ++ up = (before ++ [step]) ++ after := by simp [hsplit]
  have ht := hdraft.sound ha hb hnext (Step.applyAll_concat hrun happly)
  obtain ⟨list, hlist, htexts⟩ := (Outcome.bind_eq_ok _ _ _).1 hrender
  exact ⟨list, hlist, htexts,
    Sql.run_statements_iff hs ht hapt happly hc hc' hlist ⟨texts, htexts⟩⟩

def plotted : Field := { name := "plot.no", type := .int, primaryKey := true }

def numbered : Field := { name := "no", type := .int, primaryKey := true }

def addressee : Reference := { name := "house", target := "House", nullable := true }

/-- Houses with a dotted key, plots whose name ends the other way, and letters. -/
def street (letter : List Relationship) : Schema where
  entities := [{ name := "House", fields := [plotted] }, { name := "House.plot", fields := [numbered] },
    { name := "Letter", fields := [account], relationships := letter }]

theorem run_statements_diff_iff_street :
    ∃ list c c', Sql.Ddl.statements .sqlite (street [])
        (.addRelationship "Letter" (.single addressee)) = .ok list ∧
      catalog .sqlite (street []) = .ok c ∧
        catalog .sqlite (street [.single addressee]) = .ok c' ∧ run .sqlite list c ≠ c' := by
  obtain ⟨c, hc⟩ := Outcome.exists_ok (x := catalog .sqlite (street [])) (by decide +kernel)
  obtain ⟨c', hc'⟩ := Outcome.exists_ok (x := catalog .sqlite (street [.single addressee]))
    (by decide +kernel)
  obtain ⟨texts, htexts⟩ := Outcome.exists_ok (x := Sql.Ddl.render .sqlite (street [])
    (.addRelationship "Letter" (.single addressee))) (by decide +kernel)
  have hdiff : diff (street []) (street [.single addressee]) =
      .ok [.addRelationship "Letter" (.single addressee)] := rfl
  have happly : Step.apply (street []) (.addRelationship "Letter" (.single addressee)) =
      .ok (street [.single addressee]) :=
    (Step.apply_change _ _ rfl).2 ⟨_, _, rfl, rfl,
      (Entity.sound_iff _).2 ⟨by decide +kernel, by decide +kernel⟩, rfl, by decide +kernel⟩
  obtain ⟨list, hlist, -, hiff⟩ := run_statements_diff_iff (by decide +kernel) (by decide +kernel)
    hdiff (List.nil_append _).symm rfl happly htexts hc hc'
  have hkey : (street [.single addressee]).Key "House" plotted :=
    ⟨⟨_, List.mem_cons_self, rfl, List.mem_singleton_self _⟩, rfl⟩
  exact ⟨list, c, c', hlist, hc, hc', fun heq =>
    hiff.1 heq ⟨.inr rfl, plotted, hkey, by decide⟩⟩

/-! ## Whole batches -/

/-- The keys on the way have the names of those at the goal. -/
theorem Draft.key_on_the_way (h : Draft a b down up) (ha : a.Sound) (hb : b.Sound)
    (hsame : SameKeys a b) (hsplit : down ++ up = before ++ after) (hrun : applyAll a before = .ok s)
    {n : String} {k : Field} (hk : s.Key n k) (hn : b.Declares (.entity n)) :
    ∃ l, b.Key n l ∧ k.name = l.name := by
  obtain ⟨l, hl⟩ := hb.exists_key hn
  rcases (h.toPlan.declares ha hb hsplit hrun _).1 hk.1 with ⟨st, hst, hadd⟩ | ⟨hka, -⟩
  · have hkb := (h.proposed st (by simp [hsplit, hst])).declares hadd
    exact ⟨k, ⟨hkb, hk.2⟩, rfl⟩
  · exact ⟨l, hl, hsame n k l hka hl.1 hk.2 hl.2⟩

theorem Draft.not_addsDotted (h : Draft a b down up) (ha : a.Sound) (hb : b.Sound)
    (hsame : SameKeys a b) (hplain : ∀ n k, b.Key n k → '.' ∉ k.name.toList)
    (hsplit : down ++ up = before ++ step :: after)
    (hrun : applyAll a (before ++ [step]) = .ok t) : ¬ step.AddsDotted d t := by
  have hprop := h.proposed step (by simp [hsplit])
  have hnext : down ++ up = (before ++ [step]) ++ after := by simp [hsplit]
  cases step with
  | addRelationship n r =>
    cases r with
    | many l => exact id
    | single r =>
      rintro ⟨-, k, hk, hdot⟩
      obtain ⟨l, hl, hname⟩ :=
        h.key_on_the_way ha hb hsame hnext hrun hk (hb.targets n _ hprop.1.1)
      exact hplain _ l hl (hname ▸ hdot)
  | _ => exact id

theorem run_rest {texts : List String} {e : Schema} (hdraft : Draft a b down up) (ha : a.Sound)
    (hb : b.Sound) (hsame : SameKeys a b) (hplain : ∀ n k, b.Key n k → '.' ∉ k.name.toList)
    (hcatalogs : ∀ before after s, down ++ up = before ++ after → applyAll a before = .ok s →
      ∃ c, catalog d s = .ok c)
    (rest : List Step) (before : List Step) (s : Schema) (c : Catalog) (out : List String)
    (hsplit : down ++ up = before ++ rest) (hrun : applyAll a before = .ok s)
    (hc : catalog d s = .ok c) (h : rest.foldlM (Batch.renderStep d) (s, out) = .ok (e, texts)) :
    ∃ list more, texts = out ++ more ∧ list.mapM (·.render d) = .ok more ∧
      catalog d e = .ok (run d list c) := by
  induction rest generalizing before s c out with
  | nil =>
    cases h
    exact ⟨[], [], (List.append_nil _).symm, rfl, hc⟩
  | cons step rest ih =>
    obtain ⟨own, t, hown, happly, hrest⟩ := Batch.renderSteps_cons.1 h
    have hnext : down ++ up = (before ++ [step]) ++ rest := by simp [hsplit]
    have hrun' : applyAll a (before ++ [step]) = .ok t := Step.applyAll_concat hrun happly
    obtain ⟨c', hc'⟩ := hcatalogs _ _ t hnext hrun'
    obtain ⟨list, hlist, htexts⟩ := (Outcome.bind_eq_ok _ _ _).1 hown
    have hstep : run d list c = c' :=
      (Sql.run_statements_iff (hdraft.sound ha hb hsplit hrun) (hdraft.sound ha hb hnext hrun')
        (hdraft.apt ha hb hsplit hrun) happly hc hc' hlist ⟨own, htexts⟩).2
        (hdraft.not_addsDotted ha hb hsame hplain hsplit hrun')
    obtain ⟨others, more, rfl, hmore, hend⟩ := ih _ t c' _ hnext hrun' hc' hrest
    refine ⟨list ++ others, own ++ more, List.append_assoc _ _ _, ?_, ?_⟩
    · rw [List.mapM_append, htexts, hmore]
      rfl
    · rw [Sql.run_append, hstep]
      exact hend

/-- The statements of a batch lead to the catalog of the schema it ends in, unless a key has a dot in its
name or some schema on the way has no catalog. -/
theorem run_batch {batch : Batch} {texts : List String} (ha : a.Valid) (hb : b.Valid)
    (h : diff a b = .ok batch.steps) (hplain : ∀ n k, b.Key n k → '.' ∉ k.name.toList)
    (hcatalogs : ∀ before after s, batch.steps = before ++ after → applyAll a before = .ok s →
      ∃ c, catalog d s = .ok c)
    (hc : catalog d a = .ok c) (hrender : batch.render d a = .ok texts) :
    ∃ e list, applyAll a batch.steps = .ok e ∧ list.mapM (·.render d) = .ok texts ∧
      catalog d e = .ok (run d list c) := by
  rw [Schema.valid_iff_sound] at ha hb
  obtain ⟨down, up, hsteps, hdraft⟩ := draft_of_diff ha hb h
  obtain ⟨⟨e, out⟩, hfold, rfl⟩ := (Outcome.map_eq_ok _ _ _).1 hrender
  have hrun := Batch.applyAll_of_renderSteps hfold
  rw [hsteps] at hcatalogs hfold hrun
  have hsame := hdraft.sameKeys ha hb hrun
  obtain ⟨list, more, hmore, hlist, hend⟩ := run_rest hdraft ha hb hsame hplain hcatalogs
    (down ++ up) [] a c [] rfl rfl hc hfold
  rw [hsteps]
  exact ⟨e, list, hrun, by rw [hlist, hmore]; rfl, hend⟩

end Diff

end SchemaLedger
