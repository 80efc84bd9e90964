import SchemaLedger.Proofs.Migration.Supplied
import SchemaLedger.Proofs.Migration.Targets
import SchemaLedger.Proofs.Session.Convergence
import SchemaLedger.Proofs.Session.Rejection

set_option autoImplicit false

/-!
# Histories only grow

Calls of migrators, of whatever kind and however they end, only ever add records behind those that
are there. The versions increase, and the records can be replayed after every call.
-/
namespace SchemaLedger

variable {σ α : Type} {s : Setting σ} {u v w w' : World σ} {c : Nat}
  {k : Archive s.server s.config.dialect} {m : Migrator} {records : List Applied}
  {schema after : Schema} {rs : List (List Value)}

/-! ## Sources of batches -/

namespace Migrator

theorem increasing_iff (versions : List Int) :
    increasing versions = true ↔ versions.Pairwise (· < ·) := by
  induction versions with
  | nil => simp [increasing]
  | cons a rest ih =>
    cases rest with
    | nil => simp [increasing]
    | cons b rest =>
      rw [increasing, Bool.and_eq_true, decide_eq_true_iff, ih, List.pairwise_cons (a := a)]
      refine ⟨fun ⟨hlt, hrest⟩ => ⟨List.forall_mem_cons.2 ⟨hlt, fun x hx => ?_⟩, hrest⟩,
        fun ⟨hall, hrest⟩ => ⟨hall b List.mem_cons_self, hrest⟩⟩
      exact lt_trans hlt ((List.pairwise_cons.1 hrest).1 x hx)

/-- The source passed the checks of its parts: the desired schema is valid, or the versions of the
list increase and its steps hold entities and fields that are valid. -/
def Sound (m : Migrator) : Prop :=
  match m.source with
  | .desired schema => schema.Valid
  | .batches list => increasing (list.map (·.version)) = true ∧ ∀ b ∈ list, ∀ p ∈ b.steps, p.Sound

end Migrator

namespace HistoryTable

variable {d : Dialect}

/-- Every row has the version of a record. -/
theorem exists_record (h : rs.mapM (decode d) = .ok records) :
    ∀ row ∈ rs, ∃ r ∈ records, row.head? = some (.int r.version) := by
  induction rs generalizing records with
  | nil => exact List.forall_mem_nil _
  | cons row rest ih =>
    obtain ⟨r, others, hr, hothers, rfl⟩ := Outcome.mapM_cons_eq_ok.1 h
    refine List.forall_mem_cons.2 ⟨⟨r, List.mem_cons_self, (of_decode hr).1⟩, fun x hx => ?_⟩
    obtain ⟨r', hr', hx'⟩ := ih hothers x hx
    exact ⟨r', List.mem_cons_of_mem r hr', hx'⟩

/-- Every record has the version of a row. -/
theorem exists_row (h : rs.mapM (decode d) = .ok records) :
    ∀ r ∈ records, ∃ row ∈ rs, row.head? = some (.int r.version) := by
  induction rs generalizing records with
  | nil =>
    cases h
    exact List.forall_mem_nil _
  | cons row rest ih =>
    obtain ⟨r, others, hr, hothers, rfl⟩ := Outcome.mapM_cons_eq_ok.1 h
    refine List.forall_mem_cons.2 ⟨⟨row, List.mem_cons_self, (of_decode hr).1⟩, fun x hx => ?_⟩
    obtain ⟨row', hrow', hx'⟩ := ih hothers x hx
    exact ⟨row', List.mem_cons_of_mem row hrow', hx'⟩

/-- The versions of records increase as those of the rows do. -/
theorem versions_increase (hordered : Ordered rs) (h : rs.mapM (decode d) = .ok records) :
    (records.map (·.version)).Pairwise (· < ·) := by
  induction rs generalizing records with
  | nil =>
    cases h
    exact List.Pairwise.nil
  | cons row rest ih =>
    obtain ⟨r, others, hr, hothers, rfl⟩ := Outcome.mapM_cons_eq_ok.1 h
    obtain ⟨hbelow, hrest⟩ := List.pairwise_cons.1 hordered
    refine List.pairwise_cons.2 ⟨fun n hn => ?_, ih hrest hothers⟩
    obtain ⟨r', hr', rfl⟩ := List.mem_map.1 hn
    obtain ⟨row', hrow', hhead'⟩ := exists_row hothers r' hr'
    obtain ⟨n, hn, p, hp, hlt⟩ := hbelow row' hrow'
    rw [hhead'] at hn
    rw [(of_decode hr).1] at hp
    cases hn
    cases hp
    exact hlt

end HistoryTable

namespace Archive

variable {server : Server σ} {d : Dialect} {st : σ}

theorem records_eq (k : Archive server d) (st : σ) :
    k.records st = ((k.rows st).getD []).mapM (HistoryTable.decode d) := by
  unfold Archive.records
  cases k.rows st <;> rfl

theorem ordered_rows (k : Archive server d) (st : σ) :
    HistoryTable.Ordered ((k.rows st).getD []) := by
  cases hrows : k.rows st with
  | none => exact List.Pairwise.nil
  | some rs => exact k.ordered st rs hrows

/-- The first batch of a supplied list that is not recorded comes after all rows. -/
theorem below_supplied (k : Archive server d) (h : k.records st = .ok records) {list : List Batch}
    {b : Batch} {rest : List Batch} (hincreasing : Migrator.increasing (list.map (·.version)) = true)
    (hbegins : records.map Applied.title <+: list.map Batch.title)
    (hb : list.drop records.length = b :: rest) :
    ∀ row ∈ (k.rows st).getD [], HistoryTable.Below b.version row := by
  have hsplit : list = list.take records.length ++ b :: rest := by
    rw [← hb, List.take_append_drop]
  have hversions : records.map (·.version) = (list.take records.length).map (·.version) := by
    have htitles := List.prefix_iff_eq_take.1 hbegins
    rw [List.length_map, ← List.map_take] at htitles
    have hfirst := congrArg (List.map Prod.fst) htitles
    rw [List.map_map, List.map_map] at hfirst
    exact hfirst
  rw [Migrator.increasing_iff, hsplit, List.map_append, List.map_cons, ← hversions] at hincreasing
  intro row hrow
  obtain ⟨r, hr, hhead⟩ := HistoryTable.exists_record ((k.records_eq st).symm.trans h) row hrow
  exact ⟨r.version, hhead, (List.pairwise_append.1 hincreasing).2.2 _
    (List.mem_map_of_mem hr) _ List.mem_cons_self⟩

/-- The batch that is next comes after all rows, and its steps are sound. -/
theorem below_of_pending (k : Archive server d) (h : k.records st = .ok records)
    (hreplay : Applied.schemaAt records = .ok schema) (hm : m.Sound) {now : Timestamp} {b : Batch}
    {rest : List Batch} (hpending : m.pending now records = .ok (b :: rest)) :
    (∀ row ∈ (k.rows st).getD [], HistoryTable.Below b.version row) ∧ ∀ p ∈ b.steps, p.Sound := by
  have hsound := Applied.sound_of_schemaAt (k.sound_of_records h) hreplay
  obtain ⟨source, label⟩ := m
  cases source with
  | desired desired =>
    obtain ⟨-, hversion, hdiff⟩ := Migrator.pending_eq_cons hreplay hpending
    rw [hversion]
    exact ⟨k.below_next h hreplay,
      Diff.sound_of_diff hsound ((Schema.valid_iff_sound desired).1 hm) hdiff⟩
  | batches list =>
    obtain ⟨hbegins, hdrop⟩ := Migrator.pending_supplied_eq_ok.1 hpending
    refine ⟨k.below_supplied h hm.1 hbegins hdrop.symm, hm.2 b ?_⟩
    exact List.mem_of_mem_drop (hdrop ▸ List.mem_cons_self)

end Archive

/-! ## Steps -/

/-- The history table is not touched behind its back: a statement of a step changes its own tables
only, and no second table is created under the name. -/
structure Archive.Guarded {server : Server σ} {d : Dialect} (k : Archive server d) : Prop where
  spares : ∀ before step list st sql, Sql.Ddl.statements d before step = .ok list → st ∈ list →
    st.render d = .ok sql → (∀ n ∈ st.targets, ¬ HistoryTable.Named d n) → k.spares sql
  refuses : ∀ before step list ts t sql, Sql.Ddl.statements d before step = .ok list →
    .createTable ts t ∈ list → (Sql.Statement.createTable ts t).render d = .ok sql →
      HistoryTable.Named d t.name → ∀ ps st rows, k.rows st = some rows →
        (server.answer (.ddl sql) ps st).1.isOk = false

namespace Session

/-- Statements that are accepted leave the history table alone. -/
theorem spared_of_statements (hg : k.Guarded) {before : Schema} {step : Step}
    {all list : List Sql.Statement} {sqls : List String}
    (hall : Sql.Ddl.statements s.config.dialect before step = .ok all)
    (hcareful : ∀ st ∈ all, Sql.Ddl.Careful s.config.dialect st) (hlist : ∀ st ∈ list, st ∈ all)
    (hrender : list.mapM (·.render s.config.dialect) = .ok sqls) (hrows : k.rows w.server = some rs)
    (h : run (sqls.forM fun sql => discard (execute c (.ddl sql))) s w = (.ok ⟨⟩, w')) :
    k.rows w'.server = some rs ∧
      ∀ st ∈ list, ∀ n ∈ st.targets, ¬ HistoryTable.Named s.config.dialect n := by
  induction list generalizing sqls w with
  | nil =>
    cases hrender
    cases h
    exact ⟨hrows, List.forall_mem_nil _⟩
  | cons st rest ih =>
    obtain ⟨sql, others, hsql, hothers, rfl⟩ := Outcome.mapM_cons_eq_ok.1 hrender
    obtain ⟨⟨⟩, v, hfirst, hrest⟩ := (run_bind_eq_ok _ _ _).1 h
    obtain ⟨reply, hexecute⟩ := (run_discard_eq_ok _).1 hfirst
    obtain ⟨ps, -, hreply, rfl⟩ := run_execute_eq_ok.1 hexecute
    have hst := hlist st List.mem_cons_self
    have htargets : ∀ n ∈ st.targets, ¬ HistoryTable.Named s.config.dialect n := by
      rcases hcareful st hst with htargets | ⟨ts, t, rfl, hnamed⟩
      · exact htargets
      · -- The table is there, so that no other one is created in its place.
        have hrefused := hg.refuses before step all ts t sql hall hst hsql hnamed ps w.server rs hrows
        rw [hreply] at hrefused
        cases hrefused
    have hsame := k.ddl sql ps w.server (hg.spares before step all st sql hall hst hsql htargets)
    obtain ⟨hleft, hothers'⟩ := ih (fun st' hst' => hlist st' (List.mem_cons_of_mem st hst')) hothers
      (by rw [server_answered, hsame, hrows]) hrest
    exact ⟨hleft, List.forall_mem_cons.2 ⟨htargets, hothers'⟩⟩

theorem clear_of_runStep (hg : k.Guarded) {step : Step} (hs : schema.Sound)
    (hclear : schema.Clear s.config.dialect) (hrows : k.rows w.server = some rs) {sqls : List String}
    (h : run (runStep c schema step) s w = (.ok sqls, w')) (happly : step.apply schema = .ok after) :
    k.rows w'.server = some rs ∧ after.Clear s.config.dialect := by
  rw [runStep, run_bind_of_ok run_dialect] at h
  obtain ⟨statements, v, hrender, h⟩ := (run_bind_eq_ok _ _ _).1 h
  rw [run_ofResult] at hrender
  obtain ⟨hsqls, rfl⟩ := Prod.mk.inj hrender
  obtain ⟨⟨⟩, v, hsent, h⟩ := (run_bind_eq_ok _ _ _).1 h
  cases h
  obtain ⟨list, hlist, htexts⟩ := (Outcome.bind_eq_ok _ _ _).1 hsqls
  obtain ⟨hleft, htargets⟩ := spared_of_statements hg hlist
    (Sql.Ddl.careful_statements hclear hlist) (fun _ hst => hst) htexts hrows hsent
  exact ⟨hleft, Sql.Ddl.clear_after hs.distinct hclear hlist happly htargets⟩

/-- Steps that run to the end leave the history table alone, and lead to a schema without an entity
under its name. -/
theorem clear_of_runSteps (hg : k.Guarded) {version : Int} {n : Nat} {steps : List Step}
    (hs : schema.Sound) (hsteps : ∀ p ∈ steps, p.Sound) (hclear : schema.Clear s.config.dialect)
    (hrows : k.rows w.server = some rs)
    (h : run (runSteps c version n schema steps) s w = (.ok (), w')) :
    k.rows w'.server = some rs ∧ ∃ after, Step.applyAll schema steps = .ok after ∧
      after.Clear s.config.dialect := by
  induction steps generalizing n schema w with
  | nil =>
    cases h
    exact ⟨hrows, schema, rfl, hclear⟩
  | cons step rest ih =>
    obtain ⟨after, v, hstep, hrest⟩ := (run_bind_eq_ok _ _ _).1 h
    obtain ⟨sqls, v', hran, happly⟩ := (run_bind_eq_ok _ _ _).1 ((run_failing_eq_ok _ _ _ _).1 hstep)
    rw [run_ofResult] at happly
    obtain ⟨hresult, rfl⟩ := Prod.mk.inj happly
    have hafter := (liftSchema_eq_ok _ _).1 hresult
    obtain ⟨hleft, hclear'⟩ := clear_of_runStep hg hs hclear hrows hran hafter
    have hsound := Step.sound_apply_of_sound hs (hsteps step List.mem_cons_self) hafter
    obtain ⟨hleft', last, hlast, hclear''⟩ := ih hsound
      (fun p hp => hsteps p (List.mem_cons_of_mem step hp)) hclear' hleft hrest
    exact ⟨hleft', last, (Step.applyAll_cons _ _ _ _).2 ⟨after, hafter, hlast⟩, hclear''⟩

end Session

/-! ## Rounds -/

/-- A database at rest with a history that can be replayed, to a schema without an entity under the
name of the history table. -/
structure Archive.Holds (k : Archive s.server s.config.dialect) (w : World σ)
    (records : List Applied) (schema : Schema) : Prop extends k.Stands w records schema where
  clear : schema.Clear s.config.dialect

/-- The second history continues the first, and holds. -/
def Archive.Continues (k : Archive s.server s.config.dialect) (w : World σ) (records : List Applied)
    (w' : World σ) : Prop :=
  ∃ later schema, k.Holds w' (records ++ later) schema ∧
    (k.rows w.server).getD [] <+: (k.rows w'.server).getD []

theorem Schema.Clear.congr {d : Dialect} {a b : Schema} (h : a.Clear d) (hnames : b.names = a.names) :
    b.Clear d := by
  intro n hn
  rw [Schema.declares_entity, hnames, ← Schema.declares_entity] at hn
  exact h n hn

namespace Archive

/-- A database without a history table holds the empty history. -/
theorem holds_fresh (hw : k.AtRest w) (h : k.rows w.server = none) :
    k.Holds w [] (Schema.empty.withVersion 0) := by
  refine ⟨⟨hw, ?_, rfl⟩, ?_⟩
  · rw [k.records_eq, h]
    rfl
  · rintro n ⟨e, he, -⟩
    cases he

theorem continues_of_rows (h : k.Holds w records schema) (hrest : k.AtRest w')
    (hrows : (k.rows w'.server).getD [] = (k.rows w.server).getD []) : k.Continues w records w' := by
  have hsame : k.records w'.server = k.records w.server := by
    rw [k.records_eq, k.records_eq, hrows]
  refine ⟨[], schema, ⟨⟨hrest, ?_, ?_⟩, h.clear⟩, hrows ▸ List.prefix_rfl⟩
  · rw [List.append_nil, hsame, h.history]
  · rw [List.append_nil, h.replay]

theorem Continues.trans (h : k.Continues u records v)
    (h' : ∀ later schema, k.Holds v (records ++ later) schema → k.Continues v (records ++ later) w) :
    k.Continues u records w := by
  obtain ⟨later, schema, hv, hrows⟩ := h
  obtain ⟨more, last, hw, hrows'⟩ := h' later schema hv
  rw [List.append_assoc] at hw
  exact ⟨later ++ more, last, hw, hrows.trans hrows'⟩

end Archive

namespace Session

/-- A batch that is applied adds its record to the history, and its row to the table. -/
theorem holds_of_applyBatch (hg : k.Guarded) (h : k.Holds w records schema) {b : Batch}
    (hbelow : ∀ row ∈ (k.rows w.server).getD [], HistoryTable.Below b.version row)
    (hsteps : ∀ p ∈ b.steps, p.Sound) (hu : k.rows u.server = some ((k.rows w.server).getD []))
    {r : Applied} (hrun : run (applyBatch c schema b) s u = (.ok r, v)) (hrest : k.AtRest w')
    (hrows : k.rows w'.server = k.rows v.server) :
    r = ⟨b.version, b.name, b.steps, s.now⟩ ∧
      (k.rows w'.server).getD [] =
        (k.rows w.server).getD [] ++ [HistoryTable.cells s.config.dialect r] ∧
      ∃ last, k.Holds w' (records ++ [r.recorded]) last := by
  obtain ⟨rfl, u', hran, -, hadded⟩ := applyBatch_ran k hrun
  obtain ⟨hleft, after, hafter, hclear⟩ := clear_of_runSteps hg h.toStands.sound hsteps h.clear hu hran
  obtain ⟨last, hlast, hbare⟩ := Step.exists_applyAll_recorded h.toStands.sound hsteps hafter
  have hnames : last.names = after.names := by
    rw [← Schema.bare_names, hbare, Schema.bare_names]
  have hnew := hrows.trans (hadded _ hleft hbelow)
  refine ⟨rfl, by rw [hnew]; rfl, last.withVersion b.version,
    ⟨⟨hrest, k.records_append h.history hsteps hnew, ?_⟩, ?_⟩⟩
  · exact Applied.schemaAt_append h.replay hlast
  · exact hclear.congr hnames

/-- Whatever becomes of a transaction of a migrator, it continues the history. -/
theorem continues_of_round (hk : k.Transactional) (hg : k.Guarded) (hm : m.Sound)
    (h : k.Holds w records schema) :
    k.Continues w records (run (migrating (applyNext m)) s w).2 := by
  obtain ⟨hrest, hsame | ⟨c, u, v, o, hu, hrun, hv⟩⟩ := round_cases hk m h.rest
  · exact Archive.continues_of_rows h hrest (by rw [hsame])
  · obtain ⟨found, u', hfound, hu', hcases⟩ := applyNext_cases k hrun
    rw [k.records_congr hu, h.history] at hfound
    cases hfound
    rw [hu] at hu'
    rcases hcases with ⟨-, -, rfl⟩ | ⟨b, rest, schema', r, hpending, hreplay, -, happly⟩
    · exact Archive.continues_of_rows h hrest (by rw [hv, hu']; rfl)
    · rw [h.replay] at hreplay
      cases hreplay
      obtain ⟨hbelow, hsteps⟩ := k.below_of_pending h.history h.replay hm hpending
      obtain ⟨-, hadded, last, hlast⟩ := holds_of_applyBatch hg h hbelow hsteps hu' happly hrest hv
      exact ⟨_, last, hlast, hadded ▸ List.prefix_append _ _⟩

theorem continues_of_rounds (hk : k.Transactional) (hg : k.Guarded) (hm : m.Sound) (limit : Nat)
    (h : k.Holds w records schema) : k.Continues w records (run (applyRounds m limit) s w).2 := by
  induction limit generalizing w records schema with
  | zero => exact Archive.continues_of_rows h h.rest rfl
  | succ limit ih =>
    have hround := continues_of_round hk hg hm h
    rw [applyRounds, run_bind]
    rcases hrun : run (migrating (applyNext m)) s w with ⟨e | o, v⟩
    · rw [hrun] at hround
      exact hround
    · rw [hrun] at hround
      cases o with
      | none => exact hround
      | some r =>
        refine hround.trans fun later schema hv => ?_
        have hrest := ih hv
        dsimp only
        rw [run_bind]
        rcases hlast : run (applyRounds m limit) s v with ⟨e | apps, v'⟩
        · rw [hlast] at hrest
          exact hrest
        · rw [hlast] at hrest
          exact hrest

/-- Whatever becomes of a call of a migrator, it continues the history. -/
theorem continues_of_call (hk : k.Transactional) (hg : k.Guarded) (hm : m.Sound) (limit : Nat)
    (h : k.Holds w records schema) : k.Continues w records (run (applyPending m limit) s w).2 := by
  obtain ⟨hrest, hrows⟩ := status_cases hk m h.rest
  rw [applyPending, run_bind]
  rcases hstatus : run (status m) s w with ⟨e | t, v⟩
  · rw [hstatus] at hrest hrows
    exact Archive.continues_of_rows h hrest (by rw [hrows])
  · rw [hstatus] at hrest hrows
    have hv := Archive.continues_of_rows h hrest (by rw [hrows])
    dsimp only
    split
    · exact hv
    · exact hv.trans fun later schema hv' => continues_of_rounds hk hg hm limit hv'

end Session

/-! ## Calls -/

/-- Calls of migrators one after the other, at any time, however they end, and from any session. -/
inductive Session.Calls (s : Setting σ) : World σ → World σ → Prop
  | none (w : World σ) : Calls s w w
  | call {w v : World σ} (before : Calls s w v) (m : Migrator) (sound : m.Sound) (limit : Nat)
      (now : Timestamp) : Calls s w (Session.run (applyPending m limit) { s with now } v).2
  | elsewhere {w v v' : World σ} (before : Calls s w v) (tidy : v'.Tidy)
      (server : v'.server = v.server) : Calls s w v'

namespace Session

/-- A history stays what it is at another time. -/
theorem holds_at (k : Archive s.server s.config.dialect) (now : Timestamp) :
    Archive.Holds (s := { s with now }) k w records schema ↔ k.Holds w records schema :=
  ⟨fun h => ⟨⟨⟨h.rest.tidy, h.rest.quiet⟩, h.history, h.replay⟩, h.clear⟩,
    fun h => ⟨⟨⟨h.rest.tidy, h.rest.quiet⟩, h.history, h.replay⟩, h.clear⟩⟩

theorem continues_of_calls (hk : k.Transactional) (hg : k.Guarded) (hcalls : Calls s w w')
    (h : k.Holds w records schema) : k.Continues w records w' := by
  induction hcalls with
  | none => exact Archive.continues_of_rows h h.rest rfl
  | call before m sound limit now ih =>
    refine ih.trans fun later schema hv => ?_
    obtain ⟨more, last, hlast, hrows⟩ := continues_of_call (s := { s with now }) (k := k) hk hg sound
      limit ((holds_at k now).2 hv)
    exact ⟨more, last, (holds_at k now).1 hlast, hrows⟩
  | elsewhere before tidy server ih =>
    refine ih.trans fun later schema hv => ?_
    refine Archive.continues_of_rows hv ⟨tidy, ?_⟩ (by rw [server])
    rw [server]
    exact hv.rest.quiet

/-- From a database without history, whatever migrators are called in whatever order and whatever the
database refuses: a history can be read after every call, its versions increase, it can be replayed,
and what was recorded before stays as it was, row by row. -/
theorem history_grows (hk : k.Transactional) (hg : k.Guarded) (hw : k.AtRest w)
    (hfresh : k.rows w.server = none) (hu : Calls s w u) (hv : Calls s u v) :
    ∃ records later schema, k.records u.server = .ok records ∧
      k.records v.server = .ok (records ++ later) ∧
      ((records ++ later).map (·.version)).Pairwise (· < ·) ∧
      Applied.schemaAt (records ++ later) = .ok schema ∧
      (k.rows u.server).getD [] <+: (k.rows v.server).getD [] := by
  have hstart := Archive.holds_fresh hw hfresh
  obtain ⟨records, schema, hmiddle, -⟩ := continues_of_calls hk hg hu hstart
  obtain ⟨later, last, hend, hrows⟩ := continues_of_calls hk hg hv hmiddle
  rw [List.nil_append] at hmiddle hend
  refine ⟨records, later, last, hmiddle.history, hend.history, ?_, hend.replay, hrows⟩
  exact HistoryTable.versions_increase (k.ordered_rows v.server)
    ((k.records_eq v.server).symm.trans hend.history)

end Session

/-! ## A notebook that guards its table -/

namespace Notebook

/-- A text without quotation marks and capitals. -/
def plain (cs : List Char) : List Char := (cs.filter (· ≠ '"')).map Char.toLower

/-- Whether a statement creates a table under the name of the history table. -/
def claims (sql : String) : Bool :=
  (plain "CREATE TABLE ".toList ++ HistoryTable.name.toList).isPrefixOf (plain sql.toList)

theorem plain_append (a b : List Char) : plain (a ++ b) = plain a ++ plain b := by
  simp [plain]

/-- A name of the history table holds no quotation mark, so that quoting it adds nothing else. -/
theorem plain_quote {name : String} (h : HistoryTable.Named .sqlite name) :
    plain (Sql.quote .sqlite name).toList = HistoryTable.name.toList := by
  have hlower := HistoryTable.lower_of_named h
  have hmarks : ∀ x ∈ name.toList, x ≠ '"' := by
    rintro _ hx rfl
    have hmark : '"' ∈ HistoryTable.name.toList := hlower ▸ List.mem_map.2 ⟨_, hx, by decide⟩
    exact absurd hmark (by decide)
  have hname : plain name.toList = HistoryTable.name.toList := by
    rw [plain, List.filter_eq_self.2 fun x hx => decide_eq_true (hmarks x hx), hlower]
  unfold Sql.quote
  split
  · have hescape : name.toList.flatMap (Sql.escapeChar .sqlite) = name.toList := by
      rw [List.flatMap_congr (g := fun x => [x]) fun x hx => ?_, List.flatMap_singleton']
      rw [Sql.escapeChar, if_neg (hmarks x hx), if_neg nofun]
    rw [Sql.quoted, String.toList_ofList, hescape, ← hname]
    simp [plain]
  · exact hname

theorem claims_createTable {ts : Sql.Tables} {t : Sql.Table} {sql : String}
    (h : (Sql.Statement.createTable ts t).render .sqlite = .ok sql)
    (hnamed : HistoryTable.Named .sqlite t.name) : claims sql = true := by
  obtain ⟨uniques, -, h⟩ := (Outcome.bind_eq_ok _ _ _).1 h
  obtain ⟨foreignKeys, -, h⟩ := (Outcome.bind_eq_ok _ _ _).1 h
  obtain ⟨rest, rfl⟩ : ∃ rest, sql = "CREATE TABLE " ++ Sql.quote .sqlite t.name ++ rest :=
    ⟨_, (Except.ok.inj h).symm.trans (by simp only [String.append_assoc]; rfl)⟩
  rw [claims, String.toList_append, String.toList_append, plain_append, plain_append,
    plain_quote hnamed]
  exact List.isPrefixOf_iff_prefix.2 (List.prefix_append _ _)

/-- The answers of a notebook that has no second table under the name of the history table. -/
def guard (r : Request) (ps : List (String × Sql.Bound)) (b : Notebook) :
    Except DriverError Reply × Notebook :=
  match r with
  | .ddl sql => if claims sql && b.table.1.isSome then (.error refusal, b) else (.ok {}, b)
  | r => answer r ps b

def guarded : Server Notebook := { server with answer := guard }

theorem guard_eq {r : Request} (h : ∀ sql, r ≠ .ddl sql) (ps : List (String × Sql.Bound))
    (b : Notebook) : guard r ps b = answer r ps b := by
  cases r with
  | ddl sql => exact absurd rfl (h sql)
  | _ => rfl

theorem guard_ddl (sql : String) (ps : List (String × Sql.Bound)) (b : Notebook) :
    (guard (.ddl sql) ps b).2 = b := by
  rw [guard]
  split <;> rfl

def guardedArchive : Archive guarded .sqlite where
  rows := archive.rows
  kept := archive.kept
  quiet := archive.quiet
  spares := archive.spares
  settled := archive.settled
  ordered := archive.ordered
  connect := archive.connect
  passive r ps b h := by
    cases r with
    | ddl sql => cases h
    | _ => exact archive.passive _ ps b h
  foreignKeys := archive.foreignKeys
  journal := archive.journal
  columns := archive.columns
  temporary := archive.temporary
  table := archive.table
  select := archive.select
  create := archive.create
  insert := archive.insert
  ddl sql ps b _ := congrArg (fun b : Notebook => b.table.1) (guard_ddl sql ps b)
  commit := archive.commit
  rollback := archive.rollback

/-- What is written inside of a transaction leaves it open. -/
theorem write_inside {b : Notebook} (h : b.inside = true) (t : Table) :
    (write t b).inside = true ∧ (write t b).kept = b.kept := by
  rw [write, if_pos h]
  exact ⟨rfl, rfl⟩

theorem guard_inside {b : Notebook} (h : b.inside = true) (r : Request)
    (ps : List (String × Sql.Bound)) :
    (guard r ps b).2.inside = true ∧ (guard r ps b).2.kept = b.kept := by
  cases r with
  | ddl sql =>
    rw [guard_ddl]
    exact ⟨h, rfl⟩
  | begin immediate =>
    rw [guard_eq (fun _ h => by cases h), answer, if_pos h]
    exact ⟨h, rfl⟩
  | createHistory =>
    rw [guard_eq (fun _ h => by cases h), answer]
    split
    · exact ⟨h, rfl⟩
    · exact write_inside h blank
  | insert i =>
    rw [guard_eq (fun _ h => by cases h), answer]
    split
    · exact write_inside h _
    · exact ⟨h, rfl⟩
  | _ => exact ⟨h, rfl⟩

theorem transactional : guardedArchive.Transactional where
  unreachable _ _ _ h := by cases h
  unbegun immediate ps b e h hq := by
    have hanswer : (guard (.begin immediate) ps b).1 = .ok {} := by
      rw [guard_eq (fun _ h => by cases h), answer, if_neg (Bool.eq_false_iff.1 hq)]
    cases hanswer.symm.trans h
  begun immediate ps b reply h hq := by
    have hopen : (guard (.begin immediate) ps b).2.inside = true := by
      rw [guard_eq (fun _ h => by cases h), answer]
      split
      case isTrue hinside => exact hinside
      case isFalse => rfl
    exact Bool.false_ne_true (hq.symm.trans hopen)
  locked h := by cases h
  lasts r ps b _ hq := by
    have hinside : b.inside = true := Bool.eq_true_of_not_eq_false hq
    obtain ⟨hopen, hkept⟩ := guard_inside hinside r ps
    exact ⟨fun hquiet => Bool.false_ne_true (hquiet.symm.trans hopen), congrArg Subtype.val hkept⟩
  uncommitted _ _ _ h := by cases h

theorem guards : guardedArchive.Guarded where
  spares _ _ _ _ _ _ _ _ _ := trivial
  refuses before step list ts t sql _ _ hsql hnamed ps b rows hrows := by
    have hthere : b.table.1.isSome = true := by
      rw [show b.table.1 = some rows from hrows]
      rfl
    have hanswer : guard (.ddl sql) ps b = (.error refusal, b) := by
      rw [guard, claims_createTable hsql hnamed, hthere]
      rfl
    exact congrArg (fun x => x.1.isOk) hanswer

def guardedSetting : Setting Notebook := { setting with server := guarded }

end Notebook

namespace Session

/-- A list with an entity that wants the name of the history table. -/
def claiming : List Batch :=
  [⟨1, "one", [.createEntity (Migrator.keyed "Note")]⟩,
    ⟨2, "two", [.createEntity (Migrator.keyed HistoryTable.name)]⟩]

theorem sound_keyed (name : String) : (Migrator.keyed name).Sound where
  members := List.nodup_singleton _
  fields := List.forall_mem_singleton.2 ⟨rfl, by decide +kernel, fun _ => ⟨rfl, rfl⟩, fun _ => ⟨rfl, rfl⟩, nofun⟩
  references := nofun
  key := ⟨_, rfl⟩

/-- The second batch of the list is refused, and a migrator of another kind goes on after the first. -/
theorem history_grows_claiming :
    let supplied : Migrator := ⟨.batches claiming, "auto"⟩
    let derived : Migrator := ⟨.desired { entities := [Migrator.keyed "Post"] }, "auto"⟩
    let u := (run (applyPending supplied 1) Notebook.guardedSetting { server := Notebook.fresh }).2
    let u' := (run (applyPending supplied 1) Notebook.guardedSetting u).2
    let v := (run (applyPending derived 1) Notebook.guardedSetting u').2
    (Notebook.guardedArchive.rows u.server).map (·.length) = some 1 ∧
      ∃ records later schema, Notebook.guardedArchive.records u.server = .ok records ∧
        Notebook.guardedArchive.records v.server = .ok (records ++ later) ∧
        ((records ++ later).map (·.version)).Pairwise (· < ·) ∧
        Applied.schemaAt (records ++ later) = .ok schema ∧
        (Notebook.guardedArchive.rows u.server).getD [] <+:
          (Notebook.guardedArchive.rows v.server).getD [] := by
  intro supplied derived u u' v
  have hsound : supplied.Sound := ⟨rfl, List.forall_mem_cons.2
    ⟨List.forall_mem_singleton.2 (sound_keyed _),
      List.forall_mem_singleton.2 (List.forall_mem_singleton.2 (sound_keyed _))⟩⟩
  refine ⟨by decide +kernel, history_grows (s := Notebook.guardedSetting) Notebook.transactional
    Notebook.guards (w := { server := Notebook.fresh }) ⟨nofun, rfl⟩ rfl ?_ ?_⟩
  · exact .call (.none _) supplied hsound 1 .epoch
  · exact .call (.call (.none _) supplied hsound 1 .epoch) derived (show Schema.Valid _ by decide +kernel) 1 .epoch

end Session

end SchemaLedger
