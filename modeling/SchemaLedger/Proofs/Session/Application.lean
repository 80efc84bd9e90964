import SchemaLedger.Proofs.Migration.History
import SchemaLedger.Proofs.Session.Transaction

set_option autoImplicit false

/-!
# Applying a batch

What a migrator's transaction does to the history: it finds nothing pending and leaves the rows alone,
or it applies the first pending batch and adds the row that records it.
-/
namespace SchemaLedger

variable {σ α : Type} {s : Setting σ} {u v w w' : World σ} {c : Nat}
  {k : Archive s.server s.config.dialect}

/-- The statements of steps in a log leave the history table alone. -/
def Archive.Spared {server : Server σ} {d : Dialect} (k : Archive server d) (log : List Event) :
    Prop :=
  ∀ sql text ps, .sent (.ddl sql) text ps ∈ log → k.spares sql

namespace Session

/-- The rows stay the same if all statements of steps leave them alone. -/
def Frame.sparing (k : Archive s.server s.config.dialect) : Frame σ where
  rel w w' := (∀ e ∈ w.log, e ∈ w'.log) ∧
    (k.Spared w'.log → k.rows w'.server = k.rows w.server)
  refl _ := ⟨fun _ h => h, fun _ => rfl⟩
  trans {u v w} h h' := by
    refine ⟨fun e he => h'.1 e (h.1 e he), fun hspared => ?_⟩
    have hv : k.Spared v.log := fun sql text ps he => hspared sql text ps (h'.1 _ he)
    exact (h'.2 hspared).trans (h.2 hv)

theorem Frame.sparing_ddl (k : Archive s.server s.config.dialect) (c : Nat) (sql : String) :
    (Frame.sparing k).Keeps s (send c (.ddl sql)) := by
  refine Frame.keeps_send fun ps w => ⟨(steady_answered _ ps).log, fun hspared => ?_⟩
  rw [log_answered] at hspared
  rw [server_answered]
  exact k.ddl sql ps w.server
    (hspared sql _ ps (List.mem_append_right _ (List.mem_singleton.2 rfl)))

theorem run_failing_eq_ok (version : Int) (step : Nat) (x : Session σ α) (a : α) :
    run (failing version step x) s w = (.ok a, w') ↔ run x s w = (.ok a, w') := by
  rw [failing, run_tryCatch]
  rcases run x s w with ⟨e | b, v⟩
  · simp
  · simp

theorem liftSchema_eq_ok (x : Except SchemaFault α) (a : α) : liftSchema x = .ok a ↔ x = .ok a :=
  Outcome.mapError_eq_ok x _ a

/-! ## The parts of an application -/

/-- A run of steps that succeeds can be replayed on the schema. -/
theorem runSteps_eq_ok {version : Int} {n : Nat} {schema : Schema} {steps : List Step}
    (h : run (runSteps c version n schema steps) s w = (.ok (), w')) :
    ∃ after, Step.applyAll schema steps = .ok after := by
  induction steps generalizing n schema w with
  | nil => exact ⟨schema, rfl⟩
  | cons step rest ih =>
    obtain ⟨after, v, hstep, hrest⟩ := (run_bind_eq_ok _ _ _).1 h
    obtain ⟨_, v', -, happly⟩ := (run_bind_eq_ok _ _ _).1 ((run_failing_eq_ok _ _ _ _).1 hstep)
    rw [run_ofResult] at happly
    have hafter := (liftSchema_eq_ok _ _).1 (congrArg Prod.fst happly)
    obtain ⟨last, hlast⟩ := ih hrest
    exact ⟨last, (Step.applyAll_cons _ _ _ _).2 ⟨after, hafter, hlast⟩⟩

theorem createHistory_eq_ok (k : Archive s.server s.config.dialect)
    (h : run (createHistory c) s w = (.ok (), w')) :
    k.rows w'.server = some ((k.rows w.server).getD []) := by
  obtain ⟨found, v, hfound, h⟩ := (run_bind_eq_ok _ _ _).1 h
  have hvalue := hasHistory_eq_ok k hfound
  have hstill := Frame.keeps_hasHistory (c := c) (Frame.still_send k c) w
  rw [hfound] at hstill
  cases hrows : k.rows w.server with
  | none =>
    rw [hrows] at hvalue
    subst hvalue
    obtain ⟨reply, hcreate⟩ := (run_discard_eq_ok _).1 h
    obtain ⟨ps, -, hreply, rfl⟩ := run_execute_eq_ok.1 hcreate
    rw [server_answered]
    exact k.create ps v.server _ reply (Prod.ext hreply rfl) (hstill.1.trans hrows)
  | some rs =>
    rw [hrows] at hvalue
    subst hvalue
    cases h
    exact hstill.1.trans hrows

theorem exists_createHistory (hk : k.Responsive) {rs : List (List Value)}
    (h : k.rows w.server = some rs) : ∃ w', run (createHistory c) s w = (.ok (), w') := by
  obtain ⟨v, hfound⟩ := exists_hasHistory (c := c) (w := w) hk
  rw [h] at hfound
  refine ⟨v, ?_⟩
  rw [createHistory, run_bind_of_ok hfound]
  rfl

/-- A batch that is applied is recorded after the rows that its steps leave. -/
theorem applyBatch_ran (k : Archive s.server s.config.dialect) {schema : Schema} {b : Batch}
    {r : Applied} (h : run (applyBatch c schema b) s w = (.ok r, w')) :
    r = ⟨b.version, b.name, b.steps, s.now⟩ ∧ ∃ u,
      run (runSteps c b.version 0 schema b.steps) s w = (.ok (), u) ∧ (∀ e ∈ u.log, e ∈ w'.log) ∧
        ∀ rs, k.rows u.server = some rs → (∀ row ∈ rs, HistoryTable.Below b.version row) →
          k.rows w'.server = some (rs ++ [HistoryTable.cells s.config.dialect r]) := by
  obtain ⟨⟨⟩, u, hsteps, h⟩ := (run_bind_eq_ok _ _ _).1 h
  obtain ⟨⟨⟩, v, hcheck, h⟩ := (run_bind_eq_ok _ _ _).1 h
  rw [run_bind_of_ok run_read] at h
  obtain ⟨reply, v', hinsert, h⟩ := (run_bind_eq_ok _ _ _).1 h
  cases h
  have hstill := Frame.keeps_failing b.version b.steps.length
    (Frame.keeps_checkIntegrity (Frame.still_send k c)) u
  have hlogged := Frame.keeps_failing (R := Frame.steady) (s := s) b.version b.steps.length
    (Frame.keeps_checkIntegrity (c := c) fun r _ => Frame.steady_send r) u
  rw [hcheck] at hstill hlogged
  obtain ⟨ps, -, hreply, rfl⟩ := run_execute_eq_ok.1 hinsert
  refine ⟨rfl, u, hsteps, fun e he => (steady_answered _ ps).log e (hlogged.log e he), ?_⟩
  intro rs hrows hbelow
  rw [server_answered]
  exact k.insert _ ps v.server _ reply (Prod.ext hreply rfl) rs (hstill.1.trans hrows) hbelow

theorem applyBatch_eq_ok (k : Archive s.server s.config.dialect) {schema : Schema} {b : Batch}
    {r : Applied} (h : run (applyBatch c schema b) s w = (.ok r, w')) :
    r = ⟨b.version, b.name, b.steps, s.now⟩ ∧ (∃ after, Step.applyAll schema b.steps = .ok after) ∧
      (k.Spared w'.log → ∀ rs, k.rows w.server = some rs →
        (∀ row ∈ rs, HistoryTable.Below b.version row) →
          k.rows w'.server = some (rs ++ [HistoryTable.cells s.config.dialect r])) := by
  obtain ⟨hr, u, hsteps, hlog, hadded⟩ := applyBatch_ran k h
  refine ⟨hr, runSteps_eq_ok hsteps, fun hspared rs hrows hbelow => hadded rs ?_ hbelow⟩
  have hran := Frame.keeps_runSteps (fun sql _ => Frame.sparing_ddl k c sql) b.version 0 schema b.steps w
  rw [hsteps] at hran
  rw [hran.2 fun sql text ps he => hspared sql text ps (hlog _ he), hrows]

/-! ## The next batch -/

/-- What there is to do after the records: nothing, or a batch, which was applied. -/
inductive Next (k : Archive s.server s.config.dialect) (m : Migrator) (w w' : World σ)
    (records : List Applied) : Option Applied → Prop
  | none (pending : m.pending s.now records = .ok [])
      (rows : k.rows w'.server = some ((k.rows w.server).getD [])) : Next k m w w' records none
  | applied (b : Batch) (rest : List Batch) (schema after : Schema)
      (pending : m.pending s.now records = .ok (b :: rest))
      (replay : Applied.schemaAt records = .ok schema)
      (runs : Step.applyAll schema b.steps = .ok after)
      (rows : k.Spared w'.log →
        (∀ row ∈ (k.rows w.server).getD [], HistoryTable.Below b.version row) →
          k.rows w'.server = some ((k.rows w.server).getD [] ++
            [HistoryTable.cells s.config.dialect ⟨b.version, b.name, b.steps, s.now⟩])) :
      Next k m w w' records (some ⟨b.version, b.name, b.steps, s.now⟩)

/-- The next look reads the records, and either finds nothing pending or applies the first batch. -/
theorem applyNext_within (k : Archive s.server s.config.dialect) {R : Frame σ}
    (hlook : ∀ r : Request, r.passive = true → R.Keeps s (send c r))
    (hnew : R.Keeps s (send c .createHistory)) {m : Migrator} {o : Option Applied}
    (h : run (applyNext m c) s w = (.ok o, w')) :
    ∃ records u, k.records w.server = .ok records ∧ R.rel w u ∧
      k.rows u.server = some ((k.rows w.server).getD []) ∧
        (m.pending s.now records = .ok [] ∧ o = none ∧ u = w' ∨
          ∃ b rest schema r, m.pending s.now records = .ok (b :: rest) ∧
            Applied.schemaAt records = .ok schema ∧ o = some r ∧
              run (applyBatch c schema b) s u = (.ok r, w')) := by
  obtain ⟨⟨⟩, u, hcreate, h⟩ := (run_bind_eq_ok _ _ _).1 h
  have hcreated := createHistory_eq_ok k hcreate
  have hfirst := Frame.keeps_createHistory hlook hnew w
  rw [hcreate] at hfirst
  obtain ⟨records, v, hread, h⟩ := (run_bind_eq_ok _ _ _).1 h
  have hrecords := readHistory_eq_ok k hread
  rw [k.records_of_rows hcreated] at hrecords
  have hstill := Frame.keeps_readHistory (c := c) (Frame.still_send k c) u
  have hsecond := Frame.keeps_readHistory hlook u
  rw [hread] at hstill hsecond
  obtain ⟨batches, v', hpending, h⟩ := (run_bind_eq_ok _ _ _).1 h
  rw [pending, run_bind_of_ok run_read, run_ofResult] at hpending
  obtain ⟨hbatches, rfl⟩ := Prod.mk.inj hpending
  refine ⟨records, v, hrecords, R.trans hfirst hsecond, hstill.1.trans hcreated, ?_⟩
  cases batches with
  | nil =>
    cases h
    exact Or.inl ⟨hbatches, rfl, rfl⟩
  | cons b rest =>
    obtain ⟨schema, v', hschema, h⟩ := (run_bind_eq_ok _ _ _).1 h
    rw [run_ofResult] at hschema
    obtain ⟨hreplay, rfl⟩ := Prod.mk.inj hschema
    obtain ⟨r, v', happly, h⟩ := (run_bind_eq_ok _ _ _).1 h
    cases h
    exact Or.inr ⟨b, rest, schema, r, hbatches, (liftSchema_eq_ok _ _).1 hreplay, rfl, happly⟩

theorem applyNext_cases (k : Archive s.server s.config.dialect) {m : Migrator} {o : Option Applied}
    (h : run (applyNext m c) s w = (.ok o, w')) :
    ∃ records u, k.records w.server = .ok records ∧
      k.rows u.server = some ((k.rows w.server).getD []) ∧
        (m.pending s.now records = .ok [] ∧ o = none ∧ u = w' ∨
          ∃ b rest schema r, m.pending s.now records = .ok (b :: rest) ∧
            Applied.schemaAt records = .ok schema ∧ o = some r ∧
              run (applyBatch c schema b) s u = (.ok r, w')) := by
  obtain ⟨records, u, hrecords, -, hrows, hcases⟩ := applyNext_within (R := Frame.steady) k
    (fun r _ => Frame.steady_send r) (Frame.steady_send _) h
  exact ⟨records, u, hrecords, hrows, hcases⟩

theorem applyNext_eq_ok (k : Archive s.server s.config.dialect) {m : Migrator} {o : Option Applied}
    (h : run (applyNext m c) s w = (.ok o, w')) :
    ∃ records, k.records w.server = .ok records ∧ Next k m w w' records o := by
  obtain ⟨records, u, hrecords, hrows, ⟨hpending, rfl, rfl⟩ |
    ⟨b, rest, schema, r, hpending, hreplay, rfl, happly⟩⟩ := applyNext_cases k h
  · exact ⟨records, hrecords, .none hpending hrows⟩
  · obtain ⟨rfl, ⟨after, hafter⟩, hadded⟩ := applyBatch_eq_ok k happly
    exact ⟨records, hrecords, .applied b rest schema after hpending hreplay hafter
      fun hspared hbelow => hadded hspared _ hrows hbelow⟩

theorem sends_applyNext (m : Migrator) (c : Nat) : Sends s c (applyNext m c) :=
  fun R h => Frame.keeps_applyNext (R := R) (fun r _ => h r) m

/-- If nothing is pending, the next look finds nothing. -/
theorem exists_applyNext (hk : k.Responsive) {m : Migrator} {rs : List (List Value)}
    {records : List Applied} (hrows : k.rows w.server = some rs)
    (hrecords : k.records w.server = .ok records) (hpending : m.pending s.now records = .ok []) :
    ∃ w', run (applyNext m c) s w = (.ok none, w') := by
  obtain ⟨u, hcreate⟩ := exists_createHistory (c := c) hk hrows
  have hcreated := createHistory_eq_ok k hcreate
  rw [← k.records_of_rows hcreated] at hrecords
  obtain ⟨v, hread⟩ := exists_readHistory (c := c) hk hrecords
  refine ⟨v, ?_⟩
  have hfound : run (pending m records) s v = (.ok [], v) := by
    rw [pending, run_bind_of_ok run_read, run_ofResult, hpending]
  rw [applyNext, run_bind_of_ok hcreate, run_bind_of_ok hread, run_bind_of_ok hfound, run_pure]

/-! ## Status -/

/-- A database that is up to date has nothing pending. -/
theorem eq_nil_of_upToDate {initialized : Bool} {records : List Applied} {batches : List Batch}
    (h : (MigrationStatus.of initialized records batches).state = .upToDate) : batches = [] := by
  cases initialized with
  | false => cases h
  | true =>
    cases batches with
    | nil => rfl
    | cons b rest => cases h

theorem sends_statusOn (m : Migrator) (c : Nat) : Sends s c (statusOn m c) :=
  fun R h => Frame.keeps_statusOn (R := R) (fun r _ => h r) m

theorem Frame.Lends.keeps_status {R : Frame σ} (h : R.Lends s)
    (hlook : ∀ c, ∀ r : Request, r.passive = true → R.Keeps s (send c r)) (m : Migrator) :
    R.Keeps s (status m) :=
  h.keeps_reading fun c => Frame.keeps_statusOn (hlook c) m

theorem statusOn_eq_ok (k : Archive s.server s.config.dialect) {m : Migrator} {t : MigrationStatus}
    (h : run (statusOn m c) s w = (.ok t, w')) :
    ∃ records batches, k.records w.server = .ok records ∧ m.pending s.now records = .ok batches ∧
      t = .of (k.rows w.server).isSome records batches := by
  obtain ⟨found, u, hfound, h⟩ := (run_bind_eq_ok _ _ _).1 h
  obtain rfl := hasHistory_eq_ok k hfound
  have hstill := Frame.keeps_hasHistory (c := c) (Frame.still_send k c) w
  rw [hfound] at hstill
  obtain ⟨records, v, hread, h⟩ := (run_bind_eq_ok _ _ _).1 h
  have hrecords := readHistory_eq_ok k hread
  rw [k.records_congr hstill.1] at hrecords
  obtain ⟨batches, v', hpending, h⟩ := (run_bind_eq_ok _ _ _).1 h
  rw [pending, run_bind_of_ok run_read, run_ofResult] at hpending
  cases h
  exact ⟨records, batches, hrecords, congrArg Prod.fst hpending, rfl⟩

theorem status_eq_ok (k : Archive s.server s.config.dialect) {m : Migrator} {t : MigrationStatus}
    (hw : k.AtRest w) (h : run (status m) s w = (.ok t, w')) :
    k.AtRest w' ∧ w'.idle ≠ [] ∧ k.rows w'.server = k.rows w.server := by
  obtain ⟨hrest, hidle, hrows, -⟩ := reading_eq_ok (sends_statusOn m)
    (fun c => Frame.keeps_statusOn (c := c) (Frame.still_send k c) m) hw h
  exact ⟨hrest, hidle, hrows⟩

theorem exists_status (hk : k.Responsive) {m : Migrator} {rs : List (List Value)}
    {records : List Applied} {batches : List Batch} (hw : k.AtRest w) (hidle : w.idle ≠ [])
    (hrows : k.rows w.server = some rs) (hrecords : k.records w.server = .ok records)
    (hpending : m.pending s.now records = .ok batches) :
    ∃ w', run (status m) s w = (.ok (.of true records batches), w') := by
  refine exists_reading hk hw hidle fun c u hu => ?_
  have hsame : k.records u.server = k.records w.server := k.records_congr hu
  obtain ⟨v, hfound⟩ := exists_hasHistory (c := c) (w := u) hk
  have hstill := Frame.keeps_hasHistory (c := c) (Frame.still_send k c) u
  rw [hfound] at hstill
  have hv : k.records v.server = .ok records :=
    (k.records_congr hstill.1).trans (hsame.trans hrecords)
  obtain ⟨v', hread⟩ := exists_readHistory (c := c) hk hv
  refine ⟨v', ?_⟩
  have hbatches : run (pending m records) s v' = (.ok batches, v') := by
    rw [pending, run_bind_of_ok run_read, run_ofResult, hpending]
  rw [statusOn, run_bind_of_ok hfound, run_bind_of_ok hread, run_bind_of_ok hbatches, run_pure, hu,
    hrows]
  rfl

end Session

end SchemaLedger
