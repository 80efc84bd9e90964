import SchemaLedger.Command.Run
import SchemaLedger.Proofs.Migration.File
import SchemaLedger.Proofs.Session.Race
import SchemaLedger.Proofs.Session.Script

set_option autoImplicit false

/-!
# Statements shown and statements run

The statements of a list of batches can be shown before any of them is run: one batch after the other
is rendered on the schema that those before it lead to. A migrator starts each batch from the history
instead, and sends the same statements.
-/
namespace SchemaLedger

/-! ## Statements shown -/

namespace Batch

variable {d : Dialect}

/-- Each batch is rendered on the schema that those before it lead to. -/
inductive Previews (d : Dialect) : Schema → List Batch → List (List String) → Prop
  | nil (before : Schema) : Previews d before [] []
  | cons {before after : Schema} {b : Batch} {sqls : List String} {rest : List Batch}
      {chunks : List (List String)} (rendered : b.render d before = .ok sqls)
      (applied : Step.applyAll before b.steps = .ok after)
      (others : Previews d (after.withVersion b.version) rest chunks) :
      Previews d before (b :: rest) (sqls :: chunks)

theorem Previews.runnable {before : Schema} {list : List Batch} {chunks : List (List String)}
    (h : Previews d before list chunks) (hs : ∀ b ∈ list, b.Storable) : Runnable d before list := by
  induction h with
  | nil => trivial
  | cons rendered applied others ih =>
    obtain ⟨hb, hrest⟩ := List.forall_mem_cons.1 hs
    refine ⟨by rw [rendered]; rfl, fun next hnext => ?_⟩
    rw [Step.map_recorded_self hb, applied] at hnext
    cases hnext
    exact ih hrest

end Batch

namespace Command

variable {d : Dialect}

theorem renderBatches_eq_ok {before : Schema} {list : List Batch} {chunks : List (List String)} :
    renderBatches d none false before list = .ok chunks ↔ Batch.Previews d before list chunks := by
  induction list generalizing before chunks with
  | nil =>
    constructor
    · intro h
      cases h
      exact .nil before
    · rintro ⟨⟩
      rfl
  | cons b rest ih =>
    simp only [renderBatches, Outcome.bind_eq_ok, Session.liftSchema_eq_ok, Outcome.map_eq_ok,
      true_or, not_true_eq_false, if_false, Bool.false_eq_true]
    constructor
    · rintro ⟨_, ⟨after, happly, rfl⟩, _, ⟨sqls, hsqls, rfl⟩, others, hothers, h⟩
      cases h
      exact .cons hsqls happly (ih.1 hothers)
    · intro h
      cases h with
      | cons rendered applied others =>
        exact ⟨_, ⟨_, applied, rfl⟩, _, ⟨_, rendered, rfl⟩, _, ih.2 others, rfl⟩

theorem statements_of_previews {list : List Batch} {chunks : List (List String)}
    (h : Batch.Previews d .empty list chunks) (path : String) :
    statements d path none false list = .ok chunks.flatten := by
  rw [statements, renderBatches_eq_ok.2 h]
  rfl

/-- The answer to the command that shows the statements of a file. -/
theorem answer_of_previews {σ : Type} {server : Server σ} {p : Preferences} {now : Timestamp}
    {files : Files} {path : String} {chosen : Option Dialect} {st : σ} {list : List Batch}
    {chunks : List (List String)} (h : Batch.Previews d .empty list chunks)
    (hload : load files path = .ok list) (hd : dialectOf p chosen = .ok d) :
    (run server p now files (.sql path chosen none false) st).answer =
      .statements chunks.flatten := by
  simp only [run, hload, hd, bind, Except.bind, statements_of_previews h]
  rfl

end Command

/-! ## Statements run -/

/-- Whether a request is about the history table, which a migrator keeps for itself. -/
def Request.isBookkeeping : Request → Bool
  | .createHistory => true
  | .insert i => i.table == HistoryTable.name
  | _ => false

/-- The text of a request by which the database itself is changed: neither looking at it nor preparing
the connection, nor keeping the history. -/
def Event.change? : Event → Option String
  | .sent r text _ => if r.passive || r.isBookkeeping then none else some text
  | _ => none

def changes (log : List Event) : List String := log.filterMap Event.change?

theorem changes_append (log log' : List Event) : changes (log ++ log') = changes log ++ changes log' :=
  List.filterMap_append

/-- The batch that a record is of. -/
def Applied.batch (r : Applied) : Batch := ⟨r.version, r.name, r.steps⟩

namespace Session

variable {σ : Type} {s : Setting σ} {v w w' : World σ} {c : Nat}
  {k : Archive s.server s.config.dialect} {m : Migrator} {source : Source} {label : String}
  {records : List Applied} {schema : Schema} {b : Batch} {rest : List Batch}

/-- Nothing is sent that changes the database itself. -/
def Frame.unchanging : Frame σ where
  rel w w' := changes w'.log = changes w.log
  refl _ := rfl
  trans h h' := h'.trans h

theorem Frame.unchanging_of_event {e : Event} (he : e.change? = none) (hlog : w'.log = w.log ++ [e]) :
    Frame.unchanging.rel w w' := by
  change changes w'.log = changes w.log
  rw [hlog, changes_append]
  simp [changes, he]

theorem Frame.unchanging_send {r : Request} (h : (r.passive || r.isBookkeeping) = true) (c : Nat) :
    Frame.unchanging.Keeps s (send c r) :=
  Frame.keeps_send fun ps _ =>
    Frame.unchanging_of_event (by simp only [Event.change?, h, if_true]) (log_answered r ps)

theorem Frame.unchanging_passive (c : Nat) (r : Request) (h : r.passive = true) :
    Frame.unchanging.Keeps s (send c r) :=
  Frame.unchanging_send (by rw [h, Bool.true_or]) c

theorem Frame.unchanging_create (c : Nat) :
    Frame.unchanging.Keeps s (send c .createHistory) := Frame.unchanging_send rfl c

theorem Frame.unchanging_insert (r : Applied) (c : Nat) :
    Frame.unchanging.Keeps s (send c (.insert (HistoryTable.insert r))) :=
  Frame.unchanging_send rfl c

theorem Frame.unchanging_surrounds (s : Setting σ) : Frame.unchanging.Surrounds s := by
  refine Frame.surrounds_of_events (fun _ _ hlog _ _ => congrArg changes hlog)
    fun e _ _ he hlog _ _ => Frame.unchanging_of_event ?_ hlog
  cases e with
  | sent r text ps =>
    rw [Event.change?, Request.passive_of_preparatory he, Bool.true_or, if_pos rfl]
  | _ => rfl

theorem Frame.unchanging_status (m : Migrator) : Frame.unchanging.Keeps s (status m) :=
  (Frame.unchanging_surrounds s).keeps_status Frame.unchanging_passive m

theorem Frame.told_status (m : Migrator) : (Frame.told s).Keeps s (status m) :=
  (Frame.told_surrounds s).keeps_status (fun c r _ => Frame.told_send c r) m

/-! ### One batch -/

theorem changes_of_statements {sqls : List String}
    (h : run (sqls.forM fun sql => discard (execute c (.ddl sql))) s w = (.ok ⟨⟩, w')) :
    changes w'.log = changes w.log ++ sqls := by
  induction sqls generalizing w with
  | nil =>
    cases h
    exact (List.append_nil _).symm
  | cons sql rest ih =>
    obtain ⟨⟨⟩, v, hfirst, hrest⟩ := (run_bind_eq_ok _ _ _).1 h
    obtain ⟨reply, hexecute⟩ := (run_discard_eq_ok _).1 hfirst
    obtain ⟨ps, -, -, rfl⟩ := run_execute_eq_ok.1 hexecute
    rw [ih hrest, log_answered, changes_append, List.append_assoc]
    rfl

/-- Steps that run to the end send what they are rendered to. -/
theorem changes_of_runSteps {version : Int} {n : Nat} {steps : List Step}
    (h : run (runSteps c version n schema steps) s w = (.ok (), w')) :
    ∃ after sqls, (∀ done, steps.foldlM (Batch.renderStep s.config.dialect) (schema, done) =
      .ok (after, done ++ sqls)) ∧ changes w'.log = changes w.log ++ sqls := by
  induction steps generalizing n schema w with
  | nil =>
    cases h
    exact ⟨schema, [], fun done => by rw [List.append_nil]; rfl, (List.append_nil _).symm⟩
  | cons step rest ih =>
    obtain ⟨after, v, hstep, hrest⟩ := (run_bind_eq_ok _ _ _).1 h
    obtain ⟨sqls, v', hran, happly⟩ := (run_bind_eq_ok _ _ _).1 ((run_failing_eq_ok _ _ _ _).1 hstep)
    rw [run_ofResult] at happly
    obtain ⟨hresult, rfl⟩ := Prod.mk.inj happly
    rw [runStep, run_bind_of_ok run_dialect] at hran
    obtain ⟨_, u, hrender, hran⟩ := (run_bind_eq_ok _ _ _).1 hran
    rw [run_ofResult] at hrender
    obtain ⟨hsqls, rfl⟩ := Prod.mk.inj hrender
    obtain ⟨⟨⟩, u', hsent, hran⟩ := (run_bind_eq_ok _ _ _).1 hran
    cases hran
    obtain ⟨last, others, hothers, hchanges⟩ := ih hrest
    refine ⟨last, sqls ++ others, fun done => ?_, ?_⟩
    · rw [List.foldlM_cons, Batch.renderStep_eq hsqls hresult, ← List.append_assoc]
      exact hothers (done ++ sqls)
    · rw [hchanges, changes_of_statements hsent, List.append_assoc]

theorem changes_of_applyBatch {r : Applied}
    (h : run (applyBatch c schema b) s w = (.ok r, w')) : r.steps = b.steps ∧
      ∃ sqls, b.render s.config.dialect schema = .ok sqls ∧
        changes w'.log = changes w.log ++ sqls := by
  obtain ⟨⟨⟩, u, hsteps, h⟩ := (run_bind_eq_ok _ _ _).1 h
  obtain ⟨⟨⟩, v, hcheck, h⟩ := (run_bind_eq_ok _ _ _).1 h
  rw [run_bind_of_ok run_read] at h
  obtain ⟨reply, v', hinsert, h⟩ := (run_bind_eq_ok _ _ _).1 h
  cases h
  have hchecked := Frame.keeps_failing (R := Frame.unchanging) (s := s) b.version b.steps.length
    (Frame.keeps_checkIntegrity (Frame.unchanging_passive c)) u
  have hinserted := Frame.keeps_execute (R := Frame.unchanging) (s := s)
    (Frame.unchanging_insert ⟨b.version, b.name, b.steps, s.now⟩ c) v
  rw [hcheck] at hchecked
  rw [hinsert] at hinserted
  obtain ⟨after, sqls, hrender, hchanges⟩ := changes_of_runSteps hsteps
  refine ⟨rfl, sqls, ?_, (hinserted.trans hchecked).trans hchanges⟩
  rw [Batch.render, hrender []]
  rfl

/-- A transaction of a migrator sends the statements of the batch that it applies, if there is one. -/
theorem changes_of_round {o : Option Applied} (hw : k.AtRest w)
    (hrecords : k.records w.server = .ok records)
    (h : run (migrating (applyNext m)) s w = (.ok o, w')) :
    match o with
    | none => changes w'.log = changes w.log
    | some r => ∃ (b : Batch) (schema : Schema) (sqls : List String),
      r.steps = b.steps ∧ Applied.schemaAt records = .ok schema ∧
        b.render s.config.dialect schema = .ok sqls ∧ changes w'.log = changes w.log ++ sqls := by
  obtain ⟨-, -, c, u, v, hbefore, hu, hrun, hafter, -⟩ :=
    migrating_within (Frame.unchanging_surrounds s) (sends_applyNext m) hw h
  obtain ⟨found, u', hfound, hlook, -, hcases⟩ := applyNext_within k
    (Frame.unchanging_passive c) (Frame.unchanging_create c) hrun
  rw [k.records_congr hu, hrecords] at hfound
  cases hfound
  have hstart : changes u'.log = changes w.log := hlook.trans hbefore
  rcases hcases with ⟨-, rfl, rfl⟩ | ⟨b, rest, schema, r, -, hreplay, rfl, happly⟩
  · exact hafter.trans hstart
  · obtain ⟨hsteps, sqls, hsqls, hchanges⟩ := changes_of_applyBatch happly
    refine ⟨b, schema, sqls, hsteps, hreplay, hsqls, ?_⟩
    rw [← hstart, ← hchanges]
    exact hafter

/-! ### The whole run -/

theorem told_round : (Frame.told s).Keeps s (migrating (applyNext m)) :=
  (Frame.told_surrounds s).keeps_migrating fun c =>
    Frame.keeps_applyNext (fun r _ => Frame.told_send c r) m

theorem told_rounds (limit : Nat) : (Frame.told s).Keeps s (applyRounds m limit) := by
  induction limit with
  | zero => exact Frame.keeps_pure _
  | succ limit ih =>
    refine Frame.keeps_bind told_round fun o => ?_
    cases o with
    | none => exact Frame.keeps_pure _
    | some r => exact Frame.keeps_bind ih fun _ => Frame.keeps_pure _

/-- A batch with storable defaults leads from the schema of the records before it to that of the
records with its own. -/
theorem schemaAt_of_records {r : Applied} {after : Schema} (hr : source.Records r b)
    (hb : b.Storable) (hreplay : Applied.schemaAt records = .ok schema)
    (happly : Step.applyAll schema b.steps = .ok after) :
    Applied.schemaAt (records ++ [r.recorded]) = .ok (after.withVersion b.version) := by
  have hsteps : r.recorded.steps = b.steps := by
    rw [Applied.recorded, hr.steps, Step.map_recorded_self hb]
  rw [← hsteps] at happly
  rw [← hr.version]
  exact Applied.schemaAt_append hreplay happly

/-- Where nothing is refused, the rounds apply all batches that are left and send the statements that
are shown for them. -/
theorem changes_of_rounds (hg : k.Guarded) (hm : Migrator.Sound ⟨source, label⟩)
    (h : k.Holds w records schema) (ha : w.Available s.config)
    (hdue : source.Due s.config.dialect rest records) (hs : ∀ b ∈ rest, b.Storable)
    {chunks : List (List String)} (hchunks : Batch.Previews s.config.dialect schema rest chunks)
    {limit : Nat} (hlimit : rest.length < limit)
    (hgranted : Granted s w (run (applyRounds ⟨source, label⟩ limit) s w).2) :
    ∃ apps w', run (applyRounds ⟨source, label⟩ limit) s w = (.ok apps, w') ∧
      apps.complete = true ∧ List.Forall₂ source.Records apps.records rest ∧
      changes w'.log = changes w.log ++ chunks.flatten := by
  induction limit generalizing w records schema rest chunks with
  | zero => omega
  | succ limit ih =>
    obtain ⟨hfirst, hrest⟩ := hgranted.bind told_round fun o => by
      cases o with
      | none => exact Frame.keeps_pure _
      | some r => exact Frame.keeps_bind (told_rounds limit) fun _ => Frame.keeps_pure _
    obtain ⟨o, v, hrun, hv, hcases⟩ := round_of_granted hg hm h ha hdue hfirst
    have hchanges := changes_of_round h.rest h.history hrun
    have hmore := hrest o v hrun
    rw [applyRounds, run_bind_of_ok hrun]
    cases o with
    | none =>
      obtain ⟨rfl, -, -⟩ := hcases
      cases hchunks
      exact ⟨_, v, rfl, rfl, .nil, by rw [hchanges]; simp⟩
    | some r =>
      obtain ⟨b, others, last, rfl, hr, hothers, hlast, -⟩ := hcases
      obtain ⟨b', schema', sqls, hsteps, hreplay, hrender, hsent⟩ := hchanges
      obtain ⟨hb, hs'⟩ := List.forall_mem_cons.1 hs
      cases hchunks with
      | cons rendered applied others' =>
        -- The statements that were sent are those of the batch on the schema of the records.
        obtain rfl := Except.ok.inj (h.replay.symm.trans hreplay)
        rw [Batch.render, ← hsteps, hr.steps, ← Batch.render, rendered] at hrender
        obtain rfl := Except.ok.inj hrender
        obtain rfl := Except.ok.inj
          (hlast.replay.symm.trans (schemaAt_of_records hr hb h.replay applied))
        have hgranted' := (hmore.bind (told_rounds limit) fun _ => Frame.keeps_pure _).1
        obtain ⟨apps, w', happs, hcomplete, hagree, hall⟩ := ih hlast hv hothers hs' others'
          (Nat.lt_of_succ_lt_succ hlimit) hgranted'
        refine ⟨{ apps with records := r :: apps.records }, w', ?_, hcomplete, .cons hr hagree, ?_⟩
        · dsimp only
          rw [run_bind_of_ok happs, run_pure]
        · rw [hall, hsent, List.flatten_cons, List.append_assoc]

/-- The batches of records of a list are the list. -/
theorem map_batch {applied : List Applied} {list all : List Batch}
    (h : List.Forall₂ (Source.batches all).Records applied list) :
    applied.map Applied.batch = list := by
  have heq : List.Forall₂ (fun r b => Applied.batch r = b) applied list :=
    h.imp fun r b hr => by rw [Applied.batch, hr.version, hr.steps, hr.name all rfl]
  rwa [← List.forall₂_map_left_iff, List.forall₂_eq_eq_eq] at heq

/-- A list of batches with increasing versions, valid steps and storable defaults, each of which can be
rendered on the schema that those before it lead to, is applied to a database without history. If
nothing is refused, all batches are applied, and what is sent to change the database, without the
transactions, the settings, the locks and the history, are the statements that are shown for the list,
one by one and in order. -/
theorem changes_eq_preview (hg : k.Guarded) (hw : k.AtRest w) (hfresh : k.rows w.server = none)
    (ha : w.Available s.config) {list : List Batch}
    (hincreasing : (list.map (·.version)).Pairwise (· < ·))
    (hlist : ∀ b ∈ list, b.Sound ∧ b.Storable) {chunks : List (List String)}
    (hchunks : Batch.Previews s.config.dialect .empty list chunks) {label : String} {limit : Nat}
    (hlimit : list.length < limit)
    (hgranted : Granted s w (run (applyPending ⟨.batches list, label⟩ limit) s w).2) :
    (∃ apps w', run (applyPending ⟨.batches list, label⟩ limit) s w = (.ok apps, w') ∧
      apps.complete = true ∧
      apps.records.map Applied.batch = list ∧
      changes w'.log = changes w.log ++ chunks.flatten) ∧
    ∀ (p : Preferences) (files : Files) (path : String) (chosen : Option Dialect),
      Command.load files path = .ok list → Command.dialectOf p chosen = .ok s.config.dialect →
        (Command.run s.server p s.now files (.sql path chosen none false) w.server).answer =
          .statements chunks.flatten := by
  refine ⟨?_, fun p files path chosen hload hd => Command.answer_of_previews hchunks hload hd⟩
  have hm : Migrator.Sound ⟨.batches list, label⟩ :=
    ⟨(Migrator.increasing_iff _).2 hincreasing, fun b hb => (hlist b hb).1.steps⟩
  have hstorable : ∀ b ∈ list, b.Storable := fun b hb => (hlist b hb).2
  have h := Archive.holds_fresh hw hfresh
  have hpending : Migrator.pending ⟨.batches list, label⟩ s.now [] = .ok list :=
    Migrator.pending_supplied_eq_ok.2 ⟨List.nil_prefix, rfl⟩
  have hdue := Race.due_of_pending h hm trivial hpending (hchunks.runnable hstorable)
  obtain ⟨hlook, hrest⟩ := hgranted.bind (Frame.told_status _) fun t => by
    split
    · exact Frame.keeps_pure _
    · exact told_rounds limit
  obtain ⟨t, v, hrun, hdone, hv, hva, -⟩ := status_of_granted h ha hdue hlook
  have hmore := hrest t v hrun
  have hsame : changes v.log = changes w.log := by
    have hkeep := Frame.unchanging_status (s := s) ⟨.batches list, label⟩ w
    rw [hrun] at hkeep
    exact hkeep
  rw [applyPending, run_bind_of_ok hrun]
  split at hmore
  case isTrue hstate =>
    obtain rfl := hdone hstate
    cases hchunks
    exact ⟨_, v, by rw [if_pos hstate]; rfl, rfl, rfl, by rw [hsame]; simp⟩
  case isFalse hstate =>
    obtain ⟨apps, w', happs, hcomplete, hagree, hchanges⟩ :=
      changes_of_rounds hg hm hv hva hdue hstorable hchunks hlimit hmore
    exact ⟨apps, w', by rw [if_neg hstate, happs], hcomplete, map_batch hagree,
      by rw [hchanges, hsame]⟩

def rank : Field := { name := "rank", type := .int, default := .int 1 }

/-- Batches of which the second adds a field with a default. -/
def ranked : List Batch :=
  [⟨1, "one", [.createEntity (Migrator.keyed "Post")]⟩, ⟨2, "two", [.addField "Post" rank]⟩]

/-- The statements of the batches on SQLite. -/
def rankedStatements : List (List String) :=
  (Command.renderBatches .sqlite none false .empty ranked).toOption.getD []

theorem changes_eq_preview_ranked :
    let result := run (applyPending ⟨.batches ranked, "auto"⟩ 3) Notebook.guardedSetting
      { server := Notebook.fresh }
    rankedStatements.map (·.length) = [1, 1] ∧
    changes result.2.log = rankedStatements.flatten ∧
    (Command.run Notebook.guarded {} .epoch [("migrations.json", File.ofBatches ranked)]
      (.sql "migrations.json" (some .sqlite) none false) Notebook.fresh).answer =
        .statements rankedStatements.flatten := by
  have hlist : ∀ b ∈ ranked, b.Sound ∧ b.Storable := by
    intro b hb
    refine ⟨?_, ?_⟩
    · rcases List.mem_pair.1 hb with rfl | rfl
      · exact ⟨by decide, List.forall_mem_singleton.2 (sound_keyed "Post")⟩
      · exact ⟨by decide, List.forall_mem_singleton.2 (show rank.check = .ok () from rfl)⟩
    · revert b
      decide +kernel
  obtain ⟨chunks, hrender⟩ := Outcome.exists_ok
    (show (Command.renderBatches .sqlite none false .empty ranked).isOk = true by decide +kernel)
  have hchunks : rankedStatements = chunks := by rw [rankedStatements, hrender]; rfl
  have hgranted : Granted Notebook.guardedSetting { server := Notebook.fresh }
      (run (applyPending ⟨.batches ranked, "auto"⟩ 3) Notebook.guardedSetting
        { server := Notebook.fresh }).2 := by
    decide +kernel
  obtain ⟨⟨apps, w', hrun, -, -, hchanges⟩, hanswer⟩ := changes_eq_preview
    (s := Notebook.guardedSetting) (w := { server := Notebook.fresh })
    Notebook.guards ⟨nofun, rfl⟩ rfl (Or.inr (show (0 : Int) < 5 by decide)) (by decide) hlist
    (hchunks ▸ Command.renderBatches_eq_ok.1 hrender) (show ranked.length < 3 by decide) hgranted
  refine ⟨by decide +kernel, ?_, hanswer _ _ _ _ ?_ rfl⟩
  · rw [hrun]
    exact hchanges
  · exact File.batches_self _ (fun b hb => (hlist b hb).1) fun b hb => (hlist b hb).2

end Session

end SchemaLedger
