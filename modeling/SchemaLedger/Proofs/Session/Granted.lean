import SchemaLedger.Proofs.Migration.Queue
import SchemaLedger.Proofs.Session.Application
import SchemaLedger.Proofs.Session.Exchange

set_option autoImplicit false

/-!
# When nothing is refused

An operation that can only fail because the database refuses something succeeds if the database
grants all that it asks. That is so of every part of a migration whose batch can be carried out.
-/
namespace SchemaLedger

variable {σ α β : Type} {s : Setting σ} {u v w w' : World σ} {c : Nat} {t t' : List Exchange}
  {k : Archive s.server s.config.dialect} {m : Migrator} {records : List Applied}

/-- The pool has a connection to lend, or may make one. -/
def World.Available (config : Config) (w : World σ) : Prop :=
  match config.pool with
  | .single => True
  | .bounded size _ => w.idle ≠ [] ∨ (w.out : Int) < size

theorem World.available_of_idle {config : Config} (h : w.idle ≠ []) : w.Available config := by
  unfold Available
  split
  · trivial
  · exact Or.inl h

namespace Session

open World (Steady Busy)

/-- The exchanges that the log of the second world has more than that of the first. -/
def said (s : Setting σ) (w w' : World σ) : List Exchange :=
  s.server.exchanges w.server (w'.log.drop w.log.length)

/-- Nothing was refused between two worlds. -/
def Granted (s : Setting σ) (w w' : World σ) : Prop := ∀ x ∈ said s w w', x.accepted = true

instance (s : Setting σ) (w w' : World σ) : Decidable (Granted s w w') :=
  inferInstanceAs (Decidable (∀ x ∈ said s w w', x.accepted = true))

theorem said_of_heard (h : Heard s t w w') : said s w w' = t := by
  rw [said, h.log, List.drop_left, h.replies]

/-- All that is done is told by the log. -/
def Frame.told (s : Setting σ) : Frame σ where
  rel w w' := ∃ t, Heard s t w w'
  refl w := ⟨[], Heard.refl w⟩
  trans := fun ⟨t, h⟩ ⟨t', h'⟩ => ⟨t ++ t', h.append h'⟩

theorem granted_iff (h : Heard s t w w') : Granted s w w' ↔ ∀ x ∈ t, x.accepted = true := by
  rw [Granted, said_of_heard h]

theorem Frame.told_of_same (hlog : w'.log = w.log) (hserver : w'.server = w.server) :
    (Frame.told s).rel w w' := ⟨[], hlog.trans (List.append_nil _).symm, rfl, hserver⟩

theorem Frame.told_send (c : Nat) (r : Request) : (Frame.told s).Keeps s (send c r) :=
  Frame.keeps_send fun ps _ => ⟨_, (spoke_answered r ps).heard⟩

theorem Frame.told_surrounds (s : Setting σ) : (Frame.told s).Surrounds s :=
  Frame.surrounds_of_events (fun _ _ hlog hserver _ => told_of_same hlog hserver)
    fun _ _ _ _ hlog hserver _ => ⟨_, Heard.single hlog hserver⟩

theorem Granted.split (h : Granted s u w) (htold : (Frame.told s).rel u v)
    (htold' : (Frame.told s).rel v w) : Granted s u v ∧ Granted s v w := by
  obtain ⟨t, ht⟩ := htold
  obtain ⟨t', ht'⟩ := htold'
  rw [granted_iff ht, granted_iff ht', ← List.forall_mem_append]
  exact (granted_iff (ht.append ht')).1 h

/-- If nothing is refused in a whole, nothing is refused in its parts. -/
theorem Granted.bind {x : Session σ α} {f : α → Session σ β}
    (hgranted : Granted s w (run (x >>= f) s w).2) (hx : (Frame.told s).Keeps s x)
    (hf : ∀ a, (Frame.told s).Keeps s (f a)) : Granted s w (run x s w).2 ∧
      ∀ a v, run x s w = (.ok a, v) → Granted s v (run (f a) s v).2 := by
  have hlater : (Frame.told s).rel (run x s w).2 (run (x >>= f) s w).2 := by
    rw [run_bind]
    rcases run x s w with ⟨e | a, v⟩
    · exact (Frame.told s).refl v
    · exact hf a v
  obtain ⟨hfirst, hrest⟩ := hgranted.split (hx w) hlater
  refine ⟨hfirst, fun a v hrun => ?_⟩
  rw [run_bind_of_ok hrun, hrun] at hrest
  exact hrest

/-- The operation succeeds on a world if nothing is refused. -/
structure Firm (s : Setting σ) (x : Session σ α) (w : World σ) : Prop where
  told : (Frame.told s).rel w (run x s w).2
  succeeds : Granted s w (run x s w).2 → ∃ a, (run x s w).1 = .ok a

namespace Firm

theorem pure (a : α) (w : World σ) : Firm s (pure a) w := ⟨(Frame.told s).refl w, fun _ => ⟨a, rfl⟩⟩

/-- An operation that begins with another one. It has to succeed only after that did, and may rely on
all being granted that was asked until then. -/
theorem followed {x : Session σ α} {y : Session σ β} (hx : Firm s x w)
    (htold : (Frame.told s).rel (run x s w).2 (run y s w).2)
    (hok : ∀ a v, run x s w = (.ok a, v) → Granted s w v → Granted s v (run y s w).2 →
      ∃ b, (run y s w).1 = .ok b) : Firm s y w := by
  refine ⟨(Frame.told s).trans hx.told htold, fun hgranted => ?_⟩
  obtain ⟨hfirst, hrest⟩ := hgranted.split hx.told htold
  obtain ⟨a, ha⟩ := hx.succeeds hfirst
  exact hok a _ (Prod.ext ha rfl) hfirst hrest

theorem bind_granted {x : Session σ α} {f : α → Session σ β} (hx : Firm s x w)
    (htold : ∀ a v, run x s w = (.ok a, v) → (Frame.told s).rel v (run (f a) s v).2)
    (hf : ∀ a v, run x s w = (.ok a, v) → Granted s w v → Firm s (f a) v) :
    Firm s (x >>= f) w := by
  refine followed hx ?_ fun a v hrun hfirst hrest => ?_
  · rw [run_bind]
    rcases hrun : run x s w with ⟨e | a, v⟩
    · exact (Frame.told s).refl v
    · exact htold a v hrun
  · rw [run_bind_of_ok hrun] at hrest ⊢
    exact (hf a v hrun hfirst).succeeds hrest

theorem bind {x : Session σ α} {f : α → Session σ β} (hx : Firm s x w)
    (hf : ∀ a v, run x s w = (.ok a, v) → Firm s (f a) v) : Firm s (x >>= f) w :=
  hx.bind_granted (fun a v hrun => (hf a v hrun).told) fun a v hrun _ => hf a v hrun

theorem tryCatch {x : Session σ α} {f : Error → Session σ α} (hx : Firm s x w)
    (hf : ∀ e, (Frame.told s).Keeps s (f e)) : Firm s (tryCatch x f) w := by
  refine followed hx ?_ fun a v hrun _ _ => ⟨a, by rw [run_tryCatch, hrun]⟩
  rw [run_tryCatch]
  rcases run x s w with ⟨e | a, v⟩
  · exact hf e v
  · exact (Frame.told s).refl v

theorem attempt {x : Session σ α} {f : Except Error α → Session σ β} (hx : Firm s x w)
    (herror : ∀ e, (Frame.told s).Keeps s (f (.error e)))
    (hok : ∀ a v, run x s w = (.ok a, v) → Firm s (f (.ok a)) v) : Firm s (attempt x >>= f) w := by
  refine followed hx ?_ fun a v hrun _ hrest => ?_
  · rw [run_bind_of_ok (run_attempt x)]
    rcases hrun : run x s w with ⟨e | a, v⟩
    · exact herror e v
    · exact (hok a v hrun).told
  · rw [run_bind_of_ok (run_attempt x), hrun] at hrest ⊢
    exact (hok a v hrun).succeeds hrest

/-- An operation that cannot fail. -/
theorem of_ok {x : Session σ α} {a : α} (htold : (Frame.told s).rel w (run x s w).2)
    (h : (run x s w).1 = .ok a) : Firm s x w := ⟨htold, fun _ => ⟨a, h⟩⟩

theorem bindResult {r : Result β} {b : β} {f : β → Session σ α} (hr : r = .ok b)
    (hf : Firm s (f b) w) : Firm s (ofResult r >>= f) w := by
  subst hr
  exact hf

theorem dialect {f : Dialect → Session σ α} (h : Firm s (f s.config.dialect) w) :
    Firm s (dialect >>= f) w := by
  have hrun : run (Session.dialect >>= f) s w = run (f s.config.dialect) s w :=
    run_bind_of_ok run_dialect f
  exact ⟨hrun ▸ h.told, hrun ▸ h.succeeds⟩

theorem read {f : Setting σ → Session σ α} (h : Firm s (f s) w) : Firm s (MonadReader.read >>= f) w := by
  have hrun : run (MonadReader.read >>= f) s w = run (f s) s w := run_bind_of_ok run_read f
  exact ⟨hrun ▸ h.told, hrun ▸ h.succeeds⟩

theorem of_result {r : Result β} {b : β} (hr : r = .ok b) : Firm s (ofResult r) w := by
  subst hr
  exact pure b w

/-- An operation that only changes the errors of another one. -/
theorem of_world {x y : Session σ α} (hx : Firm s x w) (hworld : (run y s w).2 = (run x s w).2)
    (hok : ∀ a, (run x s w).1 = .ok a → (run y s w).1 = .ok a) : Firm s y w := by
  refine ⟨hworld ▸ hx.told, fun hgranted => ?_⟩
  rw [hworld] at hgranted
  obtain ⟨a, ha⟩ := hx.succeeds hgranted
  exact ⟨a, hok a ha⟩

theorem classifying {x : Session σ α} (statement : Option String) (hx : Firm s x w) :
    Firm s (classifying statement x) w := by
  refine hx.of_world ?_ fun a ha => ?_
  · rw [run_classifying]
  · rw [run_classifying, ha]
    rfl

theorem failing {x : Session σ α} (version : Int) (step : Nat) (hx : Firm s x w) :
    Firm s (failing version step x) w := by
  have hrun : run (Session.failing version step x) s w = run x s w ∨
      ∃ e e', (run x s w).1 = .error e ∧
        run (Session.failing version step x) s w = (.error e', (run x s w).2) := by
    rw [Session.failing, run_tryCatch]
    rcases run x s w with ⟨e | a, v⟩
    · exact Or.inr ⟨e, _, rfl, rfl⟩
    · exact Or.inl rfl
  rcases hrun with hrun | ⟨e, e', he, hrun⟩
  · exact hx.of_world (by rw [hrun]) fun a ha => by rw [hrun, ha]
  · exact hx.of_world (by rw [hrun]) fun a ha => by cases he.symm.trans ha

theorem discard {x : Session σ α} (hx : Firm s x w) : Firm s (discard x) w :=
  hx.bind fun _ v _ => pure _ v

theorem forM {f : α → Session σ PUnit} {xs : List α} (hf : ∀ x ∈ xs, ∀ v, Firm s (f x) v)
    (w : World σ) : Firm s (xs.forM f) w := by
  induction xs generalizing w with
  | nil => exact pure _ w
  | cons x rest ih =>
    exact bind (hf x List.mem_cons_self w) fun _ v _ =>
      ih (fun y hy => hf y (List.mem_cons_of_mem x hy)) v

/-! ## Requests -/

theorem send {r : Request} {ps : List (String × Sql.Bound)}
    (hbind : (r.prepare s.config.dialect).bind s.config.dialect = .ok ps) (c : Nat) (w : World σ) :
    Firm s (send c r) w := by
  obtain ⟨x, -, hreply, hspoke⟩ := exists_exchange (s := s) c r ps w
  have hrun : run (Session.send c r) s w =
      ((s.server.answer r ps w.server).1.mapError .driver, answered s c r ps w) := by
    rw [run_send, hbind]
  refine ⟨by rw [hrun]; exact ⟨_, hspoke.heard⟩, fun hgranted => ?_⟩
  rw [hrun] at hgranted ⊢
  have haccepted := (granted_iff hspoke.heard).1 hgranted x (List.mem_singleton.2 rfl)
  rw [Exchange.accepted, hreply] at haccepted
  cases hanswer : (s.server.answer r ps w.server).1 with
  | error e =>
    rw [hanswer] at haccepted
    cases haccepted
  | ok reply => exact ⟨reply, rfl⟩

theorem execute {r : Request} {ps : List (String × Sql.Bound)}
    (hbind : (r.prepare s.config.dialect).bind s.config.dialect = .ok ps) (c : Nat) (w : World σ) :
    Firm s (execute c r) w :=
  dialect (classifying _ (send hbind c w))

/-! ## The history -/

theorem hasHistory : Firm s (hasHistory c) w := by
  refine dialect ?_
  cases s.config.dialect with
  | sqlite =>
    refine bind (execute (bind_ofText _ _) c w) fun main v _ => ?_
    split
    · exact bind (execute (bind_ofText _ _) c v) fun temp v' _ => pure _ v'
    · exact pure _ v
  | postgresql => exact bind (execute (bind_ofText _ _) c w) fun found v _ => pure _ v

/-- A history that can be read is read. -/
theorem readHistory (h : k.records w.server = .ok records) : Firm s (readHistory c) w := by
  refine bind hasHistory fun found v hrun => ?_
  have hstill := Frame.keeps_hasHistory (c := c) (Frame.still_send k c) w
  rw [hrun] at hstill
  have hvalue := hasHistory_eq_ok k hrun
  have hrecords := (k.records_congr hstill.1).trans h
  unfold Archive.records at hrecords
  cases hrows : k.rows v.server with
  | none =>
    rw [← hstill.1, hrows] at hvalue
    subst hvalue
    exact pure _ v
  | some rs =>
    rw [← hstill.1, hrows] at hvalue
    subst hvalue
    rw [hrows] at hrecords
    refine dialect (bind (execute (bind_select _) c v) fun reply v' hreply => ?_)
    obtain ⟨ps, -, hanswer, -⟩ := run_execute_eq_ok.1 hreply
    refine of_result (b := records) ?_
    rw [k.select ps v.server reply hanswer rs hrows]
    exact hrecords

theorem createHistory : Firm s (createHistory c) w := by
  refine bind hasHistory fun found v _ => ?_
  split
  · exact discard (execute (bind_ofText _ _) c v)
  · exact pure _ v

theorem pending {batches : List Batch} (h : m.pending s.now records = .ok batches) :
    Firm s (pending m records) w :=
  read (of_result h)

theorem statusOn {batches : List Batch} (h : k.records w.server = .ok records)
    (hpending : m.pending s.now records = .ok batches) : Firm s (statusOn m c) w := by
  refine bind hasHistory fun found v hrun => ?_
  have hstill := Frame.keeps_hasHistory (c := c) (Frame.still_send k c) w
  rw [hrun] at hstill
  have hv := (k.records_congr hstill.1).trans h
  refine bind (readHistory hv) fun records' v' hread => ?_
  have hrecords := readHistory_eq_ok k hread
  rw [hv] at hrecords
  cases hrecords
  exact bind (pending hpending) fun _ v _ => pure _ v

/-! ## Application -/

theorem runStep {schema : Schema} {step : Step} {sqls : List String}
    (h : Sql.Ddl.render s.config.dialect schema step = .ok sqls) (w : World σ) :
    Firm s (runStep c schema step) w := by
  refine dialect (bindResult h (bind (forM (fun sql _ v => ?_) w) fun _ v _ => pure _ v))
  exact discard (execute (bind_ofText _ _) c v)

/-- Steps that can be rendered are run. -/
theorem runSteps {version : Int} {n : Nat} {schema : Schema} {steps : List Step}
    {sqls : List String} {end' : Schema × List String}
    (h : steps.foldlM (Batch.renderStep s.config.dialect) (schema, sqls) = .ok end') :
    Firm s (runSteps c version n schema steps) w := by
  induction steps generalizing n schema sqls w with
  | nil => exact pure _ w
  | cons step rest ih =>
    obtain ⟨list, after, hlist, hafter, hrest⟩ := Batch.renderSteps_cons.1 h
    have hresult := (liftSchema_eq_ok _ _).2 hafter
    refine bind (failing _ _ (bind (runStep hlist w) fun _ v _ => of_result hresult)) fun _ v hstep => ?_
    obtain ⟨_, v', -, happly⟩ := (run_bind_eq_ok _ _ _).1 ((run_failing_eq_ok _ _ _ _).1 hstep)
    rw [run_ofResult, hresult] at happly
    cases happly
    exact ih hrest

/-- References that dangle are a refusal. -/
theorem checkIntegrity (w : World σ) : Firm s (checkIntegrity c) w := by
  refine dialect ?_
  cases hd : s.config.dialect with
  | postgresql => exact pure _ w
  | sqlite =>
    refine bind_granted (execute (bind_ofText _ _) c w) (fun reply v _ => ?_)
      fun reply v hrun hgranted => ?_
    · split <;> exact (Frame.told s).refl v
    · obtain ⟨ps, -, hanswer, rfl⟩ := run_execute_eq_ok.1 hrun
      obtain ⟨x, hrequest, hreply, hspoke⟩ := exists_exchange (s := s) c .integrity ps w
      have haccepted := (granted_iff hspoke.heard).1 hgranted x (List.mem_singleton.2 rfl)
      rw [Exchange.accepted, hreply, hanswer, hrequest] at haccepted
      have hempty : reply.rows.isEmpty = true := haccepted
      rw [hempty]
      exact pure _ _

theorem exists_bind_insert (d : Dialect) (r : Applied) :
    ∃ ps, ((Request.insert (HistoryTable.insert r)).prepare d).bind d = .ok ps := by
  cases d <;> exact ⟨_, rfl⟩

theorem applyBatch {schema : Schema} {b : Batch}
    (h : (b.render s.config.dialect schema).isOk = true) (w : World σ) :
    Firm s (applyBatch c schema b) w := by
  obtain ⟨end', hend⟩ := Batch.exists_renderSteps h
  refine bind (runSteps hend) fun _ u _ => bind (failing _ _ (checkIntegrity u)) fun _ v _ => read ?_
  obtain ⟨ps, hps⟩ := exists_bind_insert s.config.dialect ⟨b.version, b.name, b.steps, s.now⟩
  exact bind (execute hps c v) fun _ v' _ => pure _ v'

theorem applyNext {batches : List Batch} (h : k.records w.server = .ok records)
    (hpending : m.pending s.now records = .ok batches)
    (hhead : ∀ b ∈ batches.head?, ∃ schema, Applied.schemaAt records = .ok schema ∧
      (b.render s.config.dialect schema).isOk = true) : Firm s (applyNext m c) w := by
  refine bind createHistory fun _ u hcreate => ?_
  have hu := (k.records_of_rows (createHistory_eq_ok k hcreate)).trans h
  refine bind (readHistory hu) fun records' v hread => ?_
  have hrecords := readHistory_eq_ok k hread
  rw [hu] at hrecords
  cases hrecords
  refine bind (pending hpending) fun batches' v' hrun => ?_
  rw [Session.pending, run_bind_of_ok run_read, run_ofResult, hpending] at hrun
  cases hrun
  cases batches with
  | nil => exact pure _ _
  | cons b rest =>
    obtain ⟨schema, hschema, hrender⟩ := hhead b rfl
    refine bindResult ((liftSchema_eq_ok _ _).2 hschema) ?_
    exact bind (applyBatch hrender _) fun _ u _ => pure _ u

/-! ## Transactions -/

theorem rollback (c : Nat) (w : World σ) : Firm s (rollback c) w :=
  of_ok (a := ()) ((Frame.told_surrounds s).keeps_rollback c w) (by rw [run_rollback])

theorem checkin (c : Nat) (w : World σ) : Firm s (checkin c) w :=
  of_ok (a := ()) (by rw [run_checkin]; exact (Frame.told_surrounds s).returned c w)
    (by rw [run_checkin])

theorem begin (c : Nat) (immediate : Bool) (w : World σ) : Firm s (begin c immediate) w := by
  refine dialect ?_
  split
  · exact discard (send (bind_ofText _ _) c w)
  · exact pure _ w

theorem commit (c : Nat) (w : World σ) : Firm s (commit c) w := by
  have hrun := run_commit (s := s) (c := c) (w := w)
  split at hrun
  case isFalse => exact of_ok (a := ()) (hrun ▸ (Frame.told s).refl w) (by rw [hrun])
  case isTrue =>
    have hheard : Heard s [⟨.commit, (s.server.hear .commit w.server).1⟩] w
        (run (Session.commit c) s w).2 := by
      rw [hrun]
      exact Heard.single rfl rfl
    refine ⟨⟨_, hheard⟩, fun hgranted => ?_⟩
    have haccepted := (granted_iff hheard).1 hgranted _ (List.mem_singleton.2 rfl)
    rw [hrun]
    cases hcommit : (s.server.commit w.server).1 with
    | ok a => exact ⟨a, rfl⟩
    | error e =>
      rw [Exchange.accepted, Server.hear, hcommit] at haccepted
      cases haccepted

theorem ensuring {x : Session σ α} {last : Session σ Unit} (hx : Firm s x w)
    (hlast : ∀ v, Firm s last v) : Firm s (ensuring last x) w := by
  refine attempt hx (fun e => Frame.keeps_bind (fun v => (hlast v).told) fun _ => Frame.keeps_throw e) ?_
  exact fun a v _ => bind (hlast v) fun _ v' _ => pure a v'

theorem inside {body : Session σ α} {immediate : Bool} {p : Nat} (hp : w.poolOf c = some p)
    (hq : k.quiet w.server)
    (hbody : ∀ u, k.rows u.server = k.rows w.server → Firm s body u) :
    Firm s (inside c immediate body) w := by
  refine bind (classifying _ (begin c immediate w)) fun _ u hbegin => ?_
  obtain ⟨-, -, hstill⟩ := begin_eq_ok k hp hq ((run_classifying_eq_ok _ _ _).1 hbegin)
  refine attempt (hbody u hstill.1) (fun e => ?_) fun a v _ => ?_
  · exact Frame.keeps_bind (fun v => (rollback c v).told) fun _ => Frame.keeps_throw e
  · exact bind (classifying _ (commit c v)) fun _ v' _ => pure a v'

/-! ## Connections -/

theorem prepareConnection (c : Nat) (w : World σ) : Firm s (prepareConnection c) w := by
  refine read (tryCatch (forM (fun r hr v => ?_) w) fun e => ?_)
  · rcases mem_settings hr with rfl | rfl
    · exact discard (send (bind_ofText _ _) c v)
    · exact discard (send (bind_ofText _ _) c v)
  · cases e with
    | driver e =>
      refine Frame.keeps_bind (fun v => ?_) fun _ => Frame.keeps_throw _
      exact ⟨_, Heard.single (e := .close) rfl rfl⟩
    | _ => exact Frame.keeps_throw _

theorem connect (w : World σ) : Firm s connect w := by
  have hheard : ∀ u : World σ, u.log = w.log ++ [.connect] →
      u.server = (s.server.connect w.server).2 →
        Heard s [⟨.connect, (s.server.hear .connect w.server).1⟩] w u :=
    fun u hlog hserver => Heard.single hlog hserver
  have hrun := run_connect (s := s) (w := w)
  rcases hconnect : s.server.connect w.server with ⟨e | ⟨⟩, st⟩ <;> rw [hconnect] at hrun hheard
  · have htold := hheard (run Session.connect s w).2 (by rw [hrun]) (by rw [hrun])
    refine ⟨⟨_, htold⟩, fun hgranted => ?_⟩
    have haccepted := (granted_iff htold).1 hgranted _ (List.mem_singleton.2 rfl)
    rw [Exchange.accepted, Server.hear, hconnect] at haccepted
    cases haccepted
  · dsimp only at hrun
    have htold := hheard (connected st w) rfl rfl
    have hrest := bind (s := s) (prepareConnection w.connections.length (connected st w)) fun _ v _ =>
      pure w.connections.length v
    refine ⟨by rw [hrun]; exact (Frame.told s).trans ⟨_, htold⟩ hrest.told, fun hgranted => ?_⟩
    rw [hrun] at hgranted ⊢
    exact hrest.succeeds (hgranted.split ⟨_, htold⟩ hrest.told).2

/-- A pool lends a connection if it has one, or may make one. -/
theorem checkout (h : w.Available s.config) : Firm s checkout w := by
  refine read (bind (of_ok (a := w) ((Frame.told s).refl w) rfl) fun w' v hget => ?_)
  cases hget
  unfold World.Available at h
  cases hpool : s.config.pool with
  | single =>
    cases hidle : w.idle with
    | cons c rest => exact pure c w
    | nil =>
      refine bind (connect w) fun c v _ => bind (of_ok (a := ⟨⟩) ?_ rfl) fun _ v' _ => pure c v'
      exact Frame.told_of_same rfl rfl
  | bounded size timeout =>
    rw [hpool] at h
    cases hidle : w.idle with
    | cons c rest =>
      exact bind (of_ok (a := ⟨⟩) (Frame.told_of_same rfl rfl) rfl) fun _ v _ => pure c v
    | nil =>
      have hfree : ¬ size ≤ (w.out : Int) := not_le.2 (h.resolve_left fun hne => hne hidle)
      dsimp only
      rw [if_neg hfree]
      refine bind (connect w) fun c v _ => bind (of_ok (a := ⟨⟩) ?_ rfl) fun _ v' _ => pure c v'
      exact Frame.told_of_same rfl rfl

theorem withConnection {body : Nat → Session σ α} (hw : k.AtRest w) (ha : w.Available s.config)
    (hbody : ∀ c u, u.Lent s.config c → k.quiet u.server → k.rows u.server = k.rows w.server →
      Firm s (body c) u) : Firm s (withConnection body) w := by
  refine bind (checkout ha) fun c u hcheckout => ensuring ?_ (checkin c)
  obtain ⟨hquiet, hrows⟩ := resting_of_checkout k hcheckout hw.quiet
  exact hbody c u (lent_of_checkout hw.tidy hcheckout) hquiet hrows

theorem reading {body : Nat → Session σ α} (hw : k.AtRest w) (ha : w.Available s.config)
    (hbody : ∀ c u, k.rows u.server = k.rows w.server → Firm s (body c) u) :
    Firm s (reading body) w := by
  refine withConnection hw ha fun c u hlent hquiet hrows => ?_
  refine bind (classifying _ (begin c false u)) fun _ v hbegin => hbody c v ?_
  obtain ⟨-, -, hstill⟩ :=
    begin_eq_ok k hlent.present hquiet ((run_classifying_eq_ok _ _ _).1 hbegin)
  exact hstill.1.trans hrows

theorem migrating {body : Nat → Session σ α} (hw : k.AtRest w) (ha : w.Available s.config)
    (hbody : ∀ c u, k.rows u.server = k.rows w.server → Firm s (body c) u) :
    Firm s (migrating body) w := by
  refine withConnection hw ha fun c u hlent hquiet hrows => dialect ?_
  split
  case h_1 hd =>
    refine bind (send (bind_ofText _ _) c u) fun reply v hoff => ensuring ?_ fun v' =>
      discard (send (bind_ofText _ _) c v')
    have hrest := Frame.resting_foreignKeys k c false u hquiet
    have hsteady := Frame.steady_send (s := s) (c := c) (.foreignKeys false) u
    rw [hoff] at hrest hsteady
    exact inside (hlent.of_steady hsteady).present hrest.1 fun u' hu' =>
      hbody c u' (hu'.trans (hrest.2.trans hrows))
  case h_2 hd =>
    refine inside hlent.present hquiet fun v hv => ?_
    refine bind (forM (fun sql _ v' => discard (execute (bind_ofText _ _) c v')) v) fun _ u' hlock => ?_
    have hstill := keeps_lock (c := c) (fun sql => Frame.still_send k c (.lock sql) rfl) v
    rw [hlock] at hstill
    exact hbody c u' (hstill.1.trans (hv.trans hrows))

end Firm

end Session

end SchemaLedger
