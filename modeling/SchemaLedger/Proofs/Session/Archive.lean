import SchemaLedger.Proofs.Migration.Recorded
import SchemaLedger.Proofs.Session.Lending

set_option autoImplicit false

/-!
# Databases that keep a history

What a session may rely on from a database with a history table: the rows that are written to the
table stay there, in the order of their versions, until the transaction that wrote them is given up.
-/
namespace SchemaLedger

/-- The first cell of a row is a number below `n`. -/
def HistoryTable.Below (n : Int) (row : List Value) : Prop :=
  ∃ m, row.head? = some (.int m) ∧ m < n

/-- The versions of rows increase. -/
def HistoryTable.Ordered (rows : List (List Value)) : Prop :=
  rows.Pairwise fun a b => ∃ n, b.head? = some (.int n) ∧ Below n a

/-- A database as one that keeps a history table. -/
structure Archive {σ : Type} (server : Server σ) (d : Dialect) where
  /-- The rows of the table as the open transaction sees them; none if there is no table. -/
  rows : σ → Option (List (List Value))
  /-- The rows that a rollback brings back. -/
  kept : σ → Option (List (List Value))
  /-- No transaction is open. -/
  quiet : σ → Prop
  /-- Statements that leave the table alone. -/
  spares : String → Prop
  settled : ∀ st, quiet st → kept st = rows st
  ordered : ∀ st rs, rows st = some rs → HistoryTable.Ordered rs
  connect : ∀ st st', server.connect st = (.ok (), st') →
    rows st' = rows st ∧ kept st' = kept st ∧ (quiet st → quiet st')
  passive : ∀ r ps st, r.passive = true →
    rows (server.answer r ps st).2 = rows st ∧ kept (server.answer r ps st).2 = kept st
  foreignKeys : ∀ on ps st, quiet st → quiet (server.answer (.foreignKeys on) ps st).2
  journal : ∀ ps st, quiet st → quiet (server.answer .journal ps st).2
  columns : ∀ ps st reply, (server.answer (.historyColumns "main") ps st).1 = .ok reply →
    reply.rows ≠ [] → rows st ≠ none
  temporary : ∀ ps ps' st main temp, (server.answer (.historyColumns "main") ps st).1 = .ok main →
    main.rows = [] →
      (server.answer (.historyColumns "temp") ps' (server.answer (.historyColumns "main") ps st).2).1 =
        .ok temp → (temp.rows = [] ↔ rows st = none)
  table : ∀ ps st reply, (server.answer .historyTable ps st).1 = .ok reply →
    (reply.rows = [] ↔ rows st = none)
  select : ∀ ps st reply, (server.answer (.select HistoryTable.select) ps st).1 = .ok reply →
    ∀ rs, rows st = some rs → reply.rows = rs
  create : ∀ ps st st' reply, server.answer .createHistory ps st = (.ok reply, st') →
    rows st = none → rows st' = some []
  insert : ∀ r ps st st' reply, server.answer (.insert (HistoryTable.insert r)) ps st =
    (.ok reply, st') → ∀ rs, rows st = some rs → (∀ row ∈ rs, HistoryTable.Below r.version row) →
      rows st' = some (rs ++ [HistoryTable.cells d r])
  ddl : ∀ sql ps st, spares sql → rows (server.answer (.ddl sql) ps st).2 = rows st
  commit : ∀ st st', server.commit st = (.ok (), st') → quiet st' ∧ rows st' = rows st
  rollback : ∀ st, quiet (server.rollback st) ∧ rows (server.rollback st) = kept st

namespace Archive

variable {σ : Type} {server : Server σ} {d : Dialect}

/-- The batches that are recorded. -/
def records (k : Archive server d) (st : σ) : Result (List Applied) :=
  match k.rows st with
  | none => .ok []
  | some rows => rows.mapM (HistoryTable.decode d)

theorem records_congr (k : Archive server d) {st st' : σ} (h : k.rows st' = k.rows st) :
    k.records st' = k.records st := by
  unfold records
  rw [h]

/-- An empty table and none hold the same records. -/
theorem records_of_rows (k : Archive server d) {st st' : σ}
    (h : k.rows st' = some ((k.rows st).getD [])) : k.records st' = k.records st := by
  unfold records
  rw [h]
  cases k.rows st with
  | none => rfl
  | some rs => rfl

/-- Nothing that a migrator asks for is refused, statements of steps and records apart. -/
structure Responsive (k : Archive server d) : Prop where
  foreignKeys : ∀ on ps st, (server.answer (.foreignKeys on) ps st).1.isOk = true
  begin : ∀ immediate ps st, k.quiet st → (server.answer (.begin immediate) ps st).1.isOk = true
  lock : ∀ sql ps st, (server.answer (.lock sql) ps st).1.isOk = true
  columns : ∀ database ps st, (server.answer (.historyColumns database) ps st).1.isOk = true
  table : ∀ ps st, (server.answer .historyTable ps st).1.isOk = true
  select : ∀ ps st rs, k.rows st = some rs →
    (server.answer (.select HistoryTable.select) ps st).1.isOk = true
  commit : ∀ st, (server.commit st).1.isOk = true

end Archive

namespace Session

open World (Steady Busy)

variable {σ α : Type} {s : Setting σ} {u v w w' : World σ} {c : Nat}
  {k : Archive s.server s.config.dialect}

/-! ## Single requests -/

theorem run_send_eq_ok {r : Request} {reply : Reply} :
    run (send c r) s w = (.ok reply, w') ↔
      ∃ ps, (r.prepare s.config.dialect).bind s.config.dialect = .ok ps ∧
        (s.server.answer r ps w.server).1 = .ok reply ∧ w' = answered s c r ps w := by
  rw [run_send]
  cases (r.prepare s.config.dialect).bind s.config.dialect with
  | error e => simp
  | ok ps =>
    rw [Prod.mk.injEq, Outcome.mapError_eq_ok]
    constructor
    · rintro ⟨hreply, rfl⟩
      exact ⟨ps, rfl, hreply, rfl⟩
    · rintro ⟨_, ⟨⟩, hreply, rfl⟩
      exact ⟨hreply, rfl⟩

theorem run_execute_eq_ok {r : Request} {reply : Reply} :
    run (execute c r) s w = (.ok reply, w') ↔
      ∃ ps, (r.prepare s.config.dialect).bind s.config.dialect = .ok ps ∧
        (s.server.answer r ps w.server).1 = .ok reply ∧ w' = answered s c r ps w := by
  rw [execute, run_bind_of_ok run_dialect, run_classifying_eq_ok, run_send_eq_ok]

/-- A request without parameters that is accepted. -/
theorem exists_send {r : Request} {ps : List (String × Sql.Bound)}
    (hbind : (r.prepare s.config.dialect).bind s.config.dialect = .ok ps)
    (h : (s.server.answer r ps w.server).1.isOk = true) :
    ∃ reply, run (send c r) s w = (.ok reply, answered s c r ps w) := by
  obtain ⟨reply, hreply⟩ := Outcome.exists_ok h
  exact ⟨reply, run_send_eq_ok.2 ⟨ps, hbind, hreply, rfl⟩⟩

theorem exists_execute {r : Request} {ps : List (String × Sql.Bound)}
    (hbind : (r.prepare s.config.dialect).bind s.config.dialect = .ok ps)
    (h : (s.server.answer r ps w.server).1.isOk = true) :
    ∃ reply, run (execute c r) s w = (.ok reply, answered s c r ps w) := by
  obtain ⟨reply, hreply⟩ := Outcome.exists_ok h
  exact ⟨reply, run_execute_eq_ok.2 ⟨ps, hbind, hreply, rfl⟩⟩

theorem bind_select (d : Dialect) :
    ((Request.select HistoryTable.select).prepare d).bind d = .ok [] := by
  cases d <;> rfl

/-! ## Looking at the history -/

/-- Looking changes nothing. -/
def Frame.still (k : Archive s.server s.config.dialect) : Frame σ where
  rel w w' := k.rows w'.server = k.rows w.server ∧ k.kept w'.server = k.kept w.server
  refl _ := ⟨rfl, rfl⟩
  trans h h' := ⟨h'.1.trans h.1, h'.2.trans h.2⟩

theorem Frame.still_send (k : Archive s.server s.config.dialect) (c : Nat) (r : Request)
    (h : r.passive = true) : (Frame.still k).Keeps s (send c r) := by
  refine Frame.keeps_send fun ps w => ?_
  have hpassive := k.passive r ps w.server h
  rw [← server_answered (c := c)] at hpassive
  exact hpassive

theorem not_isEmpty_eq_isSome {β γ : Type} {rows : List β} {found : Option γ}
    (h : rows = [] ↔ found = none) : (!rows.isEmpty) = found.isSome := by
  cases rows with
  | nil => rw [h.1 rfl]; rfl
  | cons row rest =>
    cases found with
    | none => cases h.2 rfl
    | some rs => rfl

theorem hasHistory_eq_ok (k : Archive s.server s.config.dialect) {found : Bool}
    (h : run (hasHistory c) s w = (.ok found, w')) : found = (k.rows w.server).isSome := by
  rw [hasHistory, run_bind_of_ok run_dialect] at h
  split at h
  case h_1 hd =>
    obtain ⟨main, v, hmain, h⟩ := (run_bind_eq_ok _ _ _).1 h
    obtain ⟨ps, -, hreply, rfl⟩ := run_execute_eq_ok.1 hmain
    split at h
    case isTrue hempty =>
      obtain ⟨temp, v, htemp, h⟩ := (run_bind_eq_ok _ _ _).1 h
      obtain ⟨ps', -, hreply', rfl⟩ := run_execute_eq_ok.1 htemp
      rw [server_answered] at hreply'
      cases h
      exact not_isEmpty_eq_isSome
        (k.temporary ps ps' w.server main temp hreply (List.isEmpty_iff.1 hempty) hreply')
    case isFalse hempty =>
      cases h
      have hrows := k.columns ps w.server main hreply fun hnil => hempty (List.isEmpty_iff.2 hnil)
      exact (Option.isSome_iff_ne_none.2 hrows).symm
  case h_2 hd =>
    obtain ⟨reply, v, hrun, h⟩ := (run_bind_eq_ok _ _ _).1 h
    obtain ⟨ps, -, hreply, rfl⟩ := run_execute_eq_ok.1 hrun
    cases h
    exact not_isEmpty_eq_isSome (k.table ps w.server reply hreply)

theorem exists_hasHistory (hk : k.Responsive) :
    ∃ w', run (hasHistory c) s w = (.ok (k.rows w.server).isSome, w') := by
  suffices h : ∃ found w', run (hasHistory c) s w = (.ok found, w') by
    obtain ⟨found, w', hrun⟩ := h
    exact ⟨w', hasHistory_eq_ok k hrun ▸ hrun⟩
  rw [hasHistory, run_bind_of_ok run_dialect]
  split
  · obtain ⟨main, hmain⟩ := exists_execute (c := c) (r := .historyColumns "main")
      (bind_ofText _ _) (hk.columns "main" [] w.server)
    rw [run_bind_of_ok hmain]
    split
    · obtain ⟨temp, htemp⟩ := exists_execute (c := c) (r := .historyColumns "temp")
        (bind_ofText _ _) (hk.columns "temp" [] (answered s c (.historyColumns "main") [] w).server)
      rw [run_bind_of_ok htemp]
      exact ⟨_, _, rfl⟩
    · exact ⟨_, _, rfl⟩
  · obtain ⟨reply, hreply⟩ := exists_execute (c := c) (r := .historyTable) (bind_ofText _ _)
      (hk.table [] w.server)
    rw [run_bind_of_ok hreply]
    exact ⟨_, _, rfl⟩

theorem readHistory_eq_ok (k : Archive s.server s.config.dialect) {records : List Applied}
    (h : run (readHistory c) s w = (.ok records, w')) : k.records w.server = .ok records := by
  obtain ⟨found, v, hfound, h⟩ := (run_bind_eq_ok _ _ _).1 h
  have hrows : k.rows v.server = k.rows w.server := by
    have hstill := Frame.keeps_hasHistory (c := c) (Frame.still_send k c) w
    rw [hfound] at hstill
    exact hstill.1
  have hvalue := hasHistory_eq_ok k hfound
  unfold Archive.records
  cases hsome : k.rows w.server with
  | none =>
    rw [hsome] at hvalue
    subst hvalue
    cases h
    rfl
  | some rs =>
    rw [hsome] at hvalue
    subst hvalue
    obtain ⟨d, v', hdialect, h⟩ := (run_bind_eq_ok _ _ _).1 h
    cases hdialect
    obtain ⟨reply, v', hreply, h⟩ := (run_bind_eq_ok _ _ _).1 h
    obtain ⟨ps, -, hanswer, rfl⟩ := run_execute_eq_ok.1 hreply
    rw [run_ofResult, k.select ps v.server reply hanswer rs (hrows.trans hsome)] at h
    exact congrArg Prod.fst h

theorem exists_readHistory (hk : k.Responsive) {records : List Applied}
    (h : k.records w.server = .ok records) :
    ∃ w', run (readHistory c) s w = (.ok records, w') := by
  suffices h' : ∃ outcome w', run (readHistory c) s w = (.ok outcome, w') by
    obtain ⟨outcome, w', hrun⟩ := h'
    have hvalue := readHistory_eq_ok k hrun
    rw [h] at hvalue
    cases hvalue
    exact ⟨w', hrun⟩
  obtain ⟨v, hfound⟩ := exists_hasHistory (c := c) (w := w) hk
  have hrows : k.rows v.server = k.rows w.server := by
    have hstill := Frame.keeps_hasHistory (c := c) (Frame.still_send k c) w
    rw [hfound] at hstill
    exact hstill.1
  rw [readHistory, run_bind_of_ok hfound]
  unfold Archive.records at h
  cases hsome : k.rows w.server with
  | none => exact ⟨_, _, rfl⟩
  | some rs =>
    rw [hsome] at hrows h
    obtain ⟨reply, hreply⟩ := exists_execute (c := c) (bind_select s.config.dialect)
      (hk.select [] v.server rs hrows)
    obtain ⟨ps, -, hanswer, -⟩ := run_execute_eq_ok.1 hreply
    have hdecode : reply.rows.mapM (HistoryTable.decode s.config.dialect) = .ok records := by
      rw [k.select ps v.server reply hanswer rs hrows]
      exact h
    refine ⟨records, answered s c (.select HistoryTable.select) [] v, ?_⟩
    rw [Option.isSome_some, if_pos rfl, run_bind_of_ok run_dialect, run_bind_of_ok hreply,
      run_ofResult, hdecode]

end Session

end SchemaLedger
