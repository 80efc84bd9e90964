import SchemaLedger.Proofs.Session.Application

set_option autoImplicit false

/-!
# What refusals leave

The database may refuse whatever it is asked. However much of it is refused, a transaction of a
migration leaves the history table as it was or as a whole run of its body left it, and the next
operation finds no transaction open.
-/
namespace SchemaLedger

/-- A transaction lasts from its beginning to its end, and a refusal changes nothing. -/
structure Archive.Transactional {σ : Type} {server : Server σ} {d : Dialect}
    (k : Archive server d) : Prop where
  unreachable : ∀ st st' e, server.connect st = (.error e, st') →
    k.rows st' = k.rows st ∧ (k.quiet st → k.quiet st')
  unbegun : ∀ immediate ps st e, (server.answer (.begin immediate) ps st).1 = .error e →
    k.quiet st → k.quiet (server.answer (.begin immediate) ps st).2
  begun : ∀ immediate ps st reply, (server.answer (.begin immediate) ps st).1 = .ok reply →
    ¬ k.quiet (server.answer (.begin immediate) ps st).2
  /-- PostgreSQL opens a transaction for the lock, even if it refuses it. -/
  locked : d = .postgresql → ∀ sql ps st, ¬ k.quiet (server.answer (.lock sql) ps st).2
  lasts : ∀ r ps st, r.Regular d → ¬ k.quiet st →
    ¬ k.quiet (server.answer r ps st).2 ∧ k.kept (server.answer r ps st).2 = k.kept st
  uncommitted : ∀ st st' e, server.commit st = (.error e, st') → k.kept st' = k.kept st

variable {σ α : Type} {s : Setting σ} {u v w w' : World σ} {c : Nat}
  {k : Archive s.server s.config.dialect} {rows : Option (List (List Value))}

/-- The rows that are left when the connection is taken back: a transaction that is still open is
given up then. -/
def Archive.Returns (k : Archive s.server s.config.dialect) (c : Nat) (w : World σ)
    (rows : Option (List (List Value))) : Prop :=
  k.quiet w.server ∧ k.rows w.server = rows ∨ w.Busy c ∧ k.kept w.server = rows

/-- The rows are those of before, or those that a whole run of the body left. -/
def Archive.Reaches (k : Archive s.server s.config.dialect) (body : Session σ α) (w : World σ)
    (rows : Option (List (List Value))) : Prop :=
  rows = k.rows w.server ∨ ∃ u v a, k.rows u.server = k.rows w.server ∧
    Session.run body s u = (.ok a, v) ∧ rows = k.rows v.server

namespace Session

open World (Steady Busy)

/-! ## Making connections -/

theorem atRest_of_checkout_error (hk : k.Transactional) (hw : k.AtRest w) {e : Error}
    (h : run checkout s w = (.error e, u)) :
    k.AtRest u ∧ k.rows u.server = k.rows w.server := by
  rcases checkout_error h with rfl | hconnect
  · exact ⟨hw, rfl⟩
  · have hsteady := Frame.keeps_connect (R := Frame.steady) (s := s)
      (fun _ _ _ _ => ⟨rfl, rfl, fun _ _ hp => hp, fun _ he => List.mem_append_left _ he⟩)
      (fun st w _ => steady_connected st w) (fun _ r _ => Frame.steady_send r)
      (fun _ => ⟨rfl, rfl, fun _ _ hp => hp, fun _ he => List.mem_append_left _ he⟩) w
    have hresting := Frame.keeps_connect (R := Frame.resting k) (s := s)
      (fun w st e hst hq => ?_) (fun st w hst hq => ?_) (fun c r hr => ?_) (fun _ hq => ⟨hq, rfl⟩) w
    · rw [hconnect] at hsteady hresting
      obtain ⟨hquiet, hrows⟩ := hresting hw.quiet
      exact ⟨⟨hw.tidy.of_steady hsteady, hquiet⟩, hrows⟩
    · obtain ⟨hrows, hquiet⟩ := hk.unreachable w.server st e hst
      exact ⟨hquiet hq, hrows⟩
    · obtain ⟨hrows, -, hquiet⟩ := k.connect w.server st hst
      exact ⟨hquiet hq, hrows⟩
    · rcases mem_settings hr with rfl | rfl
      · exact Frame.resting_foreignKeys k c true
      · exact Frame.resting_journal k c

/-! ## Taking back -/

theorem atRest_of_returns (hl : v.Lent s.config c) (h : k.Returns c v rows) :
    k.AtRest (returned s c v) ∧ k.rows (returned s c v).server = rows := by
  rcases h with ⟨hquiet, rfl⟩ | ⟨hbusy, rfl⟩
  · exact atRest_returned hl (Or.inr hquiet) (k.settled v.server hquiet)
  · have hserver := server_returned s c v
    rw [if_pos hbusy] at hserver
    obtain ⟨hquiet, hrows⟩ := k.rollback v.server
    rw [← hserver] at hquiet hrows
    exact ⟨⟨tidy_returned hl, hquiet⟩, hrows⟩

/-- An operation on a lent connection, whether or not it fails. -/
theorem atRest_of_withConnection (hk : k.Transactional) {body : Nat → Session σ α}
    {P : Option (List (List Value)) → Prop} (hw : k.AtRest w) (hsame : P (k.rows w.server))
    (hbody : ∀ c u, u.Lent s.config c → k.quiet u.server → k.rows u.server = k.rows w.server →
      Steady u (run (body c) s u).2 ∧ ∃ rows, k.Returns c (run (body c) s u).2 rows ∧ P rows) :
    k.AtRest (run (withConnection body) s w).2 ∧ P (k.rows (run (withConnection body) s w).2.server) := by
  rw [run_withConnection]
  rcases hcheckout : run checkout s w with ⟨e | c, u⟩
  · obtain ⟨hrest, hrows⟩ := atRest_of_checkout_error hk hw hcheckout
    exact ⟨hrest, hrows ▸ hsame⟩
  · have hlent := lent_of_checkout hw.tidy hcheckout
    obtain ⟨hquiet, hrows⟩ := resting_of_checkout k hcheckout hw.quiet
    obtain ⟨hsteady, rows, hreturns, hP⟩ := hbody c u hlent hquiet hrows
    obtain ⟨hrest, hback⟩ := atRest_of_returns (hlent.of_steady hsteady) hreturns
    exact ⟨hrest, hback ▸ hP⟩

/-! ## Transactions -/

/-- A request that is refused has been sent. -/
theorem run_send_error {r : Request} {ps : List (String × Sql.Bound)} {e : Error}
    (hbind : (r.prepare s.config.dialect).bind s.config.dialect = .ok ps)
    (h : run (send c r) s w = (.error e, u)) :
    ∃ fault, (s.server.answer r ps w.server).1 = .error fault ∧ u = answered s c r ps w := by
  rw [run_send, hbind] at h
  obtain ⟨hreply, rfl⟩ := Prod.mk.inj h
  cases hanswer : (s.server.answer r ps w.server).1 with
  | error fault => exact ⟨fault, rfl, rfl⟩
  | ok reply =>
    rw [hanswer] at hreply
    cases hreply

theorem begin_error (hk : k.Transactional) {immediate : Bool} {e : Error} (hq : k.quiet w.server)
    (h : run (begin c immediate) s w = (.error e, u)) :
    k.quiet u.server ∧ k.rows u.server = k.rows w.server ∧ Steady w u := by
  rw [begin, run_bind_of_ok run_dialect] at h
  split at h
  case h_1 hd =>
    rw [run_discard] at h
    rcases hsend : run (send c (.begin immediate)) s w with ⟨e' | reply, v⟩
    · rw [hsend] at h
      cases h
      obtain ⟨fault, hfault, rfl⟩ := run_send_error (bind_ofText _ _) hsend
      rw [server_answered]
      exact ⟨hk.unbegun immediate [] w.server fault hfault hq, (k.passive _ [] w.server rfl).1,
        steady_answered _ _⟩
    · rw [hsend] at h
      cases h
  case h_2 hd => cases h

/-- On SQLite a transaction is open once it has begun. -/
theorem not_quiet_of_begin (hk : k.Transactional) {immediate : Bool} (hd : s.config.dialect = .sqlite)
    (h : run (begin c immediate) s w = (.ok (), u)) : ¬ k.quiet u.server := by
  rw [begin, run_bind_of_ok run_dialect] at h
  split at h
  case h_1 =>
    obtain ⟨reply, hsend⟩ := (run_discard_eq_ok _).1 h
    obtain ⟨ps, -, hreply, rfl⟩ := run_send_eq_ok.1 hsend
    rw [server_answered]
    exact hk.begun immediate ps w.server reply hreply
  case h_2 hpg => cases hd.symm.trans hpg

/-- What lasts while a transaction is open. -/
def Frame.lasting (k : Archive s.server s.config.dialect) : Frame σ where
  rel w w' := ¬ k.quiet w.server → ¬ k.quiet w'.server ∧ k.kept w'.server = k.kept w.server
  refl _ h := ⟨h, rfl⟩
  trans h h' hq := ⟨(h' (h hq).1).1, (h' (h hq).1).2.trans (h hq).2⟩

theorem Frame.lasting_send (hk : k.Transactional) (c : Nat) (r : Request)
    (h : r.Regular s.config.dialect) : (Frame.lasting k).Keeps s (send c r) := by
  refine Frame.keeps_send fun ps w hq => ?_
  rw [server_answered]
  exact hk.lasts r ps w.server h hq

/-- The operation leaves what a rollback brings back, in a transaction as PostgreSQL and SQLite have
it when the operation starts. -/
def Keeping (k : Archive s.server s.config.dialect) (body : Session σ α) : Prop :=
  ∀ u, (s.config.dialect = .sqlite → ¬ k.quiet u.server) →
    k.kept (run body s u).2.server = k.kept u.server

/-- What is undone is undone to the end. -/
theorem returns_of_rollback (he : Engaged k c v) (h : k.kept v.server = rows) :
    k.Returns c (run (rollback c) s v).2 rows := by
  rw [run_rollback]
  unfold ended
  split
  case isTrue hbusy =>
    obtain ⟨hquiet, hrows⟩ := k.rollback v.server
    exact Or.inl ⟨hquiet, hrows.trans h⟩
  case isFalse hbusy =>
    rcases he.open_or_quiet with hopen | ⟨-, hquiet⟩
    · exact absurd hopen hbusy
    · exact Or.inl ⟨hquiet, (k.settled v.server hquiet).symm.trans h⟩

/-- A commit keeps all that was done, or leaves it to be given up. -/
theorem returns_of_commit (hk : k.Transactional) (he : Engaged k c v) :
    k.Returns c (run (commit c) s v).2 (k.rows v.server) ∨
      k.Returns c (run (commit c) s v).2 (k.kept v.server) := by
  rw [run_commit]
  split
  case isTrue hbusy =>
    rcases hcommit : s.server.commit v.server with ⟨e | ⟨⟩, st⟩
    · exact Or.inr (Or.inr ⟨hbusy, hk.uncommitted v.server st e hcommit⟩)
    · obtain ⟨hquiet, hrows⟩ := k.commit v.server st hcommit
      exact Or.inl (Or.inl ⟨hquiet, hrows⟩)
  case isFalse hbusy =>
    rcases he.open_or_quiet with hopen | ⟨-, hquiet⟩
    · exact absurd hopen hbusy
    · exact Or.inl (Or.inl ⟨hquiet, rfl⟩)

/-- A transaction that may fail leaves what was there before, or what its body left. -/
theorem returns_of_inside (hk : k.Transactional) {body : Session σ α} (hbody : Sends s c body)
    (hkeep : Keeping k body) (immediate : Bool) {p : Nat} (hp : w.poolOf c = some p)
    (hq : k.quiet w.server) :
    Steady w (run (inside c immediate body) s w).2 ∧
      ∃ rows, k.Returns c (run (inside c immediate body) s w).2 rows ∧ k.Reaches body w rows := by
  rw [inside, run_bind, run_classifying]
  rcases hbegin : run (begin c immediate) s w with ⟨e | ⟨⟩, u⟩
  · obtain ⟨hquiet, hrows, hsteady⟩ := begin_error hk hq hbegin
    exact ⟨hsteady, _, Or.inl ⟨hquiet, hrows⟩, Or.inl rfl⟩
  · obtain ⟨he, hsteady, hstill⟩ := begin_eq_ok k hp hq hbegin
    have hkept : k.kept (run body s u).2.server = k.rows w.server := by
      rw [hkeep u fun hd => not_quiet_of_begin hk hd hbegin, hstill.2, k.settled w.server hq]
    have hev := hbody.engaged he
    have hsv := hsteady.trans (hbody.steady u)
    dsimp only [Except.mapError]
    rw [run_bind, run_attempt]
    rcases hrun : run body s u with ⟨e | a, v⟩
    · rw [hrun] at hkept hev hsv
      have hback := returns_of_rollback (s := s) hev hkept
      rw [run_rollback] at hback
      dsimp only
      rw [run_bind_of_ok run_rollback]
      exact ⟨hsv.trans (steady_ended s c v), _, hback, Or.inl rfl⟩
    · rw [hrun] at hkept hev hsv
      have hworld : (run (do classifying none (commit c); pure a) s v).2 = (run (commit c) s v).2 := by
        rw [run_bind, run_classifying]
        rcases run (commit c) s v with ⟨e | ⟨⟩, v'⟩ <;> rfl
      dsimp only
      rw [hworld]
      refine ⟨hsv.trans (steady_commit c v), ?_⟩
      rcases returns_of_commit (s := s) hk hev with h | h
      · exact ⟨_, h, Or.inr ⟨u, v, a, hstill.1, hrun, rfl⟩⟩
      · exact ⟨_, h, Or.inl hkept⟩

/-- The switch of the references changes nothing that is left. -/
theorem returns_answered (on : Bool) (ps : List (String × Sql.Bound)) (h : k.Returns c v rows) :
    k.Returns c (answered s c (.foreignKeys on) ps v) rows := by
  obtain ⟨hrows, hkept⟩ := k.passive (.foreignKeys on) ps v.server rfl
  unfold Archive.Returns
  rw [server_answered, hrows, hkept]
  exact h.imp (fun ⟨hquiet, hr⟩ => ⟨k.foreignKeys on ps v.server hquiet, hr⟩)
    fun ⟨hbusy, hr⟩ => ⟨busy_answered _ ps hbusy, hr⟩

theorem run_switch (c : Nat) (on : Bool) (w : World σ) :
    (run (send c (.foreignKeys on)) s w).2 = answered s c (.foreignKeys on) [] w := by
  rw [run_send]
  rfl

theorem run_lock (c : Nat) (sql : String) (w : World σ) :
    (run (discard (execute c (.lock sql))) s w).2 = answered s c (.lock sql) [] w := by
  rw [run_discard, execute, run_bind_of_ok run_dialect, run_classifying, run_send]
  rfl

/-- On PostgreSQL the lock opens the transaction, so that the body is inside of one. -/
theorem keeping_locked (hk : k.Transactional) (hd : s.config.dialect = .postgresql)
    {body : Session σ α} (hbody : (Frame.lasting k).Keeps s body) : Keeping k (locked c body) := by
  intro u _
  obtain ⟨sql, hsql⟩ : ∃ sql, Dialect.postgresql.lockStatements = [sql] := ⟨_, rfl⟩
  have hlock : ∀ u', u' = (run (Dialect.postgresql.lockStatements.forM fun sql =>
      discard (execute c (.lock sql))) s u).2 →
        ¬ k.quiet u'.server ∧ k.kept u'.server = k.kept u.server := by
    rintro _ rfl
    have hworld : (run ([sql].forM fun sql => discard (execute c (.lock sql))) s u).2 =
        answered s c (.lock sql) [] u := by
      rw [← run_lock c sql u, List.forM_eq_forM, List.forM_cons, run_bind]
      rcases run (discard (execute c (.lock sql))) s u with ⟨e | ⟨⟩, v⟩ <;> rfl
    rw [hsql, hworld, server_answered]
    exact ⟨hk.locked hd sql [] u.server, (k.passive (.lock sql) [] u.server rfl).2⟩
  rw [locked, run_bind]
  rcases hrun : run (Dialect.postgresql.lockStatements.forM fun sql =>
    discard (execute c (.lock sql))) s u with ⟨e | ⟨⟩, u'⟩
  · exact (hlock u' (by rw [hrun])).2
  · obtain ⟨hopen, hkept⟩ := hlock u' (by rw [hrun])
    exact (hbody u' hopen).2.trans hkept

/-- The lock comes before the body and leaves the rows alone. -/
theorem reaches_of_locked {body : Session σ α} (h : k.Reaches (locked c body) w rows) :
    k.Reaches body w rows := by
  rcases h with h | ⟨u, v, a, hu, hrun, hrows⟩
  · exact Or.inl h
  · obtain ⟨⟨⟩, u', hlock, hrun⟩ := (run_bind_eq_ok _ _ _).1 hrun
    have hstill := keeps_lock (c := c) (fun sql => Frame.still_send k c (.lock sql) rfl) u
    rw [hlock] at hstill
    exact Or.inr ⟨u', v, a, hstill.1.trans hu, hrun, hrows⟩

/-- The switches of the references with a transaction between them. -/
def switched (c : Nat) (body : Session σ α) : Session σ α := do
  let _ ← send c (.foreignKeys false)
  ensuring (discard (send c (.foreignKeys true))) (inside c true body)

theorem returns_of_switched (hk : k.Transactional) (hd : s.config.dialect = .sqlite)
    {body : Session σ α} (hbody : Sends s c body) (hkeep : (Frame.lasting k).Keeps s body)
    {p : Nat} (hp : w.poolOf c = some p) (hq : k.quiet w.server) :
    Steady w (run (switched c body) s w).2 ∧
      ∃ rows, k.Returns c (run (switched c body) s w).2 rows ∧ k.Reaches body w rows := by
  have hswitch := run_switch (s := s) c false w
  have hsteady := steady_answered (s := s) (c := c) (w := w) (.foreignKeys false) []
  have hrest := Frame.resting_foreignKeys k c false w hq
  rw [← hswitch] at hsteady
  rw [switched, run_bind]
  rcases hoff : run (send c (.foreignKeys false)) s w with ⟨e | reply, u⟩
  · rw [hoff] at hsteady hrest
    exact ⟨hsteady, _, Or.inl hrest, Or.inl rfl⟩
  · rw [hoff] at hsteady hrest
    obtain ⟨hin, rows, hreturns, hreaches⟩ := returns_of_inside hk hbody
      (fun u' hu' => (hkeep u' (hu' hd)).2) true (hsteady.pools c p hp) hrest.1
    have hworld : (run (ensuring (discard (send c (.foreignKeys true))) (inside c true body)) s u).2 =
        answered s c (.foreignKeys true) [] (run (inside c true body) s u).2 := by
      rw [← run_switch, run_ensuring, run_discard]
      rcases run (send c (.foreignKeys true)) s (run (inside c true body) s u).2 with ⟨e | r, v⟩ <;> rfl
    dsimp only
    rw [hworld]
    refine ⟨(hsteady.trans hin).trans (steady_answered _ _), rows, returns_answered true [] hreturns, ?_⟩
    rcases hreaches with h | ⟨u', v, a, hu', hrun, hv⟩
    · exact Or.inl (h.trans hrest.2)
    · exact Or.inr ⟨u', v, a, hu'.trans hrest.2, hrun, hv⟩

/-- A migration that may fail leaves what was there before, or what its body left. -/
theorem migrating_cases (hk : k.Transactional) {body : Nat → Session σ α}
    (hbody : ∀ c, Sends s c (body c)) (hkeep : ∀ c, (Frame.lasting k).Keeps s (body c))
    (hw : k.AtRest w) :
    k.AtRest (run (migrating body) s w).2 ∧
      (k.rows (run (migrating body) s w).2.server = k.rows w.server ∨
        ∃ c u v a, k.rows u.server = k.rows w.server ∧ run (body c) s u = (.ok a, v) ∧
          k.rows (run (migrating body) s w).2.server = k.rows v.server) := by
  refine atRest_of_withConnection hk
    (P := fun rows => rows = k.rows w.server ∨ ∃ c u v a, k.rows u.server = k.rows w.server ∧
      run (body c) s u = (.ok a, v) ∧ rows = k.rows v.server) hw (Or.inl rfl)
    fun c u hlent hquiet hrows => ?_
  suffices h : Steady u (run (migratingOn c (body c)) s u).2 ∧
      ∃ rows, k.Returns c (run (migratingOn c (body c)) s u).2 rows ∧ k.Reaches (body c) u rows by
    obtain ⟨hsteady, rows, hreturns, hreaches⟩ := h
    refine ⟨hsteady, rows, hreturns, ?_⟩
    rcases hreaches with h | ⟨u', v, a, hu', hrun, hv⟩
    · exact Or.inl (h.trans hrows)
    · exact Or.inr ⟨c, u', v, a, hu'.trans hrows, hrun, hv⟩
  rw [migratingOn, run_bind_of_ok run_dialect]
  split
  case h_1 hd =>
    exact returns_of_switched hk hd (hbody c) (hkeep c) hlent.present hquiet
  case h_2 hd =>
    obtain ⟨hsteady, rows, hreturns, hreaches⟩ := returns_of_inside hk (sends_locked (hbody c))
      (keeping_locked hk hd (hkeep c)) false hlent.present hquiet
    exact ⟨hsteady, rows, hreturns, reaches_of_locked hreaches⟩

/-- A look that may fail leaves the history table as it was. -/
theorem reading_cases (hk : k.Transactional) {body : Nat → Session σ α}
    (hbody : ∀ c, Sends s c (body c)) (hstill : ∀ c, (Frame.still k).Keeps s (body c))
    (hw : k.AtRest w) : k.AtRest (run (reading body) s w).2 ∧
      k.rows (run (reading body) s w).2.server = k.rows w.server := by
  refine atRest_of_withConnection hk (P := fun rows => rows = k.rows w.server) hw rfl
    fun c u hlent hquiet hrows => ?_
  rw [run_bind, run_classifying]
  rcases hbegin : run (begin c) s u with ⟨e | ⟨⟩, u'⟩
  · obtain ⟨hquiet', hsame, hsteady⟩ := begin_error hk hquiet hbegin
    exact ⟨hsteady, _, Or.inl ⟨hquiet', hsame⟩, hrows⟩
  · obtain ⟨he, hsteady, hbegun⟩ := begin_eq_ok k hlent.present hquiet hbegin
    have hev := (hbody c).engaged he
    have hseen := hstill c u'
    refine ⟨hsteady.trans ((hbody c).steady u'), k.rows u.server, ?_, hrows⟩
    rcases hev.open_or_quiet with hbusy | ⟨-, hq⟩
    · exact Or.inr ⟨hbusy, (hseen.2.trans hbegun.2).trans (k.settled u.server hquiet)⟩
    · exact Or.inl ⟨hq, hseen.1.trans hbegun.1⟩

theorem status_cases (hk : k.Transactional) (m : Migrator) (hw : k.AtRest w) :
    k.AtRest (run (status m) s w).2 ∧ k.rows (run (status m) s w).2.server = k.rows w.server :=
  reading_cases hk (sends_statusOn m)
    (fun c => Frame.keeps_statusOn (c := c) (Frame.still_send k c) m) hw

/-- A transaction for the next batch adds what a whole application of it adds, or nothing. -/
theorem round_cases (hk : k.Transactional) (m : Migrator) (hw : k.AtRest w) :
    k.AtRest (run (migrating (applyNext m)) s w).2 ∧
      (k.rows (run (migrating (applyNext m)) s w).2.server = k.rows w.server ∨
        ∃ c u v o, k.rows u.server = k.rows w.server ∧ run (applyNext m c) s u = (.ok o, v) ∧
          k.rows (run (migrating (applyNext m)) s w).2.server = k.rows v.server) :=
  migrating_cases hk (sends_applyNext m)
    (fun c => Frame.keeps_applyNext (Frame.lasting_send hk c) m) hw

end Session

end SchemaLedger
