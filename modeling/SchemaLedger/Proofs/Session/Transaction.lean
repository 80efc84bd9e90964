import SchemaLedger.Proofs.Session.Archive
import SchemaLedger.Proofs.Session.Exchange

set_option autoImplicit false

/-!
# Transactions on an archive

What a transaction leaves of the history table: all that its body did if it succeeds, and nothing of
it if it only reads. Between two transactions the database is quiet.
-/
namespace SchemaLedger

variable {σ α : Type} {s : Setting σ} {u v w w' : World σ} {c : Nat} {a : α}
  {k : Archive s.server s.config.dialect}

/-- No transaction is open, and every connection that waits can be lent. -/
structure Archive.AtRest (k : Archive s.server s.config.dialect) (w : World σ) : Prop where
  tidy : w.Tidy
  quiet : k.quiet w.server

namespace Session

open World (Steady Busy)

/-- The operation changes the world only by sending requests on a connection. -/
def Sends (s : Setting σ) (c : Nat) (x : Session σ α) : Prop :=
  ∀ R : Frame σ, (∀ r, R.Keeps s (send c r)) → R.Keeps s x

/-- A transaction is open. On PostgreSQL, which opens one by itself, it may be still to come. -/
structure Engaged (k : Archive s.server s.config.dialect) (c : Nat) (w : World σ) : Prop where
  present : ∃ p, w.poolOf c = some p
  open_or_quiet : w.Busy c ∨ s.config.dialect = .postgresql ∧ k.quiet w.server

theorem Engaged.answered (h : Engaged k c w) (r : Request) (ps : List (String × Sql.Bound)) :
    Engaged k c (answered s c r ps w) := by
  obtain ⟨p, hp⟩ := h.present
  refine ⟨⟨p, (steady_answered r ps).pools c p hp⟩, Or.inl ?_⟩
  rcases h.open_or_quiet with hbusy | ⟨hd, -⟩
  · exact busy_answered r ps hbusy
  · refine busy_of_opens hp ?_
    rw [hd]
    rfl

def Frame.engaged (k : Archive s.server s.config.dialect) (c : Nat) : Frame σ where
  rel w w' := Engaged k c w → Engaged k c w'
  refl _ h := h
  trans h h' he := h' (h he)

theorem Sends.engaged {x : Session σ α} (hx : Sends s c x) (h : Engaged k c w) :
    Engaged k c (run x s w).2 :=
  hx (Frame.engaged k c) (fun r => Frame.keeps_send fun ps _ he => he.answered r ps) w h

theorem Sends.steady {x : Session σ α} (hx : Sends s c x) (w : World σ) :
    Steady w (run x s w).2 :=
  hx Frame.steady (fun r => Frame.steady_send r) w

/-! ## Beginning -/

theorem begin_eq_ok (k : Archive s.server s.config.dialect) {immediate : Bool} {p : Nat}
    (hp : w.poolOf c = some p) (hq : k.quiet w.server)
    (h : run (begin c immediate) s w = (.ok (), w')) :
    Engaged k c w' ∧ Steady w w' ∧ (Frame.still k).rel w w' := by
  rw [begin, run_bind_of_ok run_dialect] at h
  split at h
  case h_1 hd =>
    obtain ⟨reply, hsend⟩ := (run_discard_eq_ok _).1 h
    obtain ⟨ps, -, hreply, rfl⟩ := run_send_eq_ok.1 hsend
    have hsteady := steady_answered (s := s) (c := c) (w := w) (.begin immediate) ps
    have hstill := Frame.still_send k c (.begin immediate) rfl w
    rw [hsend] at hstill
    refine ⟨⟨⟨p, hsteady.pools c p hp⟩, Or.inl (busy_of_opens hp ?_)⟩, hsteady, hstill⟩
    rw [hd, hreply]
    rfl
  case h_2 hd =>
    cases h
    exact ⟨⟨⟨p, hp⟩, Or.inr ⟨hd, hq⟩⟩, Steady.refl w, (Frame.still k).refl w⟩

theorem exists_begin (hk : k.Responsive) (immediate : Bool) (hq : k.quiet w.server) :
    ∃ w', run (begin c immediate) s w = (.ok (), w') := by
  rw [begin, run_bind_of_ok run_dialect]
  split
  · obtain ⟨reply, hsend⟩ := exists_send (c := c) (r := .begin immediate) (bind_ofText _ _)
      (hk.begin immediate [] w.server hq)
    exact ⟨_, (run_discard_eq_ok _).2 ⟨reply, hsend⟩⟩
  · exact ⟨w, rfl⟩

/-! ## Ending -/

theorem run_commit : run (commit c) s w =
    if w.Busy c then
      ((s.server.commit w.server).1.mapError .driver,
        { w with
          log := w.log ++ [.commit], server := (s.server.commit w.server).2,
          connections := if (s.server.commit w.server).1.toBool then
            w.connections.modify c fun x => { x with busy := false } else w.connections })
    else (.ok (), w) := by
  rw [commit, run_bind_of_ok (run_isBusy c)]
  by_cases h : w.Busy c
  · have hbusy : (w.connections[c]?.map (·.busy)).getD false = true := h
    rw [if_pos h, if_pos hbusy, run_bind_of_ok run_read, run_bind_of_ok (run_record _),
      run_bind_of_ok (run_ask _)]
    split
    case isTrue hok => rw [run_bind_of_ok (run_setBusy c false), run_orDriver]
    case isFalse hok => rw [run_orDriver]
  · have hbusy : ¬(w.connections[c]?.map (·.busy)).getD false = true := h
    rw [if_neg h, if_neg hbusy, run_pure]

theorem steady_commit (c : Nat) (w : World σ) : Steady w (run (commit c) s w).2 := by
  rw [run_commit]
  split
  · refine ⟨rfl, rfl, fun i p hp => ?_, fun e he => List.mem_append_left _ he⟩
    dsimp only
    split
    · exact (World.poolOf_modify w c false i).trans hp
    · exact hp
  · exact Steady.refl w

theorem commit_eq_ok (he : Engaged k c w) (h : run (commit c) s w = (.ok (), w')) :
    k.quiet w'.server ∧ k.rows w'.server = k.rows w.server := by
  rw [run_commit] at h
  split at h
  case isTrue hbusy =>
    obtain ⟨hok, rfl⟩ := Prod.mk.inj h
    rw [Outcome.mapError_eq_ok] at hok
    exact k.commit w.server _ (Prod.ext hok rfl)
  case isFalse hbusy =>
    cases h
    rcases he.open_or_quiet with hopen | ⟨-, hquiet⟩
    · exact absurd hopen hbusy
    · exact ⟨hquiet, rfl⟩

theorem exists_commit (hk : k.Responsive) (w : World σ) (c : Nat) :
    ∃ w', run (commit c) s w = (.ok (), w') := by
  rw [run_commit]
  split
  · obtain ⟨⟨⟩, hok⟩ := Outcome.exists_ok (hk.commit w.server)
    rw [hok]
    exact ⟨_, rfl⟩
  · exact ⟨w, rfl⟩

/-! ## Lending from a database at rest -/

/-- What lasts while no transaction is open. -/
def Frame.resting (k : Archive s.server s.config.dialect) : Frame σ where
  rel w w' := k.quiet w.server → k.quiet w'.server ∧ k.rows w'.server = k.rows w.server
  refl _ h := ⟨h, rfl⟩
  trans h h' hq := ⟨(h' (h hq).1).1, (h' (h hq).1).2.trans (h hq).2⟩

theorem Frame.resting_foreignKeys (k : Archive s.server s.config.dialect) (c : Nat) (on : Bool) :
    (Frame.resting k).Keeps s (send c (.foreignKeys on)) := by
  refine Frame.keeps_send fun ps w hq => ?_
  rw [server_answered]
  exact ⟨k.foreignKeys on ps w.server hq, (k.passive _ ps w.server rfl).1⟩

theorem Frame.resting_journal (k : Archive s.server s.config.dialect) (c : Nat) :
    (Frame.resting k).Keeps s (send c .journal) := by
  refine Frame.keeps_send fun ps w hq => ?_
  rw [server_answered]
  exact ⟨k.journal ps w.server hq, (k.passive _ ps w.server rfl).1⟩

theorem resting_of_checkout (k : Archive s.server s.config.dialect)
    (h : run checkout s w = (.ok c, u)) : (Frame.resting k).rel w u := by
  refine Frame.rel_of_checkout (fun _ _ _ hq => ⟨hq, rfl⟩) (fun st w hst hq => ?_)
    (fun c r hr => ?_) h
  · obtain ⟨hrows, -, hquiet⟩ := k.connect w.server st hst
    exact ⟨hquiet hq, hrows⟩
  · rcases mem_settings hr with rfl | rfl
    · exact Frame.resting_foreignKeys k c true
    · exact Frame.resting_journal k c

/-- The log only grows. -/
def Frame.logged : Frame σ where
  rel w w' := ∀ e ∈ w.log, e ∈ w'.log
  refl _ _ h := h
  trans h h' e he := h' e (h e he)

theorem Frame.surrounds_of_events {R : Frame σ}
    (hsame : ∀ w w', w'.log = w.log → w'.server = w.server → w.SameHandles w' → R.rel w w')
    (hevent : ∀ e w w', e.routine = true → w'.log = w.log ++ [e] →
      w'.server = (s.server.hear e w.server).2 → w.SameHandles w' → R.rel w w') :
    R.Surrounds s where
  toLends := Frame.lends_of_events hsame fun e w w' he _ => hevent e w w' he
  commit c w := by
    rw [run_commit]
    split
    · exact hevent .commit w _ rfl rfl rfl ⟨rfl, rfl⟩
    · exact R.refl w

theorem Frame.logged_surrounds (s : Setting σ) : Frame.logged.Surrounds s :=
  Frame.surrounds_of_events (fun _ _ hlog _ _ _ he => hlog ▸ he)
    fun _ _ _ _ hlog _ _ _ he => hlog ▸ List.mem_append_left _ he

/-- A connection comes back to a database at rest if a rollback would change nothing. -/
theorem atRest_returned (hl : v.Lent s.config c) (hq : v.Busy c ∨ k.quiet v.server)
    (hkept : k.kept v.server = k.rows v.server) :
    k.AtRest (returned s c v) ∧ k.rows (returned s c v).server = k.rows v.server := by
  have hserver := server_returned s c v
  split at hserver
  case isTrue hbusy =>
    obtain ⟨hquiet, hrows⟩ := k.rollback v.server
    rw [← hserver] at hquiet hrows
    exact ⟨⟨tidy_returned hl, hquiet⟩, hrows.trans hkept⟩
  case isFalse hbusy =>
    have hquiet := hq.resolve_left hbusy
    rw [← hserver] at hquiet
    exact ⟨⟨tidy_returned hl, hquiet⟩, congrArg k.rows hserver⟩

/-! ## Whole transactions -/

namespace Frame.Lends

variable {R : Frame σ}

theorem keeps_begin (h : R.Lends s) (c : Nat) (immediate : Bool) :
    R.Keeps s (begin c immediate) := by
  refine Frame.keeps_dialect ?_
  split
  · exact Frame.keeps_discard (h.preparatory c _ rfl)
  · exact Frame.keeps_pure _

theorem keeps_rollback (h : R.Lends s) (c : Nat) : R.Keeps s (rollback c) := by
  intro w
  rw [run_rollback]
  exact h.ended c w

theorem keeps_reading (h : R.Lends s) {body : Nat → Session σ α}
    (hbody : ∀ c, R.Keeps s (body c)) : R.Keeps s (reading body) :=
  h.keeps_withConnection fun c =>
    Frame.keeps_bind (Frame.keeps_classifying _ (h.keeps_begin c false)) fun _ => hbody c

end Frame.Lends

theorem Frame.Surrounds.keeps_inside {R : Frame σ} (h : R.Surrounds s) {body : Session σ α}
    (hbody : R.Keeps s body) (immediate : Bool) : R.Keeps s (inside c immediate body) := by
  refine Frame.keeps_bind (Frame.keeps_classifying _ (h.keeps_begin c immediate)) fun _ =>
    Frame.keeps_bind (Frame.keeps_attempt hbody) fun outcome => ?_
  cases outcome with
  | ok a =>
    exact Frame.keeps_bind (Frame.keeps_classifying _ (h.commit c)) fun _ => Frame.keeps_pure a
  | error e => exact Frame.keeps_bind (h.keeps_rollback c) fun _ => Frame.keeps_throw e

/-- A transaction that succeeds leaves what its body left. -/
theorem inside_eq_ok {R : Frame σ} (hR : R.Surrounds s) {body : Session σ α}
    (hbody : Sends s c body) {immediate : Bool} {p : Nat} (hp : w.poolOf c = some p)
    (hq : k.quiet w.server) (h : run (inside c immediate body) s w = (.ok a, w')) :
    ∃ u v, R.rel w u ∧ (Frame.still k).rel w u ∧ run body s u = (.ok a, v) ∧ R.rel v w' ∧
      k.quiet w'.server ∧ k.rows w'.server = k.rows v.server ∧ Steady w w' := by
  obtain ⟨⟨⟩, u, hbegin, h⟩ := (run_bind_eq_ok _ _ _).1 h
  rw [run_classifying_eq_ok] at hbegin
  obtain ⟨he, hsteady, hstill⟩ := begin_eq_ok k hp hq hbegin
  have hbefore := hR.keeps_begin c immediate w
  rw [hbegin] at hbefore
  obtain ⟨outcome, v, hattempt, h⟩ := (run_bind_eq_ok _ _ _).1 h
  rw [run_attempt] at hattempt
  obtain ⟨houtcome, hv⟩ := Prod.mk.inj hattempt
  cases outcome with
  | error e =>
    obtain ⟨⟨⟩, v', -, h⟩ := (run_bind_eq_ok _ _ _).1 h
    cases h
  | ok b =>
    obtain ⟨⟨⟩, v', hcommit, h⟩ := (run_bind_eq_ok _ _ _).1 h
    cases h
    rw [run_classifying_eq_ok] at hcommit
    have hrun : run body s u = (.ok a, v) := Prod.ext (Except.ok.inj houtcome) hv
    have hev := hbody.engaged he
    have hsv := hbody.steady u
    rw [hrun] at hev hsv
    obtain ⟨hquiet, hrows⟩ := commit_eq_ok hev hcommit
    have hafter := hR.commit c v
    have hs := steady_commit (s := s) c v
    rw [hcommit] at hafter hs
    exact ⟨u, v, hbefore, hstill, hrun, hafter, hquiet, hrows, (hsteady.trans hsv).trans hs⟩

theorem exists_inside (hk : k.Responsive) {body : Session σ α} (immediate : Bool) {p : Nat}
    (hp : w.poolOf c = some p) (hq : k.quiet w.server)
    (hbody : ∀ u, k.rows u.server = k.rows w.server → ∃ v, run body s u = (.ok a, v)) :
    ∃ w', run (inside c immediate body) s w = (.ok a, w') := by
  obtain ⟨u, hbegin⟩ := exists_begin (c := c) hk immediate hq
  obtain ⟨-, -, hstill⟩ := begin_eq_ok k hp hq hbegin
  obtain ⟨v, hrun⟩ := hbody u hstill.1
  obtain ⟨w', hcommit⟩ := exists_commit hk v c
  refine ⟨w', ?_⟩
  rw [inside, run_bind_of_ok ((run_classifying_eq_ok _ _ _).2 hbegin), run_bind, run_attempt, hrun]
  dsimp only
  rw [run_bind_of_ok ((run_classifying_eq_ok _ _ _).2 hcommit), run_pure]

/-- Reading leaves the history as it was, and sees it. -/
theorem reading_eq_ok {body : Nat → Session σ α} (hbody : ∀ c, Sends s c (body c))
    (hstill : ∀ c, (Frame.still k).Keeps s (body c)) (hw : k.AtRest w)
    (h : run (reading body) s w = (.ok a, w')) :
    k.AtRest w' ∧ w'.idle ≠ [] ∧ k.rows w'.server = k.rows w.server ∧
      ∃ c u v, k.rows u.server = k.rows w.server ∧ run (body c) s u = (.ok a, v) := by
  obtain ⟨c, u, v, hcheckout, hlast, rfl⟩ := (run_withConnection_eq_ok _).1 h
  obtain ⟨⟨⟩, u', hbegin, hrun⟩ := (run_bind_eq_ok _ _ _).1 hlast
  have hlent := lent_of_checkout hw.tidy hcheckout
  obtain ⟨hquiet, hrows⟩ := resting_of_checkout k hcheckout hw.quiet
  obtain ⟨he, hs, hbegun⟩ :=
    begin_eq_ok k hlent.present hquiet ((run_classifying_eq_ok _ _ _).1 hbegin)
  have hev := (hbody c).engaged he
  have hsv := (hbody c).steady u'
  have hseen := hstill c u'
  rw [hrun] at hev hsv hseen
  have hkept : k.kept v.server = k.rows v.server := by
    rw [hseen.1, hseen.2, hbegun.1, hbegun.2]
    exact k.settled u.server hquiet
  have hl := (hlent.of_steady hs).of_steady hsv
  obtain ⟨hrest, hback⟩ := atRest_returned hl (hev.open_or_quiet.imp_right And.right) hkept
  refine ⟨hrest, idle_returned hl, ?_, c, u', v, hbegun.1.trans hrows, hrun⟩
  rw [hback, hseen.1, hbegun.1, hrows]

theorem exists_reading (hk : k.Responsive) {body : Nat → Session σ α} (hw : k.AtRest w)
    (hidle : w.idle ≠ [])
    (hbody : ∀ c u, k.rows u.server = k.rows w.server → ∃ v, run (body c) s u = (.ok a, v)) :
    ∃ w', run (reading body) s w = (.ok a, w') := by
  obtain ⟨c, u, hcheckout⟩ := exists_checkout (s := s) hidle
  have hlent := lent_of_checkout hw.tidy hcheckout
  obtain ⟨hquiet, hrows⟩ := resting_of_checkout k hcheckout hw.quiet
  obtain ⟨u', hbegin⟩ := exists_begin (c := c) hk false hquiet
  obtain ⟨-, -, hbegun⟩ := begin_eq_ok k hlent.present hquiet hbegin
  obtain ⟨v, hrun⟩ := hbody c u' (hbegun.1.trans hrows)
  refine ⟨returned s c v, (run_withConnection_eq_ok _).2 ⟨c, u, v, hcheckout, ?_, rfl⟩⟩
  rw [run_bind_of_ok ((run_classifying_eq_ok _ _ _).2 hbegin), hrun]

/-- The locks of PostgreSQL, and then the body. -/
def locked (c : Nat) (body : Session σ α) : Session σ α := do
  Dialect.postgresql.lockStatements.forM fun sql => discard (execute c (.lock sql))
  body

/-- A migration on a connection that was lent. -/
def migratingOn (c : Nat) (body : Session σ α) : Session σ α := do
  match ← dialect with
  | .sqlite => do
    let _ ← send c (.foreignKeys false)
    ensuring (discard (send c (.foreignKeys true))) (inside c true body)
  | .postgresql => inside c false (locked c body)

theorem keeps_lock {R : Frame σ} (h : ∀ sql, R.Keeps s (send c (.lock sql))) :
    R.Keeps s (Dialect.postgresql.lockStatements.forM fun sql =>
      discard (execute c (.lock sql))) :=
  Frame.keeps_forM fun sql _ => Frame.keeps_discard (Frame.keeps_execute (h sql))

theorem Frame.Surrounds.keeps_migrating {R : Frame σ} (h : R.Surrounds s)
    {body : Nat → Session σ α} (hbody : ∀ c, R.Keeps s (body c)) : R.Keeps s (migrating body) := by
  refine h.keeps_withConnection fun c => Frame.keeps_dialect ?_
  split
  · exact Frame.keeps_bind (h.preparatory c _ rfl) fun _ => Frame.keeps_ensuring
      (Frame.keeps_discard (h.preparatory c _ rfl)) (h.keeps_inside (hbody c) true)
  · exact h.keeps_inside
      (Frame.keeps_bind (keeps_lock fun _ => h.preparatory c _ rfl) fun _ => hbody c) false

theorem sends_locked {body : Session σ α} (hbody : Sends s c body) : Sends s c (locked c body) :=
  fun R h => Frame.keeps_bind (keeps_lock fun _ => h _) fun _ => hbody R h

theorem exists_lock (hk : k.Responsive) (sqls : List String) (w : World σ) :
    ∃ w', run (sqls.forM fun sql => discard (execute c (.lock sql))) s w = (.ok ⟨⟩, w') := by
  induction sqls generalizing w with
  | nil => exact ⟨w, rfl⟩
  | cons sql rest ih =>
    obtain ⟨reply, hlock⟩ := exists_execute (c := c) (r := .lock sql) (bind_ofText _ _)
      (hk.lock sql [] w.server)
    obtain ⟨w', hrest⟩ := ih (answered s c (.lock sql) [] w)
    exact ⟨w', (run_bind_eq_ok _ _ _).2 ⟨⟨⟩, _, (run_discard_eq_ok _).2 ⟨reply, hlock⟩, hrest⟩⟩

/-- A migration that succeeds leaves what its body left. -/
theorem migrating_within {R : Frame σ} (hR : R.Surrounds s) {body : Nat → Session σ α}
    (hbody : ∀ c, Sends s c (body c)) (hw : k.AtRest w)
    (h : run (migrating body) s w = (.ok a, w')) :
    k.AtRest w' ∧ w'.idle ≠ [] ∧ ∃ c u v, R.rel w u ∧ k.rows u.server = k.rows w.server ∧
      run (body c) s u = (.ok a, v) ∧ R.rel v w' ∧ k.rows w'.server = k.rows v.server := by
  obtain ⟨c, u, v, hcheckout, hlast, rfl⟩ := (run_withConnection_eq_ok _).1 h
  have hlent := lent_of_checkout hw.tidy hcheckout
  have hbefore := hR.rel_of_checkout hcheckout
  have hafter := hR.returned c v
  obtain ⟨hquiet, hrows⟩ := resting_of_checkout k hcheckout hw.quiet
  -- Whatever came before and after it, the transaction ends in a database that is quiet.
  have hend : k.quiet v.server → Steady u v → k.AtRest (returned s c v) ∧
      (returned s c v).idle ≠ [] ∧ k.rows (returned s c v).server = k.rows v.server := by
    intro hq hs
    have hl := hlent.of_steady hs
    obtain ⟨hrest, hback⟩ := atRest_returned hl (Or.inr hq) (k.settled v.server hq)
    exact ⟨hrest, idle_returned hl, hback⟩
  rw [run_bind_of_ok run_dialect] at hlast
  split at hlast
  case h_1 hd =>
    -- Both switches of the references are outside the transaction.
    obtain ⟨reply, u₁, hoff, hlast⟩ := (run_bind_eq_ok _ _ _).1 hlast
    have hrest := Frame.resting_foreignKeys k c false u hquiet
    have hoffs := Frame.steady_send (s := s) (c := c) (.foreignKeys false) u
    have hoffR := hR.preparatory c (.foreignKeys false) rfl u
    rw [hoff] at hrest hoffs hoffR
    obtain ⟨hin, hon⟩ := (run_ensuring_eq_ok _ _ _).1 hlast
    obtain ⟨u₂, v₁, hbegunR, hbegun, hrun, hdone, hq, hr, hs⟩ :=
      inside_eq_ok hR (hbody c) (hlent.of_steady hoffs).present hrest.1 (Prod.ext hin rfl)
    obtain ⟨reply', hon⟩ := (run_discard_eq_ok _).1 hon
    have hrest' := Frame.resting_foreignKeys k c true _ hq
    have hons := Frame.steady_send (s := s) (c := c) (.foreignKeys true)
      (run (inside c true (body c)) s u₁).2
    have honR := hR.preparatory c (.foreignKeys true) rfl (run (inside c true (body c)) s u₁).2
    rw [hon] at hrest' hons honR
    obtain ⟨hatRest, hidle, hback⟩ := hend hrest'.1 ((hoffs.trans hs).trans hons)
    refine ⟨hatRest, hidle, c, u₂, v₁, R.trans (R.trans hbefore hoffR) hbegunR, ?_, hrun,
      R.trans (R.trans hdone honR) hafter, ?_⟩
    · rw [hbegun.1, hrest.2, hrows]
    · rw [hback, hrest'.2, hr]
  case h_2 hd =>
    have hlocked : Sends s c (locked c (body c)) := sends_locked (hbody c)
    obtain ⟨u₁, v₁, hbegunR, hbegun, hrun, hdone, hq, hr, hs⟩ :=
      inside_eq_ok hR hlocked hlent.present hquiet hlast
    obtain ⟨⟨⟩, u₂, hlock, hrun⟩ := (run_bind_eq_ok _ _ _).1 hrun
    have hstill := keeps_lock (c := c) (fun sql => Frame.still_send k c (.lock sql) rfl) u₁
    have hlockR := keeps_lock (c := c) (fun sql => hR.preparatory c (.lock sql) rfl) u₁
    rw [hlock] at hstill hlockR
    obtain ⟨hatRest, hidle, hback⟩ := hend hq hs
    refine ⟨hatRest, hidle, c, u₂, v₁, R.trans (R.trans hbefore hbegunR) hlockR, ?_, hrun,
      R.trans hdone hafter, hback.trans hr⟩
    rw [hstill.1, hbegun.1, hrows]

/-- A migration that succeeds keeps all that was logged. -/
theorem migrating_eq_ok {body : Nat → Session σ α} (hbody : ∀ c, Sends s c (body c))
    (hw : k.AtRest w) (h : run (migrating body) s w = (.ok a, w')) :
    k.AtRest w' ∧ w'.idle ≠ [] ∧ (∀ e ∈ w.log, e ∈ w'.log) ∧
      ∃ c u v, k.rows u.server = k.rows w.server ∧ run (body c) s u = (.ok a, v) ∧
        k.rows w'.server = k.rows v.server ∧ ∀ e ∈ v.log, e ∈ w'.log := by
  obtain ⟨hrest, hidle, c, u, v, hbefore, hu, hrun, hafter, hv⟩ :=
    migrating_within (Frame.logged_surrounds s) hbody hw h
  have hlog := ((hbody c).steady u).log
  rw [hrun] at hlog
  exact ⟨hrest, hidle, fun e he => hafter e (hlog e (hbefore e he)), c, u, v, hu, hrun, hv, hafter⟩

theorem exists_migrating (hk : k.Responsive) {body : Nat → Session σ α} (hw : k.AtRest w)
    (hidle : w.idle ≠ [])
    (hbody : ∀ c u, k.rows u.server = k.rows w.server → ∃ v, run (body c) s u = (.ok a, v)) :
    ∃ w', run (migrating body) s w = (.ok a, w') := by
  obtain ⟨c, u, hcheckout⟩ := exists_checkout (s := s) hidle
  have hlent := lent_of_checkout hw.tidy hcheckout
  obtain ⟨hquiet, hrows⟩ := resting_of_checkout k hcheckout hw.quiet
  suffices h : ∃ v, run (migratingOn c (body c)) s u = (.ok a, v) by
    obtain ⟨v, hrun⟩ := h
    exact ⟨returned s c v, (run_withConnection_eq_ok _).2 ⟨c, u, v, hcheckout, hrun, rfl⟩⟩
  rw [migratingOn, run_bind_of_ok run_dialect]
  split
  case h_1 hd =>
    obtain ⟨reply, hoff⟩ := exists_send (c := c) (r := .foreignKeys false) (bind_ofText _ _)
      (hk.foreignKeys false [] u.server)
    have hrest := Frame.resting_foreignKeys k c false u hquiet
    have hoffs := Frame.steady_send (s := s) (c := c) (.foreignKeys false) u
    rw [hoff] at hrest hoffs
    obtain ⟨v, hin⟩ := exists_inside hk true (hlent.of_steady hoffs).present hrest.1
      fun u' hu' => hbody c u' (hu'.trans (hrest.2.trans hrows))
    obtain ⟨reply', hon⟩ := exists_send (c := c) (r := .foreignKeys true) (bind_ofText _ _)
      (hk.foreignKeys true [] v.server)
    refine ⟨answered s c (.foreignKeys true) [] v, ?_⟩
    rw [run_bind_of_ok hoff, run_ensuring_eq_ok, hin, run_discard_eq_ok]
    exact ⟨rfl, reply', hon⟩
  case h_2 hd =>
    refine exists_inside hk false hlent.present hquiet fun u' hu' => ?_
    obtain ⟨u₂, hlock⟩ := exists_lock (c := c) hk Dialect.postgresql.lockStatements u'
    have hstill := keeps_lock (c := c) (fun sql => Frame.still_send k c (.lock sql) rfl) u'
    rw [hlock] at hstill
    obtain ⟨v, hrun⟩ := hbody c u₂ (hstill.1.trans (hu'.trans hrows))
    exact ⟨v, (run_bind_eq_ok _ _ _).2 ⟨⟨⟩, u₂, hlock, hrun⟩⟩

end Session

end SchemaLedger
