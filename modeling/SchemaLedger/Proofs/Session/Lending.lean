import SchemaLedger.Proofs.Session.Frame

set_option autoImplicit false

/-!
# Lent connections

A session lends a connection to an operation and takes it back. The connections that wait are always
ones of the present pool, so that a connection that came back can be lent again.
-/
namespace SchemaLedger

variable {σ α : Type} {s : Setting σ} {u v w w' : World σ} {c : Nat} {a : α}

namespace World

/-- The pool that a connection was made for, if there is such a connection. -/
def poolOf (w : World σ) (c : Nat) : Option Nat := w.connections[c]?.map (·.pool)

/-- Whether a transaction is open on a connection. -/
def Busy (w : World σ) (c : Nat) : Prop := (w.connections[c]?.map (·.busy)).getD false = true

/-- The connections that wait are of the present pool. -/
def Tidy (w : World σ) : Prop := ∀ i ∈ w.idle, w.poolOf i = some w.pool

/-- A connection of the present pool is out. One that everybody uses waits at the same time. -/
structure Lent (config : Config) (c : Nat) (w : World σ) : Prop where
  tidy : w.Tidy
  present : w.poolOf c = some w.pool
  shared : config.pool = .single → c ∈ w.idle

/-- What stays or grows while connections are neither lent nor taken back. -/
structure Steady (w w' : World σ) : Prop where
  pool : w'.pool = w.pool
  idle : w'.idle = w.idle
  pools : ∀ i p, w.poolOf i = some p → w'.poolOf i = some p
  log : ∀ e ∈ w.log, e ∈ w'.log

theorem Steady.refl (w : World σ) : Steady w w := ⟨rfl, rfl, fun _ _ h => h, fun _ h => h⟩

theorem Steady.trans (h : Steady u v) (h' : Steady v w) : Steady u w :=
  ⟨h'.pool.trans h.pool, h'.idle.trans h.idle, fun i p hp => h'.pools i p (h.pools i p hp),
    fun e he => h'.log e (h.log e he)⟩

/-- No handle changes, and none is given out. -/
structure SameHandles (w w' : World σ) : Prop where
  records : w'.records = w.records
  identifiers : w'.identifiers = w.identifiers

theorem Tidy.of_steady (h : w.Tidy) (hs : Steady w w') : w'.Tidy := by
  intro i hi
  rw [hs.idle] at hi
  rw [hs.pool]
  exact hs.pools i w.pool (h i hi)

theorem Lent.of_steady {config : Config} (h : w.Lent config c) (hs : Steady w w') :
    w'.Lent config c where
  tidy := h.tidy.of_steady hs
  present := by
    rw [hs.pool]
    exact hs.pools c w.pool h.present
  shared := by
    rw [hs.idle]
    exact h.shared

theorem poolOf_modify (w : World σ) (c : Nat) (busy : Bool) (i : Nat) :
    poolOf { w with connections := w.connections.modify c fun x => { x with busy } } i =
      w.poolOf i := by
  simp only [poolOf, List.getElem?_modify]
  cases w.connections[i]? with
  | none => rfl
  | some x => by_cases hc : c = i <;> simp [hc]

theorem busy_modify (w : World σ) (c i : Nat) (h : w.Busy i) :
    Busy { w with connections := w.connections.modify c fun x => { x with busy := true } } i := by
  unfold Busy at h
  simp only [Busy, List.getElem?_modify]
  cases hx : w.connections[i]? with
  | none => simp [hx] at h
  | some x =>
    rw [hx] at h
    by_cases hc : c = i
    · simp [hc]
    · simpa [hc] using h

end World

namespace Session

open World (Steady Busy)

/-! ## Sending -/

/-- The world after a request with its parameters was answered. -/
def answered (s : Setting σ) (c : Nat) (r : Request) (parameters : List (String × Sql.Bound))
    (w : World σ) : World σ :=
  let d := s.config.dialect
  let (outcome, server) := s.server.answer r parameters w.server
  let log := w.log ++ [.sent r (r.prepare d).text parameters]
  if opens d r outcome.toBool then
    { w with log, server, connections := w.connections.modify c fun x => { x with busy := true } }
  else { w with log, server }

theorem run_send (c : Nat) (r : Request) : run (send c r) s w =
    match (r.prepare s.config.dialect).bind s.config.dialect with
    | .error e => (.error e, w)
    | .ok parameters => ((s.server.answer r parameters w.server).1.mapError .driver,
        answered s c r parameters w) := by
  rw [send, run_bind_of_ok run_read]
  dsimp only
  rw [run_bind, run_ofResult]
  cases (r.prepare s.config.dialect).bind s.config.dialect with
  | error e => rfl
  | ok parameters =>
    dsimp only
    rw [run_bind_of_ok (run_record _), run_bind_of_ok (run_ask _)]
    dsimp only
    split
    case isTrue hopens =>
      rw [run_bind_of_ok (run_setBusy c true), run_orDriver]
      simp [answered, hopens]
    case isFalse hopens =>
      rw [run_orDriver]
      simp [answered, hopens]

theorem bind_ofText (d : Dialect) (sql : String) : (Sql.Prepared.ofText sql).bind d = .ok [] := rfl

theorem server_answered (r : Request) (parameters : List (String × Sql.Bound)) :
    (answered s c r parameters w).server = (s.server.answer r parameters w.server).2 := by
  unfold answered
  dsimp only
  split <;> rfl

theorem log_answered (r : Request) (parameters : List (String × Sql.Bound)) :
    (answered s c r parameters w).log =
      w.log ++ [.sent r (r.prepare s.config.dialect).text parameters] := by
  unfold answered
  dsimp only
  split <;> rfl

theorem records_answered (r : Request) (parameters : List (String × Sql.Bound)) :
    (answered s c r parameters w).records = w.records := by
  unfold answered
  dsimp only
  split <;> rfl

theorem sameHandles_answered (r : Request) (parameters : List (String × Sql.Bound)) :
    World.SameHandles w (answered s c r parameters w) where
  records := records_answered r parameters
  identifiers := by
    unfold answered
    dsimp only
    split <;> rfl

theorem steady_answered (r : Request) (parameters : List (String × Sql.Bound)) :
    Steady w (answered s c r parameters w) where
  pool := by
    unfold answered
    dsimp only
    split <;> rfl
  idle := by
    unfold answered
    dsimp only
    split <;> rfl
  pools := by
    intro i p hp
    unfold answered
    dsimp only
    split
    · exact (World.poolOf_modify w c true i).trans hp
    · exact hp
  log := by
    intro e he
    rw [log_answered]
    exact List.mem_append_left _ he

theorem busy_answered (r : Request) (parameters : List (String × Sql.Bound)) {i : Nat}
    (h : w.Busy i) : (answered s c r parameters w).Busy i := by
  unfold answered
  dsimp only
  split
  · exact World.busy_modify w c i h
  · exact h

/-- A request that opens a transaction leaves the connection busy. -/
theorem busy_of_opens {r : Request} {parameters : List (String × Sql.Bound)} {p : Nat}
    (hc : w.poolOf c = some p)
    (h : opens s.config.dialect r (s.server.answer r parameters w.server).1.toBool = true) :
    (answered s c r parameters w).Busy c := by
  unfold answered
  dsimp only
  rw [if_pos h]
  obtain ⟨x, hx, -⟩ := Option.map_eq_some_iff.1 hc
  simp [Busy, hx]

namespace Frame

/-- What is steady while an operation uses its connection. -/
def steady : Frame σ := ⟨Steady, Steady.refl, Steady.trans⟩

/-- A frame that every answer to a request with its parameters keeps is kept by sending it. -/
theorem keeps_send_of_bind {R : Frame σ} {r : Request}
    (h : ∀ ps w, (r.prepare s.config.dialect).bind s.config.dialect = .ok ps →
      R.rel w (answered s c r ps w)) : R.Keeps s (send c r) := by
  intro w
  rw [run_send]
  split
  case h_1 => exact R.refl w
  case h_2 ps hps => exact h ps w hps

theorem keeps_send {R : Frame σ} {r : Request}
    (h : ∀ parameters w, R.rel w (answered s c r parameters w)) : R.Keeps s (send c r) :=
  keeps_send_of_bind fun ps w _ => h ps w

theorem steady_send (r : Request) : (steady (σ := σ)).Keeps s (send c r) :=
  keeps_send fun parameters _ => steady_answered r parameters

end Frame

/-! ## Making connections -/

/-- The world in which a new connection is prepared. -/
def connected (st : σ) (w : World σ) : World σ :=
  { w with
    log := w.log ++ [.connect], server := st, connections := w.connections ++ [⟨w.pool, false⟩] }

theorem steady_connected (st : σ) (w : World σ) : Steady w (connected st w) where
  pool := rfl
  idle := rfl
  pools i p hp := by
    obtain ⟨x, hx, rfl⟩ := Option.map_eq_some_iff.1 hp
    obtain ⟨hi, -⟩ := List.getElem?_eq_some_iff.1 hx
    simp [World.poolOf, connected, List.getElem?_append_left hi, hx]
  log e he := List.mem_append_left _ he

theorem run_prepareConnection_eq_ok : run (prepareConnection c) s w = (.ok (), w') ↔
    run ((settings s.config).forM fun r => discard (send c r)) s w = (.ok (), w') := by
  rw [prepareConnection, run_bind_of_ok run_read, run_tryCatch]
  rcases run ((settings s.config).forM fun r => discard (send c r)) s w with ⟨e | ⟨⟩, v⟩
  · cases e with
    | driver e =>
      dsimp only
      rw [run_bind_of_ok (run_record _), run_throw]
      simp
    | _ => simp
  · rfl

theorem run_connect : run connect s w = match s.server.connect w.server with
    | (.error e, st) =>
      (.error (unreachable s.config e), { w with log := w.log ++ [.connect], server := st })
    | (.ok (), st) => run (do
        prepareConnection w.connections.length
        pure w.connections.length) s (connected st w) := by
  rw [connect, run_bind_of_ok run_read, run_bind_of_ok (run_record _), run_bind_of_ok (run_ask _)]
  dsimp only
  rcases s.server.connect w.server with ⟨e | ⟨⟩, st⟩
  · rfl
  · dsimp only
    rw [run_bind_of_ok run_get, run_bind_of_ok (run_set _)]
    rfl

theorem run_connect_eq_ok : run connect s w = (.ok c, w') ↔
    ∃ st, s.server.connect w.server = (.ok (), st) ∧ c = w.connections.length ∧
      run ((settings s.config).forM fun r => discard (send c r)) s (connected st w) =
        (.ok (), w') := by
  rw [run_connect]
  rcases s.server.connect w.server with ⟨e | ⟨⟩, st⟩
  · simp
  · dsimp only
    rw [run_bind_eq_ok]
    constructor
    · rintro ⟨⟨⟩, v, hprepare, hrun⟩
      cases hrun
      exact ⟨st, rfl, rfl, run_prepareConnection_eq_ok.1 hprepare⟩
    · rintro ⟨st', hst, rfl, hrun⟩
      cases hst
      exact ⟨(), w', run_prepareConnection_eq_ok.2 hrun, rfl⟩

/-- Making a connection keeps what the new connection and its settings keep. -/
theorem Frame.rel_of_connect {R : Frame σ} (hconnected : ∀ st w, 
      s.server.connect w.server = (.ok (), st) → R.rel w (connected st w))
    (hset : ∀ c, ∀ r ∈ settings s.config, R.Keeps s (send c r))
    (h : run connect s w = (.ok c, w')) : R.rel w w' := by
  obtain ⟨st, hst, -, hrun⟩ := run_connect_eq_ok.1 h
  have hkeep := Frame.keeps_forM (R := R) (s := s) (f := fun r => discard (send c r))
    (fun r hr => Frame.keeps_discard (hset c r hr)) (connected st w)
  rw [hrun] at hkeep
  exact R.trans (hconnected st w hst) hkeep

theorem steady_of_connect (h : run connect s w = (.ok c, w')) : Steady w w' :=
  Frame.rel_of_connect (R := Frame.steady) (fun st w _ => steady_connected st w)
    (fun _ r _ => Frame.steady_send r) h

theorem poolOf_of_connect (h : run connect s w = (.ok c, w')) : w'.poolOf c = some w'.pool := by
  obtain ⟨st, -, rfl, hrun⟩ := run_connect_eq_ok.1 h
  have hkeep : (Frame.steady (σ := σ)).Keeps s
      ((settings s.config).forM fun r => discard (send w.connections.length r)) :=
    Frame.keeps_forM fun r _ => Frame.keeps_discard (Frame.steady_send r)
  have hsteady := hkeep (connected st w)
  rw [hrun] at hsteady
  rw [hsteady.pool]
  exact hsteady.pools _ _ (by simp [World.poolOf, connected])

theorem mem_settings {config : Config} {r : Request} (h : r ∈ settings config) :
    r = .foreignKeys true ∨ r = .journal := by
  unfold settings at h
  split at h
  · rcases List.mem_cons.1 h with h | h
    · exact Or.inl h
    · split at h
      · cases h
      · exact Or.inr (List.mem_singleton.1 h)
  · cases h

theorem Frame.keeps_connect {R : Frame σ}
    (hrefused : ∀ w st e, s.server.connect w.server = (.error e, st) →
      R.rel w { w with log := w.log ++ [.connect], server := st })
    (hconnected : ∀ st w, s.server.connect w.server = (.ok (), st) → R.rel w (connected st w))
    (hset : ∀ c, ∀ r ∈ settings s.config, R.Keeps s (send c r))
    (hclose : ∀ w, R.rel w { w with log := w.log ++ [.close] }) : R.Keeps s connect := by
  have hprepare : ∀ c, R.Keeps s (prepareConnection c) := by
    intro c v
    rw [prepareConnection, run_bind_of_ok run_read]
    refine Frame.keeps_tryCatch (Frame.keeps_forM fun r hr => Frame.keeps_discard (hset c r hr))
      (fun e => ?_) v
    cases e with
    | driver e => exact Frame.keeps_bind hclose fun _ => Frame.keeps_throw _
    | _ => exact Frame.keeps_throw _
  intro w
  rw [run_connect]
  rcases hconnect : s.server.connect w.server with ⟨e | ⟨⟩, st⟩
  · exact hrefused w st e hconnect
  · exact R.trans (hconnected st w hconnect)
      (Frame.keeps_bind (hprepare _) (fun _ => Frame.keeps_pure _) _)

/-! ## Lending -/

/-- The world after a new connection was lent, if it could be made. -/
def lending (f : Nat → World σ → World σ) :
    Except Error Nat × World σ → Except Error Nat × World σ
  | (.ok c, v) => (.ok c, f c v)
  | (.error e, v) => (.error e, v)

theorem run_connect_modify (f : Nat → World σ → World σ) :
    run (do let c ← connect; modify (f c); pure c) s w = lending f (run connect s w) := by
  rw [run_bind]
  rcases run connect s w with ⟨e | c, v⟩ <;> rfl

theorem run_checkout : run checkout s w =
    match s.config.pool, w.idle with
    | .single, c :: _ => (.ok c, w)
    | .single, [] => lending (fun c v => { v with idle := [c] }) (run connect s w)
    | .bounded _ _, c :: rest => (.ok c, { w with idle := rest, out := w.out + 1 })
    | .bounded size timeout, [] =>
      if size ≤ w.out then (.error (.timeout timeout), w)
      else lending (fun _ v => { v with out := v.out + 1 }) (run connect s w) := by
  rw [checkout, run_bind_of_ok run_read]
  dsimp only
  rw [run_bind_of_ok run_get]
  cases s.config.pool <;> cases w.idle
  · exact run_connect_modify fun c v => { v with idle := [c] }
  · rfl
  · dsimp only
    split
    · rfl
    · exact run_connect_modify fun _ v => { v with out := v.out + 1 }
  · rfl

theorem lending_eq_ok {f : Nat → World σ → World σ} {r : Except Error Nat × World σ} :
    lending f r = (.ok c, u) ↔ ∃ v, r = (.ok c, v) ∧ u = f c v := by
  rcases r with ⟨e | d, v⟩
  · simp [lending]
  · simp only [lending, Prod.mk.injEq, Except.ok.injEq]
    constructor
    · rintro ⟨rfl, rfl⟩
      exact ⟨v, ⟨rfl, rfl⟩, rfl⟩
    · rintro ⟨_, ⟨rfl, rfl⟩, rfl⟩
      exact ⟨rfl, rfl⟩

theorem lending_eq_error {f : Nat → World σ → World σ} {r : Except Error Nat × World σ} {e : Error} :
    lending f r = (.error e, u) ↔ r = (.error e, u) := by
  rcases r with ⟨e | d, v⟩ <;> simp [lending]

/-- How a connection is lent: one that waits, or a new one. -/
theorem checkout_cases (h : run checkout s w = (.ok c, u)) :
    (s.config.pool = .single ∧ c ∈ w.idle ∧ u = w) ∨
    (s.config.pool = .single ∧ ∃ v, run connect s w = (.ok c, v) ∧ u = { v with idle := [c] }) ∨
    (s.config.pool ≠ .single ∧ ∃ rest, w.idle = c :: rest ∧
      u = { w with idle := rest, out := w.out + 1 }) ∨
    (s.config.pool ≠ .single ∧ w.idle = [] ∧ ∃ v, run connect s w = (.ok c, v) ∧
      u = { v with out := v.out + 1 }) := by
  rw [run_checkout] at h
  split at h
  case h_1 hpool hidle =>
    cases h
    exact Or.inl ⟨hpool, hidle ▸ List.mem_cons_self, rfl⟩
  case h_2 hpool hidle => exact Or.inr (Or.inl ⟨hpool, lending_eq_ok.1 h⟩)
  case h_3 rest hpool hidle =>
    cases h
    exact Or.inr (Or.inr (Or.inl ⟨by rw [hpool]; nofun, rest, hidle, rfl⟩))
  case h_4 hpool hidle =>
    split at h
    · cases h
    · exact Or.inr (Or.inr (Or.inr ⟨by rw [hpool]; nofun, hidle, lending_eq_ok.1 h⟩))

theorem lent_of_checkout (h : w.Tidy) (hrun : run checkout s w = (.ok c, u)) :
    u.Lent s.config c := by
  rcases checkout_cases hrun with ⟨hpool, hc, rfl⟩ | ⟨hpool, v, hconnect, rfl⟩ |
    ⟨hpool, rest, hidle, rfl⟩ | ⟨hpool, -, v, hconnect, rfl⟩
  · exact ⟨h, h c hc, fun _ => hc⟩
  · have hc := poolOf_of_connect hconnect
    refine ⟨fun i hi => ?_, hc, fun _ => List.mem_cons_self⟩
    rw [List.mem_singleton.1 hi]
    exact hc
  · have hc : c ∈ w.idle := hidle ▸ List.mem_cons_self
    refine ⟨fun i hi => h i ?_, h c hc, fun hs => absurd hs hpool⟩
    rw [hidle]
    exact List.mem_cons_of_mem c hi
  · have hc := poolOf_of_connect hconnect
    have htidy := h.of_steady (steady_of_connect hconnect)
    exact ⟨htidy, hc, fun hs => absurd hs hpool⟩

/-- A connection that waits can be lent. -/
theorem exists_checkout (h : w.idle ≠ []) : ∃ c u, run checkout s w = (.ok c, u) := by
  obtain ⟨c, rest, hidle⟩ := List.exists_cons_of_ne_nil h
  rw [run_checkout, hidle]
  cases s.config.pool with
  | single => exact ⟨c, w, rfl⟩
  | bounded size timeout => exact ⟨c, _, rfl⟩

/-- Lending fails only where a connection cannot be made. -/
theorem checkout_error {e : Error} (h : run checkout s w = (.error e, u)) :
    u = w ∨ run connect s w = (.error e, u) := by
  rw [run_checkout] at h
  split at h
  case h_1 => cases h
  case h_2 => exact Or.inr (lending_eq_error.1 h)
  case h_3 => cases h
  case h_4 =>
    split at h
    · cases h
      exact Or.inl rfl
    · exact Or.inr (lending_eq_error.1 h)

/-- Lending keeps what does not depend on the connections that wait. -/
theorem Frame.rel_of_checkout {R : Frame σ} (hidle : ∀ w idle out, R.rel w { w with idle, out })
    (hconnected : ∀ st w, s.server.connect w.server = (.ok (), st) → R.rel w (connected st w))
    (hset : ∀ c, ∀ r ∈ settings s.config, R.Keeps s (send c r))
    (hrun : run checkout s w = (.ok c, u)) : R.rel w u := by
  rcases checkout_cases hrun with ⟨-, -, rfl⟩ | ⟨-, v, hconnect, rfl⟩ | ⟨-, rest, -, rfl⟩ |
    ⟨-, -, v, hconnect, rfl⟩
  · exact R.refl u
  · exact R.trans (Frame.rel_of_connect hconnected hset hconnect) (hidle v [c] v.out)
  · exact hidle w rest (w.out + 1)
  · exact R.trans (Frame.rel_of_connect hconnected hset hconnect) (hidle v v.idle (v.out + 1))

/-! ## Taking back -/

instance (w : World σ) (c : Nat) : Decidable (w.Busy c) := inferInstanceAs (Decidable (_ = true))

/-- The world after the open transaction of a connection was given up. -/
def ended (s : Setting σ) (c : Nat) (w : World σ) : World σ :=
  if w.Busy c then
    { w with
      log := w.log ++ [.rollback], server := s.server.rollback w.server,
      connections := w.connections.modify c fun x => { x with busy := false } }
  else w

/-- The world after a connection was taken back. -/
def returned (s : Setting σ) (c : Nat) (w : World σ) : World σ := putBack s.config c (ended s c w)

theorem run_rollback : run (rollback c) s w = (.ok (), ended s c w) := by
  rw [rollback, run_bind_of_ok (run_isBusy c)]
  unfold ended
  by_cases h : w.Busy c
  · have hbusy : (w.connections[c]?.map (·.busy)).getD false = true := h
    rw [if_pos h, if_pos hbusy, run_bind_of_ok run_read, run_bind_of_ok (run_record _),
      run_bind_of_ok (run_modify _), run_setBusy]
  · have hbusy : ¬(w.connections[c]?.map (·.busy)).getD false = true := h
    rw [if_neg h, if_neg hbusy, run_pure]

theorem run_checkin : run (checkin c) s w = (.ok (), returned s c w) := by
  rw [checkin, run_bind_of_ok run_read, run_bind_of_ok run_rollback, run_modify]
  rfl

theorem steady_ended (s : Setting σ) (c : Nat) (w : World σ) : Steady w (ended s c w) := by
  unfold ended
  split
  · exact ⟨rfl, rfl, fun i p hp => (World.poolOf_modify w c false i).trans hp,
      fun e he => List.mem_append_left _ he⟩
  · exact Steady.refl w

theorem tidy_returned (h : v.Lent s.config c) : (returned s c v).Tidy := by
  have hlent := h.of_steady (steady_ended s c v)
  unfold returned putBack
  split
  · exact hlent.tidy
  · split
    · intro i hi
      rcases List.mem_cons.1 hi with rfl | hi
      · exact hlent.present
      · exact hlent.tidy i hi
    · exact hlent.tidy

/-- The connection that was taken back can be lent again. -/
theorem idle_returned (h : v.Lent s.config c) : (returned s c v).idle ≠ [] := by
  have hlent := h.of_steady (steady_ended s c v)
  unfold returned putBack
  split
  case h_1 hpool => exact List.ne_nil_of_mem (hlent.shared hpool)
  case h_2 =>
    rw [if_pos (show ((ended s c v).connections[c]?.map (·.pool)) = some (ended s c v).pool from
      hlent.present)]
    exact List.cons_ne_nil _ _

theorem server_returned (s : Setting σ) (c : Nat) (w : World σ) :
    (returned s c w).server =
      if w.Busy c then s.server.rollback w.server else w.server := by
  have hput : ∀ u : World σ, (putBack s.config c u).server = u.server := by
    intro u
    unfold putBack
    split
    · rfl
    · split <;> rfl
  rw [returned, hput, ended]
  split <;> rfl

theorem run_withConnection (body : Nat → Session σ α) : run (withConnection body) s w =
    match run checkout s w with
    | (.error e, u) => (.error e, u)
    | (.ok c, u) => ((run (body c) s u).1, returned s c (run (body c) s u).2) := by
  rw [withConnection, run_bind]
  rcases run checkout s w with ⟨e | c, u⟩
  · rfl
  · dsimp only
    rw [run_ensuring, run_checkin]

theorem run_withConnection_eq_ok (body : Nat → Session σ α) :
    run (withConnection body) s w = (.ok a, w') ↔
      ∃ c u v, run checkout s w = (.ok c, u) ∧ run (body c) s u = (.ok a, v) ∧
        returned s c v = w' := by
  rw [run_withConnection]
  rcases run checkout s w with ⟨e | c, u⟩
  · simp
  · simp [Prod.ext_iff]

/-! ## What is done around an operation -/

namespace Frame

/-- All that is done to lend a connection keeps the frame: it is made or taken from the pool,
prepared by looking at the database, and comes back without an open transaction. -/
structure Lends (R : Frame σ) (s : Setting σ) : Prop where
  waiting : ∀ w idle out, R.rel w { w with idle, out }
  unreachable : ∀ w st e, s.server.connect w.server = (.error e, st) →
    R.rel w { w with log := w.log ++ [.connect], server := st }
  connected : ∀ st w, s.server.connect w.server = (.ok (), st) → R.rel w (connected st w)
  preparatory : ∀ c r, r.preparatory = true → R.Keeps s (send c r)
  close : ∀ w, R.rel w { w with log := w.log ++ [.close] }
  ended : ∀ c w, R.rel w (ended s c w)

/-- All that is done around an operation keeps the frame, the end of a transaction that succeeds
included. -/
structure Surrounds (R : Frame σ) (s : Setting σ) : Prop extends R.Lends s where
  commit : ∀ c, R.Keeps s (commit c)

namespace Lends

variable {R : Frame σ}

theorem setting (h : R.Lends s) (c : Nat) {r : Request} (hr : r ∈ settings s.config) :
    R.Keeps s (send c r) := by
  rcases mem_settings hr with rfl | rfl <;> exact h.preparatory c _ rfl

theorem rel_of_checkout (h : R.Lends s) (hrun : run checkout s w = (.ok c, u)) : R.rel w u :=
  Frame.rel_of_checkout h.waiting h.connected (fun c _ hr => h.setting c hr) hrun

theorem keeps_checkout (h : R.Lends s) : R.Keeps s checkout := by
  intro w
  rcases hrun : run checkout s w with ⟨e | c, u⟩
  · rcases checkout_error hrun with rfl | hconnect
    · exact R.refl u
    · have hkeep := keeps_connect h.unreachable h.connected (fun c _ hr => h.setting c hr) h.close w
      rw [hconnect] at hkeep
      exact hkeep
  · exact h.rel_of_checkout hrun

theorem returned (h : R.Lends s) (c : Nat) (w : World σ) : R.rel w (returned s c w) := by
  have hput : ∀ v : World σ, R.rel v (putBack s.config c v) := by
    intro v
    unfold putBack
    split
    · exact R.refl v
    · split
      · exact h.waiting v _ _
      · exact R.refl v
  exact R.trans (h.ended c w) (hput _)

theorem keeps_withConnection (h : R.Lends s) {body : Nat → Session σ α}
    (hbody : ∀ c, R.Keeps s (body c)) : R.Keeps s (withConnection body) := by
  refine keeps_bind h.keeps_checkout fun c => keeps_ensuring (fun w => ?_) (hbody c)
  rw [run_checkin]
  exact h.returned c w

end Lends

end Frame

end Session

end SchemaLedger
