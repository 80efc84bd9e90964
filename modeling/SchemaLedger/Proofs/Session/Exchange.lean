import SchemaLedger.Proofs.Session.Lending

set_option autoImplicit false

/-!
# Exchanges

What a run of an operation says to the database and what it is answered. The replies are those that
the database gives when it is told the events of the log again. An operation on a lent connection is
described by how it may end and by what is said until then; a description of a whole is put together
of descriptions of its parts.
-/
namespace SchemaLedger

/-- An event with the reply of the database. -/
structure Exchange where
  event : Event
  reply : Except DriverError Reply

/-- Whether an event can belong to the way to an operation and back. -/
def Event.routine : Event → Bool
  | .sent r _ _ => r.preparatory
  | .connect | .close | .commit | .rollback => true

/-- Whether a reply grants what was asked. A search for dangling references must not find any. -/
def Request.grants : Request → Reply → Bool
  | .integrity, reply => reply.rows.isEmpty
  | _, _ => true

namespace Exchange

def request? (x : Exchange) : Option Request :=
  match x.event with
  | .sent r _ _ => some r
  | _ => none

def accepted (x : Exchange) : Bool :=
  match x.reply with
  | .ok reply => x.request?.all (·.grants reply)
  | .error _ => false

/-- Whether a transaction is open on a connection after an exchange. -/
def engage (d : Dialect) (busy : Bool) (x : Exchange) : Bool :=
  match x.event with
  | .sent r _ _ => busy || Session.opens d r x.reply.toBool
  | .commit => busy && !x.reply.toBool
  | .rollback => false
  | .connect | .close => busy

end Exchange

namespace Server

variable {σ : Type}

/-- The reply to an event, and the database after it. -/
def hear (server : Server σ) : Event → σ → Except DriverError Reply × σ
  | .connect, st => ((server.connect st).1.map fun _ => {}, (server.connect st).2)
  | .close, st => (.ok {}, st)
  | .commit, st => ((server.commit st).1.map fun _ => {}, (server.commit st).2)
  | .rollback, st => (.ok {}, server.rollback st)
  | .sent r _ parameters, st => server.answer r parameters st

/-- The exchanges of a log that starts at a database. -/
def exchanges (server : Server σ) : σ → List Event → List Exchange
  | _, [] => []
  | st, e :: rest => ⟨e, (server.hear e st).1⟩ :: server.exchanges (server.hear e st).2 rest

/-- The database after the events of a log. -/
def after (server : Server σ) (st : σ) (events : List Event) : σ :=
  events.foldl (fun st e => (server.hear e st).2) st

theorem exchanges_append (server : Server σ) (st : σ) (es es' : List Event) :
    server.exchanges st (es ++ es') =
      server.exchanges st es ++ server.exchanges (server.after st es) es' := by
  induction es generalizing st with
  | nil => rfl
  | cons e rest ih =>
    rw [List.cons_append, exchanges, exchanges, ih, List.cons_append]
    rfl

end Server

namespace Session

open World (Steady Busy SameHandles)

variable {σ α β : Type} {s : Setting σ} {c : Nat} {u v w w' : World σ}
  {t t' : List Exchange}

/-- What was said between two worlds. -/
structure Heard (s : Setting σ) (t : List Exchange) (w w' : World σ) : Prop where
  log : w'.log = w.log ++ t.map (·.event)
  replies : s.server.exchanges w.server (t.map (·.event)) = t
  server : w'.server = s.server.after w.server (t.map (·.event))

theorem Heard.refl (w : World σ) : Heard s [] w w := ⟨(List.append_nil _).symm, rfl, rfl⟩

theorem Heard.append (h : Heard s t u v) (h' : Heard s t' v w) : Heard s (t ++ t') u w where
  log := by rw [h'.log, h.log, List.map_append, List.append_assoc]
  replies := by
    rw [List.map_append, Server.exchanges_append, h.replies, ← h.server, h'.replies]
  server := by
    rw [h'.server, h.server, List.map_append, Server.after, Server.after, Server.after,
      List.foldl_append]

theorem Heard.single {e : Event} (hlog : w'.log = w.log ++ [e])
    (hserver : w'.server = (s.server.hear e w.server).2) :
    Heard s [⟨e, (s.server.hear e w.server).1⟩] w w' := ⟨hlog, rfl, hserver⟩

/-- What is said on a connection that is lent, and what it does to the connections. -/
structure Spoke (s : Setting σ) (c : Nat) (t : List Exchange) (w w' : World σ) : Prop where
  heard : Heard s t w w'
  steady : Steady w w'
  others : ∀ i ≠ c, w'.Busy i ↔ w.Busy i
  busy : (∃ p, w.poolOf c = some p) →
    decide (w'.Busy c) = t.foldl (Exchange.engage s.config.dialect) (decide (w.Busy c))

theorem Spoke.refl (w : World σ) : Spoke s c [] w w :=
  ⟨Heard.refl w, Steady.refl w, fun _ _ => Iff.rfl, fun _ => rfl⟩

theorem Spoke.append (h : Spoke s c t u v) (h' : Spoke s c t' v w) : Spoke s c (t ++ t') u w where
  heard := h.heard.append h'.heard
  steady := h.steady.trans h'.steady
  others i hi := (h'.others i hi).trans (h.others i hi)
  busy hp := by
    obtain ⟨p, hp'⟩ := hp
    rw [h'.busy ⟨p, h.steady.pools c p hp'⟩, h.busy ⟨p, hp'⟩, List.foldl_append]

/-! ## Single exchanges -/

theorem busy_of_ne {i : Nat} (hi : i ≠ c) (f : Connection → Connection) :
    Busy { w with connections := w.connections.modify c f } i ↔ w.Busy i := by
  cases h : w.connections[i]? <;> simp [Busy, h, hi.symm]

theorem busy_of_present (hp : ∃ p, w.poolOf c = some p) (busy : Bool) :
    Busy { w with connections := w.connections.modify c fun x => { x with busy } } c ↔
      busy = true := by
  obtain ⟨p, hp⟩ := hp
  obtain ⟨x, hx, -⟩ := Option.map_eq_some_iff.1 hp
  simp [Busy, hx]

theorem spoke_answered (r : Request) (ps : List (String × Sql.Bound)) :
    Spoke s c [⟨.sent r (r.prepare s.config.dialect).text ps, (s.server.answer r ps w.server).1⟩] w
      (answered s c r ps w) where
  heard := Heard.single (log_answered r ps) (server_answered r ps)
  steady := steady_answered r ps
  others i hi := by
    unfold answered
    dsimp only
    split
    · exact busy_of_ne hi _
    · rfl
  busy hp := by
    unfold answered
    dsimp only [List.foldl_cons, List.foldl_nil, Exchange.engage]
    split
    case isTrue hopens =>
      rw [hopens, Bool.or_true]
      exact decide_eq_true ((busy_of_present (w := w) hp true).2 rfl)
    case isFalse hopens =>
      rw [Bool.eq_false_iff.2 hopens, Bool.or_false]
      rfl

/-- A frame that lasts over single events lasts over all that is done to lend a connection. -/
theorem Frame.lends_of_events {R : Frame σ}
    (hsame : ∀ w w', w'.log = w.log → w'.server = w.server → SameHandles w w' → R.rel w w')
    (hevent : ∀ e w w', e.routine = true → e ≠ .commit → w'.log = w.log ++ [e] →
      w'.server = (s.server.hear e w.server).2 → SameHandles w w' → R.rel w w') :
    R.Lends s where
  waiting w _ _ := hsame w _ rfl rfl ⟨rfl, rfl⟩
  unreachable w st e h := hevent .connect w _ rfl nofun rfl (by rw [Server.hear, h]) ⟨rfl, rfl⟩
  connected st w h := hevent .connect w _ rfl nofun rfl (by rw [Server.hear, h]; rfl) ⟨rfl, rfl⟩
  preparatory c r hr := Frame.keeps_send fun ps w => hevent (.sent r _ ps) w _ hr nofun
    (log_answered r ps) (server_answered r ps) (sameHandles_answered r ps)
  close w := hevent .close w _ rfl nofun rfl rfl ⟨rfl, rfl⟩
  ended c w := by
    unfold ended
    split
    · exact hevent .rollback w _ rfl nofun rfl rfl ⟨rfl, rfl⟩
    · exact R.refl w

/-! ## Descriptions of operations -/

/-- How an operation ends: with a value, or with an error, perhaps because the last request was
refused. -/
inductive Ending (α : Type) where
  | value (a : α)
  | stop (refused : Bool) (e : Error)

namespace Ending

def outcome : Ending α → Except Error α
  | value a => .ok a
  | stop _ e => .error e

/-- Only the last request can have been refused, and only by an ending that says so. -/
def Fits : Ending α → List Exchange → Prop
  | value _, t => ∀ x ∈ t, x.accepted = true
  | stop false _, t => ∀ x ∈ t, x.accepted = true
  | stop true _, t => ∃ front last,
      t = front ++ [last] ∧ (∀ x ∈ front, x.accepted = true) ∧ last.accepted = false

def map (f : α → β) : Ending α → Ending β
  | value a => .value (f a)
  | stop refused e => .stop refused e

def mapError (f : Error → Error) : Ending α → Ending α
  | value a => .value a
  | stop refused e => .stop refused (f e)

theorem outcome_mapError (f : Error → Error) (e : Ending α) :
    (e.mapError f).outcome = e.outcome.mapError f := by
  cases e <;> rfl

theorem Fits.mapError {e : Ending α} (h : e.Fits t) (f : Error → Error) :
    (e.mapError f).Fits t := by
  rcases e with a | ⟨refused, e⟩
  · exact h
  · cases refused <;> exact h

theorem Fits.append {e : Ending α} (ht : ∀ x ∈ t, x.accepted = true) (h : e.Fits t') :
    e.Fits (t ++ t') := by
  have hall : (∀ x ∈ t', x.accepted = true) → ∀ x ∈ t ++ t', x.accepted = true :=
    fun h' => List.forall_mem_append.2 ⟨ht, h'⟩
  rcases e with a | ⟨refused, e⟩
  · exact hall h
  · cases refused with
    | false => exact hall h
    | true =>
      obtain ⟨front, last, rfl, hfront, hlast⟩ := h
      exact ⟨t ++ front, last, (List.append_assoc ..).symm,
        List.forall_mem_append.2 ⟨ht, hfront⟩, hlast⟩

end Ending

/-- Every run of the operation ends, and says until then, as described. -/
def Says (s : Setting σ) (c : Nat) (x : Session σ α) (Q : Ending α → List Exchange → Prop) : Prop :=
  ∀ w, ∃ e t, (run x s w).1 = e.outcome ∧ Spoke s c t w (run x s w).2 ∧ e.Fits t ∧ Q e t

namespace Says

variable {x : Session σ α} {P Q : Ending α → List Exchange → Prop}

theorem mono (hx : Says s c x P) (h : ∀ e t, e.Fits t → P e t → Q e t) : Says s c x Q := by
  intro w
  obtain ⟨e, t, hrun, hspoke, hfits, hP⟩ := hx w
  exact ⟨e, t, hrun, hspoke, hfits, h e t hfits hP⟩

theorem pure {a : α} (h : Q (.value a) []) : Says s c (pure a) Q :=
  fun w => ⟨.value a, [], rfl, Spoke.refl w, List.forall_mem_nil _, h⟩

theorem ofResult {r : Result α} (hok : ∀ a, r = .ok a → Q (.value a) [])
    (herror : ∀ e, Q (.stop false e) []) : Says s c (ofResult r) Q := by
  intro w
  rw [run_ofResult]
  cases r with
  | ok a => exact pure (hok a rfl) w
  | error e =>
    exact ⟨.stop false e, [], rfl, Spoke.refl w, List.forall_mem_nil _, herror e⟩

theorem bind {f : α → Session σ β} {R : Ending β → List Exchange → Prop} (hx : Says s c x P)
    (hstop : ∀ refused e t, P (.stop refused e) t → R (.stop refused e) t)
    (hf : ∀ a t, P (.value a) t → Says s c (f a) fun e t' => R e (t ++ t')) :
    Says s c (x >>= f) R := by
  intro w
  obtain ⟨e, t, hrun, hspoke, hfits, hP⟩ := hx w
  rw [run_bind]
  rcases hx' : run x s w with ⟨o, v⟩
  rw [hx'] at hrun hspoke
  cases hrun
  cases e with
  | value a =>
    obtain ⟨e', t', hrun', hspoke', hfits', hR⟩ := hf a t hP v
    exact ⟨e', t ++ t', hrun', hspoke.append hspoke', hfits'.append hfits, hR⟩
  | stop refused e =>
    refine ⟨.stop refused e, t, rfl, hspoke, ?_, hstop refused e t hP⟩
    cases refused <;> exact hfits

theorem bindResult {r : Result β} {f : β → Session σ α}
    (hok : ∀ b, r = .ok b → Says s c (f b) Q) (herror : ∀ e, Q (.stop false e) []) :
    Says s c (Session.ofResult r >>= f) Q := by
  intro w
  cases r with
  | ok b =>
    rw [run_bind_of_ok (run_ofResult _)]
    exact hok b rfl w
  | error e =>
    exact ⟨.stop false e, [], rfl, Spoke.refl w, List.forall_mem_nil _, herror e⟩

theorem dialect {f : Dialect → Session σ α} (h : Says s c (f s.config.dialect) Q) :
    Says s c (dialect >>= f) Q := by
  intro w
  rw [run_bind_of_ok run_dialect]
  exact h w

theorem discard {R : Ending PUnit → List Exchange → Prop} (hx : Says s c x P)
    (hstop : ∀ refused e t, P (.stop refused e) t → R (.stop refused e) t)
    (hvalue : ∀ a t, P (.value a) t → R (.value ⟨⟩) t) : Says s c (discard x) R := by
  refine bind hx hstop fun a t ha => pure ?_
  rw [List.append_nil]
  exact hvalue a t ha

/-- An operation that changes its errors only says what it said. -/
theorem mapError {y : Session σ α} {f : Error → Error} (hx : Says s c x P)
    (hrun : ∀ w, run y s w = ((run x s w).1.mapError f, (run x s w).2))
    (h : ∀ e t, P e t → Q (e.mapError f) t) : Says s c y Q := by
  intro w
  obtain ⟨e, t, hx', hspoke, hfits, hP⟩ := hx w
  rw [hrun, hx']
  exact ⟨e.mapError f, t, (e.outcome_mapError f).symm, hspoke, hfits.mapError f, h e t hP⟩

theorem read {f : Setting σ → Session σ α} (h : Says s c (f s) Q) : Says s c (read >>= f) Q := by
  intro w
  rw [run_bind_of_ok run_read]
  exact h w

end Says

theorem run_execute (c : Nat) (r : Request) {ps : List (String × Sql.Bound)}
    (h : (r.prepare s.config.dialect).bind s.config.dialect = .ok ps) : run (execute c r) s w =
      ((s.server.answer r ps w.server).1.mapError fun e =>
        .backend (.ofDriver s.config.dialect e (some (r.prepare s.config.dialect).text)),
          answered s c r ps w) := by
  rw [execute, run_bind_of_ok run_dialect, run_classifying, run_send, h]
  dsimp only
  cases (s.server.answer r ps w.server).1 <;> rfl

theorem run_execute_of_error (c : Nat) (r : Request) {e : Error}
    (h : (r.prepare s.config.dialect).bind s.config.dialect = .error e) :
    ∃ e', run (execute c r) s w = (.error e', w) := by
  rw [execute, run_bind_of_ok run_dialect, run_classifying, run_send, h]
  exact ⟨_, rfl⟩

/-- A request that is sent has one exchange. -/
theorem exists_exchange (c : Nat) (r : Request) (ps : List (String × Sql.Bound)) (w : World σ) :
    ∃ x : Exchange, x.request? = some r ∧ x.reply = (s.server.answer r ps w.server).1 ∧
      Spoke s c [x] w (answered s c r ps w) :=
  ⟨_, rfl, rfl, spoke_answered r ps⟩

/-- How a request may end: it is granted or refused, or its values are no parameters and nothing is
sent. -/
inductive Asked (d : Dialect) (r : Request) : Ending Reply → List Exchange → Prop
  | granted (x : Exchange) (reply : Reply) (request : x.request? = some r)
      (accepted : x.accepted = true) (replied : x.reply = .ok reply) :
      Asked d r (.value reply) [x]
  | refused (x : Exchange) (fault : BackendFault) (request : x.request? = some r)
      (accepted : x.accepted = false) : Asked d r (.stop true (.backend fault)) [x]
  | unsent (e e' : Error) (unbound : (r.prepare d).bind d = .error e') :
      Asked d r (.stop false e) []

theorem Says.execute {r : Request} (hgrants : ∀ reply, r.grants reply = true) :
    Says s c (execute c r) (Asked s.config.dialect r) := by
  intro w
  cases hbind : (r.prepare s.config.dialect).bind s.config.dialect with
  | error e =>
    obtain ⟨e', hrun⟩ := run_execute_of_error (w := w) c r hbind
    rw [hrun]
    exact ⟨.stop false e', [], rfl, Spoke.refl w, List.forall_mem_nil _,
      .unsent _ e hbind⟩
  | ok ps =>
    obtain ⟨x, hrequest, hreply, hspoke⟩ := exists_exchange (s := s) c r ps w
    rw [run_execute c r hbind]
    cases hanswer : (s.server.answer r ps w.server).1 with
    | error fault =>
      have haccepted : x.accepted = false := by rw [Exchange.accepted, hreply, hanswer]
      exact ⟨.stop true _, [x], rfl, hspoke, ⟨[], x, rfl, List.forall_mem_nil _, haccepted⟩,
        .refused x _ hrequest haccepted⟩
    | ok reply =>
      have haccepted : x.accepted = true := by
        rw [Exchange.accepted, hreply, hanswer, hrequest]
        exact hgrants reply
      exact ⟨.value reply, [x], rfl, hspoke, fun _ hx => List.mem_singleton.1 hx ▸ haccepted,
        .granted x reply hrequest haccepted (hreply.trans hanswer)⟩

end Session

end SchemaLedger
