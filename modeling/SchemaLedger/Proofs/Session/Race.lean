import Mathlib.Logic.Function.Iterate
import SchemaLedger.Proofs.Session.Granted
import SchemaLedger.Proofs.Session.Ledger

set_option autoImplicit false

/-!
# Racing migrators

Calls of migrators with one source on one database, from any sessions. A call looks at the database
and then goes through its transactions; between any two of these moves other calls may move. Whatever
the order of the moves, each pending batch is applied once.
-/
namespace SchemaLedger

variable {σ : Type} {s : Setting σ} {v w w' : World σ} {k : Archive s.server s.config.dialect}
  {m : Migrator} {source : Source} {label : String} {records applied : List Applied}
  {schema : Schema} {front rest todo : List Batch} {r : Applied}

/-! ## Moves of one call -/

/-- How far a call is: it has not looked yet, it has applied batches and goes on, or it ended. -/
inductive Phase where
  | waiting
  | looping (records : List Applied)
  | done (records : List Applied)
  | raised (e : Error)

namespace Phase

/-- The records that a call has to return so far. -/
def returned : Phase → List Applied
  | waiting => []
  | looping rs => rs
  | done rs => rs
  | raised _ => []

/-- The next move of a call: the look without a lock, or one transaction with it. -/
def advance (m : Migrator) (s : Setting σ) : Phase × World σ → Phase × World σ
  | (waiting, w) =>
    match Session.run (Session.status m) s w with
    | (.ok t, v) => (if t.state = .upToDate then done [] else looping [], v)
    | (.error e, v) => (raised e, v)
  | (looping rs, w) =>
    match Session.run (Session.migrating (Session.applyNext m)) s w with
    | (.ok none, v) => (done rs, v)
    | (.ok (some r), v) => (looping (rs ++ [r]), v)
    | (.error e, v) => (raised e, v)
  | (ended, w) => (ended, w)

theorem world_advance_waiting : (advance m s (waiting, w)).2 =
    (Session.run (Session.status m) s w).2 := by
  rw [advance]
  rcases Session.run (Session.status m) s w with ⟨e | t, v⟩ <;> rfl

theorem world_advance_looping (rs : List Applied) : (advance m s (looping rs, w)).2 =
    (Session.run (Session.migrating (Session.applyNext m)) s w).2 := by
  rw [advance]
  rcases Session.run (Session.migrating (Session.applyNext m)) s w with ⟨e | ⟨_ | _⟩, v⟩ <;> rfl

theorem advance_done (rs : List Applied) : advance m s (done rs, w) = (done rs, w) := rfl

/-- Where a call is after it went through a part of its moves with this outcome. -/
def after (rs : List Applied) : Except Error Session.Applications × World σ → Phase × World σ
  | (.ok apps, v) =>
    (if apps.complete then done (rs ++ apps.records) else looping (rs ++ apps.records), v)
  | (.error e, v) => (raised e, v)

theorem advance_rounds (m : Migrator) (s : Setting σ) (limit : Nat) (rs : List Applied)
    (w : World σ) : (advance m s)^[limit] (looping rs, w) =
      after rs (Session.run (Session.applyRounds m limit) s w) := by
  induction limit generalizing rs w with
  | zero =>
    change _ = (looping (rs ++ []), w)
    rw [List.append_nil]
    rfl
  | succ limit ih =>
    rw [Function.iterate_succ_apply, advance, Session.applyRounds, Session.run_bind]
    rcases Session.run (Session.migrating (Session.applyNext m)) s w with ⟨e | o, v⟩
    · exact Function.iterate_fixed rfl limit
    · cases o with
      | none =>
        refine (Function.iterate_fixed rfl limit).trans ?_
        change _ = (done (rs ++ []), v)
        rw [List.append_nil]
      | some r =>
        dsimp only
        rw [ih, Session.run_bind]
        rcases Session.run (Session.applyRounds m limit) s v with ⟨e | apps, v'⟩
        · rfl
        · simp [after]

/-- The moves of a call that nobody disturbs are the call. -/
theorem advance_alone (m : Migrator) (s : Setting σ) (limit : Nat) (w : World σ) :
    (advance m s)^[limit + 1] (waiting, w) =
      after [] (Session.run (Session.applyPending m limit) s w) := by
  rw [Function.iterate_succ_apply, advance, Session.applyPending, Session.run_bind]
  rcases Session.run (Session.status m) s w with ⟨e | t, v⟩
  · exact Function.iterate_fixed rfl limit
  · dsimp only
    split
    · exact Function.iterate_fixed rfl limit
    · exact advance_rounds m s limit [] v

/-- How many moves a call has made that is still on its way. -/
def Made (n : Nat) : Phase → Prop
  | waiting => n = 0
  | looping rs => n = rs.length + 1
  | _ => True

theorem made_advance {n : Nat} {p : Phase} (h : p.Made n) (w : World σ) :
    (advance m s (p, w)).1.Made (n + 1) := by
  cases p with
  | waiting =>
    cases h
    rw [advance]
    split
    · dsimp only
      split
      · trivial
      · rfl
    · trivial
  | looping rs =>
    cases h
    rw [advance]
    split
    · trivial
    · rw [Made, List.length_append, List.length_singleton]
    · trivial
  | done rs => trivial
  | raised e => trivial

end Phase

/-! ## What a move leaves -/

/-- All that is left can be asked for. -/
theorem Source.Due.pending {d : Dialect} (h : source.Due d rest records) (label : String)
    (now : Timestamp) : ∃ batches, Migrator.pending ⟨source, label⟩ now records = .ok batches ∧
      (batches = [] ↔ rest = []) ∧ ∀ b ∈ batches.head?, ∃ schema,
        Applied.schemaAt records = .ok schema ∧ (b.render d schema).isOk = true := by
  cases rest with
  | nil => exact ⟨[], h label now, Iff.rfl, nofun⟩
  | cons b rest =>
    obtain ⟨⟨schema, hschema, hrender⟩, hpending, -⟩ := h
    obtain ⟨b', others, hpending, hb⟩ := hpending label now
    refine ⟨b' :: others, hpending, by simp, fun x hx => ⟨schema, hschema, ?_⟩⟩
    cases hx
    rw [Batch.render, show b'.steps = b.steps from hb.steps]
    exact hrender

theorem Migrator.Sound.relabel (h : Migrator.Sound ⟨source, label⟩) (label' : String) :
    Migrator.Sound ⟨source, label'⟩ := h

namespace Session

theorem granted_at (now : Timestamp) : Granted { s with now } w w' ↔ Granted s w w' := Iff.rfl

/-- A look to which nothing is refused succeeds, and finds out whether anything is left. -/
theorem status_of_granted (h : k.Holds w records schema) (ha : w.Available s.config)
    (hdue : source.Due s.config.dialect rest records)
    (hgranted : Granted s w (run (status ⟨source, label⟩) s w).2) :
    ∃ t v, run (status ⟨source, label⟩) s w = (.ok t, v) ∧ (t.state = .upToDate → rest = []) ∧
      k.Holds v records schema ∧ v.Available s.config ∧ k.rows v.server = k.rows w.server := by
  obtain ⟨batches, hpending, hempty, -⟩ := hdue.pending label s.now
  have hfirm := Firm.reading h.rest ha fun c u hu =>
    Firm.statusOn (c := c) ((k.records_congr hu).trans h.history) hpending
  obtain ⟨t, ht⟩ := hfirm.succeeds hgranted
  have hrun : run (status ⟨source, label⟩) s w = (.ok t, _) := Prod.ext ht rfl
  obtain ⟨hrest, hidle, hrows, c, u, v, hu, hlook⟩ := reading_eq_ok (sends_statusOn ⟨source, label⟩)
    (fun c => Frame.keeps_statusOn (c := c) (Frame.still_send k c) ⟨source, label⟩) h.rest hrun
  obtain ⟨found, batches', hfound, hpending', rfl⟩ := statusOn_eq_ok k hlook
  rw [k.records_congr hu, h.history] at hfound
  cases hfound
  rw [hpending] at hpending'
  cases hpending'
  exact ⟨_, _, hrun, fun hstate => hempty.1 (eq_nil_of_upToDate hstate),
    ⟨⟨hrest, (k.records_congr hrows).trans h.history, h.replay⟩, h.clear⟩,
    World.available_of_idle hidle, hrows⟩

/-- A transaction to which nothing is refused succeeds. It finds nothing left, or it applies the first
batch that is left. -/
theorem round_of_granted (hg : k.Guarded) (hm : Migrator.Sound ⟨source, label⟩)
    (h : k.Holds w records schema) (ha : w.Available s.config)
    (hdue : source.Due s.config.dialect rest records)
    (hgranted : Granted s w (run (migrating (applyNext ⟨source, label⟩)) s w).2) :
    ∃ o v, run (migrating (applyNext ⟨source, label⟩)) s w = (.ok o, v) ∧ v.Available s.config ∧
      match o with
      | none => rest = [] ∧ k.Holds v records schema ∧
          (k.rows v.server).getD [] = (k.rows w.server).getD []
      | some r => ∃ b others last, rest = b :: others ∧ source.Records r b ∧
          source.Due s.config.dialect others (records ++ [r.recorded]) ∧
          k.Holds v (records ++ [r.recorded]) last ∧ (k.rows v.server).getD [] =
            (k.rows w.server).getD [] ++ [HistoryTable.cells s.config.dialect r] := by
  obtain ⟨batches, hpending, hempty, hhead⟩ := hdue.pending label s.now
  have hfirm := Firm.migrating h.rest ha fun c u hu =>
    Firm.applyNext (c := c) ((k.records_congr hu).trans h.history) hpending hhead
  obtain ⟨o, ho⟩ := hfirm.succeeds hgranted
  have hrun : run (migrating (applyNext ⟨source, label⟩)) s w = (.ok o, _) := Prod.ext ho rfl
  obtain ⟨hrest, hidle, -, c, u, v, hu, hlook, hv, -⟩ := migrating_eq_ok (sends_applyNext _) h.rest hrun
  refine ⟨o, _, hrun, World.available_of_idle hidle, ?_⟩
  obtain ⟨found, u', hfound, hu', hcases⟩ := applyNext_cases k hlook
  rw [k.records_congr hu, h.history] at hfound
  cases hfound
  rw [hu] at hu'
  rcases hcases with ⟨hnone, rfl, rfl⟩ | ⟨b', others', schema', r, hsome, hreplay, rfl, happly⟩
  · rw [hpending] at hnone
    cases hnone
    have hsame : (k.rows (run (migrating (applyNext ⟨source, label⟩)) s w).2.server).getD [] =
        (k.rows w.server).getD [] := by rw [hv, hu']; rfl
    refine ⟨hempty.1 rfl, ⟨⟨hrest, ?_, h.replay⟩, h.clear⟩, hsame⟩
    rw [k.records_eq, hsame, ← k.records_eq, h.history]
  · rw [h.replay] at hreplay
    cases hreplay
    obtain ⟨hbelow, hsteps⟩ := k.below_of_pending h.history h.replay hm hsome
    obtain ⟨hr, hadded, last, hlast⟩ := holds_of_applyBatch hg h hbelow hsteps hu' happly hrest hv
    rw [hpending] at hsome
    cases hsome
    cases rest with
    | nil => cases hempty.2 rfl
    | cons b others =>
      obtain ⟨-, hnext, hothers⟩ := hdue
      obtain ⟨b'', others'', hb, hrecords⟩ := hnext label s.now
      rw [hpending] at hb
      cases hb
      rw [← hr] at hrecords
      exact ⟨b, others, last, rfl, hrecords, hothers r hrecords, hlast, hadded⟩

end Session

/-! ## Races -/

/-- A call of a migrator from one of the sessions. -/
structure Caller where
  session : Nat
  label : String := "auto"
  phase : Phase := .waiting

/-- One database, the sessions that use it, and calls from them. A session keeps its connections to
itself; what it knows of the state of the database is outdated once another one moves. -/
structure Race (σ : Type) where
  server : σ
  sessions : Nat → World σ
  callers : List Caller

/-- Which call moves next, and when. -/
structure Move where
  caller : Nat
  now : Timestamp

namespace Race

/-- What a session finds when it moves. -/
def world (x : Race σ) (i : Nat) : World σ := { x.sessions i with server := x.server }

/-- The race after a call of it has left its session in a phase and a world. -/
def moved (x : Race σ) (n : Nat) (caller : Caller) (end' : Phase × World σ) : Race σ where
  server := end'.2.server
  sessions := Function.update x.sessions caller.session end'.2
  callers := x.callers.set n { caller with phase := end'.1 }

/-- A look or a whole transaction of one call. -/
def move (source : Source) (s : Setting σ) (x : Race σ) (mv : Move) : Race σ :=
  match x.callers[mv.caller]? with
  | none => x
  | some caller => x.moved mv.caller caller
      (Phase.advance ⟨source, caller.label⟩ { s with now := mv.now }
        (caller.phase, x.world caller.session))

def run (source : Source) (s : Setting σ) (x : Race σ) (moves : List Move) : Race σ :=
  moves.foldl (move source s) x

/-- Nothing is refused in any of the moves. -/
def Granted (source : Source) (s : Setting σ) : Race σ → List Move → Prop
  | _, [] => True
  | x, mv :: rest =>
    (∀ caller ∈ x.callers[mv.caller]?, Session.Granted s (x.world caller.session)
      ((x.move source s mv).world caller.session)) ∧ Granted source s (x.move source s mv) rest

/-- What has been done in a race so far: the first batches that were left are recorded, each by one
call, and no call has failed or given up early. -/
structure Orderly (k : Archive s.server s.config.dialect) (source : Source)
    (records : List Applied) (rows : List (List Value)) (todo : List Batch) (x : Race σ)
    (applied : List Applied) (front rest : List Batch) : Prop where
  split : front ++ rest = todo
  holds : ∃ schema, ∀ i, k.Holds (x.world i) (records ++ applied.map (·.recorded)) schema
  available : ∀ i, (x.world i).Available s.config
  due : source.Due s.config.dialect rest (records ++ applied.map (·.recorded))
  agree : List.Forall₂ source.Records applied front
  rows : (k.rows x.server).getD [] = rows ++ applied.map (HistoryTable.cells s.config.dialect)
  returned : (x.callers.flatMap (·.phase.returned)).Perm applied
  raised : ∀ caller ∈ x.callers, ∀ e, caller.phase ≠ .raised e
  ended : ∀ caller ∈ x.callers, ∀ rs, caller.phase = .done rs → rest = []

/-- A history is the same from every session. -/
theorem holds_elsewhere (h : k.Holds v records schema) (htidy : w.Tidy)
    (hserver : w.server = v.server) : k.Holds w records schema := by
  refine ⟨⟨⟨htidy, ?_⟩, ?_, h.replay⟩, h.clear⟩
  · rw [hserver]
    exact h.rest.quiet
  · rw [hserver]
    exact h.history

variable {x : Race σ} {rows : List (List Value)} {n : Nat} {caller : Caller}
  {applied' : List Applied} {front' rest' : List Batch}

theorem world_moved_self (x : Race σ) (n : Nat) (caller : Caller) (end' : Phase × World σ) :
    (x.moved n caller end').world caller.session = end'.2 := by
  simp [world, moved]

theorem world_moved_of_ne {i : Nat} (h : i ≠ caller.session) (end' : Phase × World σ) :
    (x.moved n caller end').world i = { x.world i with server := end'.2.server } := by
  simp [world, moved, h]

theorem mem_moved {c : Caller} {end' : Phase × World σ} (h : c ∈ (x.moved n caller end').callers) :
    c ∈ x.callers ∨ c.phase = end'.1 := by
  rcases List.mem_or_eq_of_mem_set h with h | rfl
  · exact Or.inl h
  · exact Or.inr rfl

/-- If one call returns more, all calls together return more. -/
theorem returned_set {callers : List Caller} {c : Caller} {new : List Applied}
    (h : callers[n]? = some caller) (hc : c.phase.returned = caller.phase.returned ++ new) :
    ((callers.set n c).flatMap (·.phase.returned)).Perm
      (callers.flatMap (·.phase.returned) ++ new) := by
  induction callers generalizing n with
  | nil => cases h
  | cons first others ih =>
    cases n with
    | zero =>
      cases h
      rw [List.set_cons_zero, List.flatMap_cons, List.flatMap_cons, hc, List.append_assoc,
        List.append_assoc]
      exact List.perm_append_comm.append_left _
    | succ n =>
      rw [List.set_cons_succ, List.flatMap_cons, List.flatMap_cons, List.append_assoc]
      exact (ih h).append_left _

/-- A race stays orderly if the call that moves adds to the history what it has to return. -/
theorem Orderly.moved (h : x.Orderly k source records rows todo applied front rest)
    (hcaller : x.callers[n]? = some caller) {p : Phase} (new : List Applied)
    (happlied : applied ++ new = applied') (hsplit : front' ++ rest' = todo)
    (hholds : k.Holds v (records ++ applied'.map (·.recorded)) schema)
    (havailable : v.Available s.config)
    (hdue : source.Due s.config.dialect rest' (records ++ applied'.map (·.recorded)))
    (hagree : List.Forall₂ source.Records applied' front')
    (hrows : (k.rows v.server).getD [] =
      rows ++ applied'.map (HistoryTable.cells s.config.dialect))
    (hreturned : p.returned = caller.phase.returned ++ new) (hraised : ∀ e, p ≠ .raised e)
    (hended : ∀ rs, p = .done rs → rest' = []) (hrest : rest = [] → rest' = []) :
    (x.moved n caller (p, v)).Orderly k source records rows todo applied' front' rest' where
  split := hsplit
  holds := by
    obtain ⟨_, hbefore⟩ := h.holds
    refine ⟨schema, fun i => ?_⟩
    by_cases hi : i = caller.session
    · rw [hi, world_moved_self]
      exact hholds
    · rw [world_moved_of_ne hi]
      exact holds_elsewhere hholds (hbefore i).rest.tidy rfl
  available i := by
    by_cases hi : i = caller.session
    · rw [hi, world_moved_self]
      exact havailable
    · rw [world_moved_of_ne hi]
      exact h.available i
  due := hdue
  agree := hagree
  rows := hrows
  returned := happlied ▸ (returned_set hcaller hreturned).trans (h.returned.append_right new)
  raised c hc := by
    rcases mem_moved hc with hc | hc
    · exact h.raised c hc
    · rw [hc]
      exact hraised
  ended c hc rs hrs := by
    rcases mem_moved hc with hc | hc
    · exact hrest (h.ended c hc rs hrs)
    · exact hended rs (hc.symm.trans hrs)

/-- A call that only looks, or has ended, leaves what was done. -/
theorem Orderly.stays (h : x.Orderly k source records rows todo applied front rest)
    (hcaller : x.callers[n]? = some caller) {p : Phase}
    (hholds : k.Holds v (records ++ applied.map (·.recorded)) schema)
    (havailable : v.Available s.config)
    (hrows : (k.rows v.server).getD [] = (k.rows x.server).getD [])
    (hreturned : p.returned = caller.phase.returned) (hraised : ∀ e, p ≠ .raised e)
    (hended : ∀ rs, p = .done rs → rest = []) :
    (x.moved n caller (p, v)).Orderly k source records rows todo applied front rest :=
  h.moved hcaller [] (List.append_nil _) h.split hholds havailable h.due h.agree
    (hrows.trans h.rows) (hreturned.trans (List.append_nil _).symm) hraised hended id

/-- What one move to which nothing is refused does to a race. -/
theorem Orderly.move (hg : k.Guarded) (hm : Migrator.Sound ⟨source, label⟩)
    (h : x.Orderly k source records rows todo applied front rest) (mv : Move)
    (hgranted : ∀ caller ∈ x.callers[mv.caller]?, Session.Granted s (x.world caller.session)
      ((x.move source s mv).world caller.session)) :
    ∃ applied' front' rest',
      (x.move source s mv).Orderly k source records rows todo applied' front' rest' := by
  unfold Race.move at hgranted ⊢
  cases hcaller : x.callers[mv.caller]? with
  | none => exact ⟨applied, front, rest, h⟩
  | some caller =>
    rw [hcaller] at hgranted
    have hmoved := hgranted caller rfl
    dsimp only at hmoved ⊢
    rw [world_moved_self] at hmoved
    obtain ⟨schema, hholds⟩ := h.holds
    have hstart := (Session.holds_at k mv.now).2 (hholds caller.session)
    have hmem := List.mem_of_getElem? hcaller
    cases hphase : caller.phase with
    | waiting =>
      rw [hphase, Phase.world_advance_waiting] at hmoved
      obtain ⟨t, v, hrun, hended, hv, havailable, hrows⟩ := Session.status_of_granted
        (s := { s with now := mv.now }) hstart (h.available caller.session) h.due
          ((Session.granted_at mv.now).2 hmoved)
      rw [Phase.advance, hrun]
      refine ⟨applied, front, rest, h.stays hcaller ((Session.holds_at k mv.now).1 hv) havailable
        (by rw [hrows]; rfl) ?_ ?_ ?_⟩
      · rw [hphase]
        split <;> rfl
      · intro e he
        split at he <;> cases he
      · intro rs hrs
        split at hrs
        case isTrue hstate => exact hended hstate
        case isFalse => cases hrs
    | looping rs =>
      rw [hphase, Phase.world_advance_looping] at hmoved
      obtain ⟨o, v, hrun, havailable, hcases⟩ := Session.round_of_granted
        (s := { s with now := mv.now }) hg (hm.relabel caller.label) hstart (h.available caller.session) h.due
          ((Session.granted_at mv.now).2 hmoved)
      rw [Phase.advance, hrun]
      cases o with
      | none =>
        dsimp only
        obtain ⟨hrest, hv, hrows⟩ := hcases
        exact ⟨applied, front, rest, h.stays hcaller ((Session.holds_at k mv.now).1 hv) havailable
          hrows (by rw [hphase]; rfl) (fun e he => by cases he) fun _ _ => hrest⟩
      | some r =>
        dsimp only
        obtain ⟨b, others, last, rfl, hr, hdue, hv, hrows⟩ := hcases
        have hrecords : records ++ applied.map (·.recorded) ++ [r.recorded] =
            records ++ (applied ++ [r]).map (·.recorded) := by
          rw [List.map_append, List.append_assoc, List.map_singleton]
        rw [hrecords] at hdue hv
        refine ⟨applied ++ [r], front ++ [b], others, h.moved (p := .looping (rs ++ [r])) hcaller [r] rfl ?_
          ((Session.holds_at k mv.now).1 hv) havailable hdue ?_ ?_ ?_
          (fun e he => by cases he) (fun rs hrs => by cases hrs) fun hnil => by cases hnil⟩
        · rw [List.append_assoc]
          exact h.split
        · exact List.rel_append h.agree (.cons hr .nil)
        · rw [hrows, List.map_append, ← List.append_assoc, ← h.rows]
          rfl
        · rw [hphase]
          rfl
    | done rs =>
      rw [Phase.advance_done]
      exact ⟨applied, front, rest, h.stays (p := .done rs) hcaller (hholds caller.session)
        (h.available caller.session) rfl (by rw [hphase]) (fun e he => by cases he) fun rs' _ =>
          h.ended caller hmem rs hphase⟩
    | raised e => exact absurd hphase (h.raised caller hmem e)

/-- What any moves do to a race if nothing is refused. -/
theorem Orderly.run (hg : k.Guarded) (hm : Migrator.Sound ⟨source, label⟩)
    (h : x.Orderly k source records rows todo applied front rest) {moves : List Move}
    (hgranted : x.Granted source s moves) : ∃ applied' front' rest',
      (x.run source s moves).Orderly k source records rows todo applied' front' rest' := by
  induction moves generalizing x applied front rest with
  | nil => exact ⟨applied, front, rest, h⟩
  | cons mv moves ih =>
    obtain ⟨_, _, _, hmoved⟩ := h.move hg hm mv hgranted.1
    exact ih hmoved hgranted.2

/-! ## Counting moves -/

theorem callers_move (mv : Move) : (x.move source s mv).callers.length = x.callers.length := by
  unfold Race.move
  split
  · rfl
  · exact List.length_set

theorem length_run (moves : List Move) : (x.run source s moves).callers.length = x.callers.length := by
  induction moves generalizing x with
  | nil => rfl
  | cons mv moves ih => exact (ih (x := x.move source s mv)).trans (callers_move mv)

/-- Every call is as far as the moves that it has made bring it. -/
def Paced (x : Race σ) (made : Nat → Nat) : Prop :=
  ∀ i (c : Caller), x.callers[i]? = some c → c.phase.Made (made i)

theorem Paced.move {made : Nat → Nat} (h : x.Paced made) (mv : Move) :
    (x.move source s mv).Paced fun i => made i + if mv.caller = i then 1 else 0 := by
  intro i c hc
  unfold Race.move at hc
  dsimp only
  cases hcaller : x.callers[mv.caller]? with
  | none =>
    rw [hcaller] at hc
    by_cases hi : mv.caller = i
    · subst hi
      cases hcaller.symm.trans hc
    · rw [if_neg hi]
      exact h i c hc
  | some caller =>
    rw [hcaller] at hc
    dsimp only [Race.moved] at hc
    by_cases hi : mv.caller = i
    · subst hi
      rw [List.getElem?_set_self (List.getElem?_eq_some_iff.1 hcaller).1] at hc
      cases hc
      rw [if_pos rfl]
      exact Phase.made_advance (h _ _ hcaller) _
    · rw [List.getElem?_set_ne hi] at hc
      rw [if_neg hi]
      exact h i c hc

theorem Paced.run {made : Nat → Nat} (h : x.Paced made) (moves : List Move) :
    (x.run source s moves).Paced fun i => made i + moves.countP (·.caller = i) := by
  induction moves generalizing x made with
  | nil => exact h
  | cons mv moves ih =>
    intro i c hc
    have hmade := ih (h.move mv) i c hc
    dsimp only at hmade ⊢
    rw [Nat.add_assoc, Nat.add_comm (if mv.caller = i then 1 else 0)] at hmade
    rw [List.countP_cons]
    simpa only [decide_eq_true_eq] using hmade

/-- A call of an orderly race that has moved often enough is over. -/
theorem Orderly.done_of_moves (h : x.Orderly k source records rows todo applied front rest)
    (hmem : caller ∈ x.callers) (hmade : caller.phase.Made n) (hn : todo.length + 2 ≤ n) :
    ∃ rs, caller.phase = .done rs := by
  cases hphase : caller.phase with
  | waiting =>
    rw [hphase] at hmade
    cases hmade
    omega
  | looping rs =>
    rw [hphase] at hmade
    have hsub : rs.Subperm applied := by
      refine List.Subperm.trans (List.Sublist.subperm ?_) h.returned.subperm
      have hrs : rs = caller.phase.returned := by rw [hphase]; rfl
      rw [hrs]
      exact List.sublist_flatten_of_mem (List.mem_map_of_mem hmem)
    have happlied := hsub.length_le
    have hfront := h.agree.length_eq
    have htodo := congrArg List.length h.split
    rw [List.length_append] at htodo
    have hcount : n = rs.length + 1 := hmade
    omega
  | done rs => exact ⟨rs, rfl⟩
  | raised e => exact absurd hphase (h.raised caller hmem e)

/-! ## Each batch once -/

/-- What is left at the start is what is pending. -/
theorem due_of_pending (h : k.Holds w records schema) (hm : Migrator.Sound ⟨source, label⟩)
    (hfinite : source.Finite) {now : Timestamp}
    (hpending : Migrator.pending ⟨source, label⟩ now records = .ok todo)
    (hrunnable : Batch.Runnable s.config.dialect schema todo) :
    source.Due s.config.dialect todo records := by
  cases source with
  | desired desired =>
    exact Migrator.due_desired h.toStands.sound h.replay ((Schema.valid_iff_sound desired).1 hm)
      hfinite hpending hrunnable
  | batches list =>
    exact Migrator.due_supplied h.toStands.sound h.replay hm.2 hpending hrunnable

/-- Any number of calls by migrators of one source race on a database, from any sessions and in any
order of their moves, and nothing is refused. Then no call fails. At any time the batches recorded so
far are the first of those that were pending, in order and once each, and the calls together have to
return exactly their records. Once a call has returned, all batches are recorded; and a call has
returned when it has made two moves more than there were batches. For a desired schema there is one
batch at most. -/
theorem each_batch_once (hg : k.Guarded) (hm : Migrator.Sound ⟨source, label⟩)
    (hfinite : source.Finite) (hholds : ∀ i, k.Holds (x.world i) records schema)
    (havailable : ∀ i, (x.world i).Available s.config)
    (hwaiting : ∀ caller ∈ x.callers, caller.phase = .waiting) {now : Timestamp}
    (hpending : Migrator.pending ⟨source, label⟩ now records = .ok todo)
    (hrunnable : Batch.Runnable s.config.dialect schema todo) {moves : List Move}
    (hgranted : x.Granted source s moves) :
    let y := x.run source s moves
    ∃ applied : List Applied,
      k.records y.server = .ok (records ++ applied.map (·.recorded)) ∧
      (k.rows y.server).getD [] =
        (k.rows x.server).getD [] ++ applied.map (HistoryTable.cells s.config.dialect) ∧
      List.Forall₂ source.Records applied (todo.take applied.length) ∧
      (y.callers.flatMap (·.phase.returned)).Perm applied ∧
      (∀ caller ∈ y.callers, ∀ e, caller.phase ≠ .raised e) ∧
      (∀ caller ∈ y.callers, ∀ rs, caller.phase = .done rs → applied.length = todo.length) ∧
      (∀ i < x.callers.length, todo.length + 2 ≤ moves.countP (·.caller = i) →
        ∃ caller rs, y.callers[i]? = some caller ∧ caller.phase = .done rs) ∧
      ∀ desired, source = .desired desired → applied.length ≤ 1 := by
  have hdue := due_of_pending (hholds 0) hm hfinite hpending hrunnable
  have hnone : ∀ caller ∈ x.callers, caller.phase.returned = [] := by
    intro caller hcaller
    rw [hwaiting caller hcaller]
    rfl
  have hstart : x.Orderly k source records ((k.rows x.server).getD []) todo [] [] todo :=
    { split := rfl
      holds := ⟨schema, fun i => by rw [List.map_nil, List.append_nil]; exact hholds i⟩
      available := havailable
      due := by rwa [List.map_nil, List.append_nil]
      agree := .nil
      rows := by rw [List.map_nil, List.append_nil]
      returned := by rw [List.flatMap_eq_nil_iff.2 hnone]
      raised := fun caller hcaller e he => by cases (hwaiting caller hcaller).symm.trans he
      ended := fun caller hcaller rs hrs => by cases (hwaiting caller hcaller).symm.trans hrs }
  have hpaced : x.Paced fun _ => 0 := by
    intro i c hc
    rw [hwaiting c (List.mem_of_getElem? hc)]
    rfl
  intro y
  obtain ⟨applied, front, rest, hend⟩ := hstart.run hg hm hgranted
  have hlength := hend.agree.length_eq
  have hfront : todo.take applied.length = front := by
    rw [← hend.split, hlength, List.take_left]
  refine ⟨applied, ?_, hend.rows, hfront ▸ hend.agree, hend.returned, hend.raised, ?_, ?_, ?_⟩
  · obtain ⟨last, hlast⟩ := hend.holds
    exact (hlast 0).history
  · intro caller hcaller rs hrs
    rw [hlength, ← hend.split, hend.ended caller hcaller rs hrs, List.append_nil]
  · intro i hi hmoves
    have hlt : i < y.callers.length := by rwa [length_run]
    have hget : y.callers[i]? = some y.callers[i] := List.getElem?_eq_getElem hlt
    obtain ⟨rs, hrs⟩ := hend.done_of_moves (List.getElem_mem hlt) (hpaced.run moves i _ hget)
      (hmoves.trans_eq (Nat.zero_add _).symm)
    exact ⟨_, rs, hget, hrs⟩
  · rintro desired rfl
    have htodo : todo.length ≤ 1 := by
      cases todo with
      | nil => exact Nat.zero_le _
      | cons b others =>
        obtain ⟨rfl, -⟩ := Migrator.pending_eq_cons (hholds 0).replay hpending
        exact le_refl _
    have hsplit := congrArg List.length hend.split
    rw [List.length_append] at hsplit
    omega

instance : (x : Race σ) → (moves : List Move) → Decidable (x.Granted source s moves)
  | _, [] => isTrue trivial
  | x, mv :: rest =>
    have := instDecidableGranted (x.move source s mv) rest
    inferInstanceAs (Decidable (_ ∧ _))

/-- Two calls from different sessions on a notebook. -/
def pair : Race Notebook where
  server := Notebook.fresh
  sessions _ := { server := Notebook.fresh }
  callers := [{ session := 0 }, { session := 1 }]

def raced : List Batch :=
  [⟨1, "one", []⟩, ⟨2, "two", [.createEntity (Migrator.keyed "Post")]⟩]

/-- Both calls look before any batch is applied, each applies the batch that it finds, and both go on
until nothing is left. -/
def turns : List Move :=
  [⟨0, .epoch⟩, ⟨1, .epoch⟩, ⟨1, .epoch⟩, ⟨0, .epoch⟩, ⟨1, .epoch⟩, ⟨0, .epoch⟩, ⟨0, .epoch⟩]

theorem each_batch_once_pair :
    let y := pair.run (.batches raced) Notebook.guardedSetting turns
    (y.callers.map fun c => c.phase.returned.map Applied.title) = [[(2, "two")], [(1, "one")]] ∧
      ∃ applied : List Applied,
        Notebook.guardedArchive.records y.server = .ok (applied.map (·.recorded)) ∧
        List.Forall₂ (Source.batches raced).Records applied raced ∧
        (y.callers.flatMap (·.phase.returned)).Perm applied := by
  intro y
  refine ⟨by decide +kernel, ?_⟩
  have hholds : ∀ i, Notebook.guardedArchive.Holds (s := Notebook.guardedSetting) (pair.world i) []
      (Schema.empty.withVersion 0) := fun i => Archive.holds_fresh ⟨nofun, rfl⟩ rfl
  have hrunnable : Batch.Runnable .sqlite (Schema.empty.withVersion 0) raced := by
    refine ⟨by decide +kernel, fun next hnext => ⟨?_, fun _ _ => trivial⟩⟩
    cases hnext
    decide +kernel
  have hsound : Migrator.Sound ⟨.batches raced, "auto"⟩ := ⟨rfl, List.forall_mem_cons.2
    ⟨List.forall_mem_nil _, List.forall_mem_singleton.2
      (List.forall_mem_singleton.2 (Session.sound_keyed _))⟩⟩
  have hpending : Migrator.pending ⟨.batches raced, "auto"⟩ .epoch [] = .ok raced := rfl
  have hgranted : pair.Granted (.batches raced) Notebook.guardedSetting turns := by decide +kernel
  obtain ⟨applied, hrecords, -, hagree, hreturned, -, hall, hdone, -⟩ := each_batch_once
    (s := Notebook.guardedSetting) Notebook.guards hsound trivial hholds
    (fun _ => Or.inr (show (0 : Int) < 5 by decide))
    (List.forall_mem_cons.2 ⟨rfl, List.forall_mem_singleton.2 rfl⟩) hpending hrunnable hgranted
  obtain ⟨caller, rs, hcaller, hphase⟩ := hdone 0 (by decide) (by decide)
  rw [hall caller (List.mem_of_getElem? hcaller) rs hphase, List.take_length] at hagree
  exact ⟨applied, hrecords, hagree, hreturned⟩

end Race

end SchemaLedger
