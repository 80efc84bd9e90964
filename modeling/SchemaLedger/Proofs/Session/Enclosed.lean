import SchemaLedger.Proofs.Session.Database
import SchemaLedger.Proofs.Session.Lifecycle

set_option autoImplicit false

/-!
# Calls on a database

A call of a store runs on a transaction that is open, or in one of its own. A transaction of its own
begins with the rows that the database keeps, and leaves those that the call left if it succeeds and
all rows as they were if it fails. It may also fail at its end, if the database refuses to commit.
-/
namespace SchemaLedger

variable {σ α : Type} {s : Setting σ} {schema : Schema} {u v w w' : World σ} {c : Nat} {a : α}
  {e : Error} {k : Database s.server s.config.dialect schema}

/-- No transaction is open, and a connection can be lent. -/
structure Database.AtRest (k : Database s.server s.config.dialect schema) (w : World σ) :
    Prop where
  tidy : w.Tidy
  available : w.Available s.config
  quiet : k.quiet w.server

/-- A call can begin: the transaction that it joins is open, or a new one can be. -/
def Database.Ready (k : Database s.server s.config.dialect schema) (joined : Option Nat)
    (w : World σ) : Prop :=
  match joined with
  | some _ => k.live w.server
  | none => k.AtRest w

/-- A setting whose server commits in a way of its own. -/
def Setting.committing (s : Setting σ) (commit : σ → Except DriverError Unit × σ) : Setting σ :=
  { s with server := { s.server with commit } }

namespace Session

open World (Steady Busy)

/-- A connection on which a transaction is open, or, on PostgreSQL, will be. -/
structure Begun (k : Database s.server s.config.dialect schema) (c : Nat) (w : World σ) : Prop where
  present : ∃ p, w.poolOf c = some p
  open_or_quiet : w.Busy c ∨ s.config.dialect = .postgresql ∧ k.quiet w.server

/-- What lasts while rows are read and written in a transaction. -/
def Frame.inTransaction (k : Database s.server s.config.dialect schema) (c : Nat) : Frame σ where
  rel w w' := Steady w w' ∧ k.kept w'.server = k.kept w.server ∧ (Begun k c w → Begun k c w')
  refl w := ⟨Steady.refl w, rfl, id⟩
  trans := fun ⟨hs, hk, hb⟩ ⟨hs', hk', hb'⟩ => ⟨hs.trans hs', hk'.trans hk, hb' ∘ hb⟩

theorem Frame.inTransaction_send (k : Database s.server s.config.dialect schema) (c : Nat)
    {r : Request} (hr : r.concernsRows = true) : (Frame.inTransaction k c).Keeps s (send c r) := by
  refine Frame.keeps_send fun ps w => ?_
  have hsteady := steady_answered (s := s) (c := c) (w := w) r ps
  refine ⟨hsteady, by rw [server_answered]; exact k.kept_answer r ps w.server hr, fun hb => ?_⟩
  obtain ⟨p, hp⟩ := hb.present
  refine ⟨⟨p, hsteady.pools c p hp⟩, Or.inl ?_⟩
  rcases hb.open_or_quiet with hbusy | ⟨hd, -⟩
  · exact busy_answered r ps hbusy
  · refine busy_of_opens hp ?_
    rw [hd]
    rfl

theorem Frame.inTransaction_records (k : Database s.server s.config.dialect schema) (c : Nat)
    (w : World σ) (records : List Handle) : (Frame.inTransaction k c).rel w { w with records } :=
  ⟨⟨rfl, rfl, fun _ _ hp => hp, fun _ he => he⟩, rfl, fun ⟨hp, ho⟩ => ⟨hp, ho⟩⟩

/-! ## Before a transaction -/

theorem exists_settings (k : Database s.server s.config.dialect schema) {rs : List Request}
    (hrs : ∀ r ∈ rs, r = .foreignKeys true ∨ r = .journal) (hq : k.quiet w.server) :
    ∃ w', run (rs.forM fun r => discard (send c r)) s w = (.ok ⟨⟩, w') ∧ k.quiet w'.server ∧
      k.rows w'.server = k.rows w.server := by
  induction rs generalizing w with
  | nil => exact ⟨w, rfl, hq, rfl⟩
  | cons r rest ih =>
    obtain ⟨hr, hrest⟩ := List.forall_mem_cons.1 hrs
    obtain ⟨hok, hquiet, hrows⟩ := k.setting r [] w.server hr hq
    have hbind : (r.prepare s.config.dialect).bind s.config.dialect = .ok [] := by
      rcases hr with rfl | rfl <;> exact bind_ofText _ _
    obtain ⟨reply, hsend⟩ := exists_send (c := c) hbind hok
    rw [← server_answered (c := c)] at hquiet hrows
    obtain ⟨w', hrun, hquiet', hrows'⟩ := ih hrest hquiet
    refine ⟨w', ?_, hquiet', hrows'.trans hrows⟩
    change run (discard (send c r) >>= fun _ => rest.forM _) s w = _
    rw [run_bind_of_ok ((run_discard_eq_ok _).2 ⟨reply, hsend⟩)]
    exact hrun

theorem exists_connect (k : Database s.server s.config.dialect schema) (hq : k.quiet w.server) :
    ∃ c w', run connect s w = (.ok c, w') ∧ k.quiet w'.server ∧
      k.rows w'.server = k.rows w.server := by
  obtain ⟨st, hst, hquiet, hrows⟩ := k.connect w.server hq
  obtain ⟨w', hrun, hquiet', hrows'⟩ := exists_settings (c := w.connections.length)
    (w := connected st w) k (fun r hr => mem_settings hr) hquiet
  exact ⟨_, w', run_connect_eq_ok.2 ⟨st, hst, rfl, hrun⟩, hquiet', hrows'.trans hrows⟩

theorem lend_atRest (hw : k.AtRest w) :
    ∃ c u, run checkout s w = (.ok c, u) ∧ u.Lent s.config c ∧ k.quiet u.server ∧
      k.rows u.server = k.rows w.server := by
  obtain ⟨c, u, hrun, hquiet, hrows⟩ : ∃ c u, run checkout s w = (.ok c, u) ∧
      k.quiet u.server ∧ k.rows u.server = k.rows w.server := by
    obtain ⟨c, v, hconnect, hquiet, hrows⟩ := exists_connect k hw.quiet
    have havailable := hw.available
    unfold World.Available at havailable
    rw [run_checkout]
    split
    case h_1 => exact ⟨_, _, rfl, hw.quiet, rfl⟩
    case h_2 => exact ⟨c, { v with idle := [c] }, by rw [hconnect]; rfl, hquiet, hrows⟩
    case h_3 => exact ⟨_, _, rfl, hw.quiet, rfl⟩
    case h_4 size timeout hpool hidle =>
      rw [hpool] at havailable
      rw [if_neg (not_le.2 (havailable.resolve_left fun hne => hne hidle))]
      exact ⟨c, { v with out := v.out + 1 }, by rw [hconnect]; rfl, hquiet, hrows⟩
  exact ⟨c, u, hrun, lent_of_checkout hw.tidy hrun, hquiet, hrows⟩

theorem exists_begun (k : Database s.server s.config.dialect schema) {p : Nat}
    (hp : w.poolOf c = some p) (hq : k.quiet w.server) :
    ∃ w', run (begin c) s w = (.ok (), w') ∧ Begun k c w' ∧ Steady w w' ∧ k.live w'.server ∧
      k.rows w'.server = k.rows w.server ∧ k.kept w'.server = k.rows w.server := by
  obtain ⟨hkept, hlive⟩ := k.settled w.server hq
  rw [begin, run_bind_of_ok run_dialect]
  split
  case h_1 hd =>
    obtain ⟨hok, hlive, hrows, hkept'⟩ := k.begin false [] w.server hq
    obtain ⟨reply, hreply⟩ := Outcome.exists_ok hok
    have hsteady := steady_answered (s := s) (c := c) (w := w) (.begin false) []
    rw [← server_answered (c := c)] at hlive hrows hkept'
    have hsend := run_send_eq_ok (c := c).2 ⟨[], bind_ofText s.config.dialect _, hreply, rfl⟩
    refine ⟨_, (run_discard_eq_ok _).2 ⟨reply, hsend⟩,
      ⟨⟨p, hsteady.pools c p hp⟩, Or.inl (busy_of_opens hp ?_)⟩, hsteady, hlive, hrows,
      hkept'.trans hkept⟩
    rw [hd, hreply]
    rfl
  case h_2 hd =>
    exact ⟨w, rfl, ⟨⟨p, hp⟩, Or.inr ⟨hd, hq⟩⟩, Steady.refl w, hlive, rfl, hkept⟩

/-! ## After a transaction -/

theorem exists_committed (hb : Begun k c w) (hl : k.live w.server) :
    ∃ w', run (commit c) s w = (.ok (), w') ∧ k.quiet w'.server ∧
      k.rows w'.server = k.rows w.server := by
  rw [run_commit]
  split
  case isTrue hbusy =>
    obtain ⟨st, hcommit, hquiet, hrows⟩ := k.commit w.server hl
    rw [hcommit]
    exact ⟨_, rfl, hquiet, hrows⟩
  case isFalse hbusy =>
    exact ⟨w, rfl, (hb.open_or_quiet.resolve_left hbusy).2, rfl⟩

theorem quiet_ended (hb : Begun k c w) :
    k.quiet (ended s c w).server ∧ k.rows (ended s c w).server = k.kept w.server := by
  unfold ended
  split
  case isTrue hbusy => exact k.rollback w.server
  case isFalse hbusy =>
    have hquiet := (hb.open_or_quiet.resolve_left hbusy).2
    exact ⟨hquiet, (k.settled w.server hquiet).1.symm⟩

theorem atRest_of_returned (hl : v.Lent s.config c) (hq : k.quiet v.server) :
    k.AtRest (returned s c v) ∧ k.rows (returned s c v).server = k.rows v.server := by
  have havailable : (returned s c v).Available s.config :=
    World.available_of_idle (idle_returned hl)
  have hserver := server_returned s c v
  split at hserver
  · obtain ⟨hquiet, hrows⟩ := k.rollback v.server
    rw [← hserver] at hquiet hrows
    exact ⟨⟨tidy_returned hl, havailable, hquiet⟩, hrows.trans (k.settled v.server hq).1⟩
  · exact ⟨⟨tidy_returned hl, havailable, by rw [hserver]; exact hq⟩, by rw [hserver]⟩

/-! ## Around a call -/

/-- How an operation on rows ends. Of one that fails no row has changed. -/
structure Ends (k : Database s.server s.config.dialect schema)
    (Q : Except Error α → Sql.Contents k.cells → List Handle → Prop)
    (before : Sql.Contents k.cells) (r : Except Error α × World σ) : Prop where
  outcome : Q r.1 (k.rows r.2.server) r.2.records
  live : r.1.isOk = true → k.live r.2.server
  undone : r.1.isOk = false → k.rows r.2.server = before

variable {Q : Except Error α → Sql.Contents k.cells → List Handle → Prop} {body : Nat → Session σ α}

theorem ends_inside {p : Nat} (hp : w.poolOf c = some p) (hq : k.quiet w.server)
    {x : Session σ α} (hx : (Frame.inTransaction k c).Keeps s x)
    (hends : ∀ u, k.live u.server → k.rows u.server = k.rows w.server → u.records = w.records →
      Ends k Q (k.rows w.server) (run x s u)) :
    let r := run (inside c false x) s w
    Q r.1 (k.rows r.2.server) r.2.records ∧ k.quiet r.2.server ∧ Steady w r.2 := by
  obtain ⟨u, hbegin, hbegun, hsteady, hlive, hrows, hkept⟩ := exists_begun k hp hq
  have hrecords : u.records = w.records := by
    have hheld := (Frame.unwritten_surrounds s).keeps_begin c false w
    rw [hbegin] at hheld
    exact hheld.1
  obtain ⟨houtcome, hlive, hundone⟩ := hends u hlive hrows hrecords
  obtain ⟨hsteady', hkept', hbegun'⟩ := hx u
  rw [inside, run_bind_of_ok ((run_classifying_eq_ok _ _ _).2 hbegin),
    run_bind_of_ok (run_attempt x)]
  rcases hrun : run x s u with ⟨e | a, v⟩ <;>
    rw [hrun] at houtcome hlive hundone hsteady' hkept' hbegun' <;> dsimp only
  · -- The rows that come back are those from before, which the failed body has left as they were.
    obtain ⟨hquiet, hback⟩ := quiet_ended (hbegun' hbegun)
    rw [run_bind_of_ok run_rollback, run_throw]
    refine ⟨?_, hquiet, (hsteady.trans hsteady').trans (steady_ended s c v)⟩
    have hheld := ((Frame.unwritten_surrounds s).ended c v).1
    rw [hundone rfl] at houtcome
    dsimp only
    rw [hback, hkept', hkept, hheld]
    exact houtcome
  · obtain ⟨w', hcommit, hquiet, hrows'⟩ := exists_committed (hbegun' hbegun) (hlive rfl)
    have hheld := (Frame.unwritten_surrounds s).commit c v
    have hsteady'' := steady_commit (s := s) c v
    rw [hcommit] at hheld hsteady''
    rw [run_bind_of_ok ((run_classifying_eq_ok _ _ _).2 hcommit), run_pure]
    refine ⟨?_, hquiet, (hsteady.trans hsteady').trans hsteady''⟩
    dsimp only
    rw [hrows', hheld.1]
    exact houtcome

/-- What a call does is what its body does, be it in a transaction of its own or not. -/
theorem ends_within (joined : Option Nat) (hw : k.Ready joined w)
    (hbody : ∀ c, (Frame.inTransaction k c).Keeps s (body c))
    (hends : ∀ c u, k.live u.server → k.rows u.server = k.rows w.server → u.records = w.records →
      Ends k Q (k.rows w.server) (run (body c) s u)) :
    let r := run (within joined body) s w
    Q r.1 (k.rows r.2.server) r.2.records ∧ (joined = none → k.AtRest r.2) := by
  cases joined with
  | some c => exact ⟨(hends c w hw rfl rfl).outcome, nofun⟩
  | none =>
    obtain ⟨c, u, hcheckout, hlent, hquiet, hrows⟩ := lend_atRest hw
    have hrecords : u.records = w.records := by
      have hheld := (Frame.unwritten_surrounds s).keeps_checkout w
      rw [hcheckout] at hheld
      exact hheld.1
    obtain ⟨houtcome, hquiet', hsteady⟩ := ends_inside hlent.present hquiet (hbody c)
      (Q := Q) fun v hl hr hh => hrows ▸ hends c v hl (hr.trans hrows) (hh.trans hrecords)
    obtain ⟨hrest, hback⟩ := atRest_of_returned (hlent.of_steady hsteady) hquiet'
    have hheld := ((Frame.unwritten_surrounds s).returned c (run (inside c false (body c)) s u).2).1
    change _ ∧ _
    rw [within, transaction, run_withConnection, hcheckout]
    dsimp only
    rw [hback, hheld]
    exact ⟨houtcome, fun _ => hrest⟩

/-! ## Commits that are refused

A database may refuse to keep what it has carried out. The rest of a call is the same whether or not
it does, so that a call is compared with what it would be if its commit were accepted.
-/

/-- An operation that does the same however the server commits. -/
def Indifferent (x : Session σ α) : Prop := ∀ s commit w, run x (s.committing commit) w = run x s w

section Indifferent

variable {β : Type} {x : Session σ α}

namespace Indifferent

theorem bind {f : α → Session σ β} (hx : Indifferent x) (hf : ∀ a, Indifferent (f a)) :
    Indifferent (x >>= f) := by
  intro s commit w
  rw [run_bind, run_bind, hx s commit w]
  rcases run x s w with ⟨e | a, v⟩
  · rfl
  · exact hf a s commit v

theorem pure (a : α) : Indifferent (pure a : Session σ α) := fun _ _ _ => rfl

theorem throw (e : Error) : Indifferent (throw e : Session σ α) := fun _ _ _ => rfl

theorem modify (f : World σ → World σ) : Indifferent (modify f : Session σ PUnit) :=
  fun _ _ _ => rfl

theorem dialect : Indifferent (dialect : Session σ Dialect) := fun _ _ _ => rfl

theorem ofResult (r : Result α) : Indifferent (ofResult r : Session σ α) := by
  intro s commit w
  rw [run_ofResult, run_ofResult]

theorem guarded {p : Prop} [Decidable p] {f : Unit → Session σ α} (e : Error)
    (hf : Indifferent (f ())) : Indifferent (if p then MonadExcept.throw e >>= f else f ()) := by
  split
  · exact bind (throw e) fun _ => hf
  · exact hf

theorem tryCatch {f : Error → Session σ α} (hx : Indifferent x) (hf : ∀ e, Indifferent (f e)) :
    Indifferent (tryCatch x f) := by
  intro s commit w
  rw [run_tryCatch, run_tryCatch, hx s commit w]
  rcases run x s w with ⟨e | a, v⟩
  · exact hf e s commit v
  · rfl

theorem discard (hx : Indifferent x) : Indifferent (discard x) := by
  intro s commit w
  rw [run_discard, run_discard, hx s commit w]

theorem forM {f : β → Session σ PUnit} (hf : ∀ b, Indifferent (f b)) (bs : List β) :
    Indifferent (bs.forM f) := by
  induction bs with
  | nil => exact pure _
  | cons b rest ih => exact bind (hf b) fun _ => ih

theorem mapM {f : β → Session σ α} (hf : ∀ b, Indifferent (f b)) (bs : List β) :
    Indifferent (bs.mapM f) := by
  induction bs with
  | nil => exact pure _
  | cons b rest ih =>
    rw [List.mapM_cons]
    exact bind (hf b) fun _ => bind ih fun _ => pure _

theorem handle (n : Nat) : Indifferent (handle n : Session σ Handle) := by
  intro s commit w
  cases hn : w.records[n]? with
  | none => rw [run_handle_of_none hn, run_handle_of_none hn]
  | some h => rw [run_handle_of_some hn, run_handle_of_some hn]

theorem send (c : Nat) (r : Request) : Indifferent (send c r : Session σ Reply) := by
  intro s commit w
  rw [run_send, run_send]
  rfl

theorem execute (c : Nat) (r : Request) : Indifferent (execute c r : Session σ Reply) := by
  refine bind dialect fun d => ?_
  intro s commit w
  rw [run_classifying, run_classifying, send c r s commit w]
  rfl

theorem rows (c : Nat) (q : Query.Compiled) : Indifferent (rows c q : Session σ (List Entries)) :=
  bind dialect fun _ => bind (execute c _) fun _ => ofResult _

theorem load (schema : Schema) (entity : String) (key : Value) (c : Nat) :
    Indifferent (load schema entity key c : Session σ (Option Handle)) := by
  refine bind (ofResult _) fun e => ?_
  refine bind (bind (bind dialect fun _ => ofResult _) fun q => ?_) fun _ => ofResult _
  exact bind dialect fun _ => bind (execute c _) fun _ => ofResult _

theorem reload (schema : Schema) (entity : String) (key : Value) (c : Nat) :
    Indifferent (reload schema entity key c : Session σ Entries) := by
  refine bind (load schema entity key c) fun found => ?_
  cases found with
  | none => exact throw _
  | some h => exact pure _

theorem insert (st : Store) (n c : Nat) : Indifferent (insert st n c : Session σ Unit) := by
  refine bind dialect fun d => bind (handle n) fun h => ?_
  extract_lets rest
  have hrest : ∀ fresh, Indifferent (rest fresh) := by
    intro fresh
    refine bind (ofResult _) fun i => bind (ofResult _) fun table => ?_
    refine bind (ofResult _) fun assignments => bind (execute c _) fun reply => ?_
    dsimp only
    split
    · exact modify _
    · exact bind (reload _ _ _ c) fun _ => modify _
  split
  · exact bind (fun _ _ _ => rfl) hrest
  · exact bind (pure _) hrest

theorem overwrite (table : Sql.Table) (h : Handle) (c : Nat) :
    Indifferent (overwrite table h c : Session σ Int) := by
  refine bind dialect fun d => bind (ofResult _) ?_
  rintro ⟨key, condition⟩
  dsimp only
  split
  · exact bind (execute c _) fun _ => bind (ofResult _) fun _ => pure _
  · refine bind (ofResult _) fun assignments => ?_
    split
    · exact bind (execute c _) fun _ => pure _
    · exact throw _

theorem save (st : Store) (n c : Nat) : Indifferent (save st n c : Session σ Unit) := by
  refine bind (handle n) fun h => bind (ofResult _) fun _ => ?_
  split
  · exact insert st n c
  · refine bind (handle n) fun h => bind (ofResult _) fun table => ?_
    exact bind (overwrite table h c) fun count => guarded _ (modify _)

theorem delete (st : Store) (n c : Nat) : Indifferent (delete st n c : Session σ Unit) := by
  refine bind (handle n) fun h => guarded _ ?_
  refine bind (ofResult _) fun table => bind (ofResult _) ?_
  rintro ⟨key, condition⟩
  exact bind (execute c _) fun reply => guarded _ (modify _)

theorem follow (schema : Schema) (h : Handle) (r : Relationship) (c : Nat) :
    Indifferent (follow schema h r c : Session σ Related) := by
  cases r with
  | many l =>
    refine bind (ofResult _) fun target => ?_
    split
    · exact pure _
    · refine bind dialect fun d => bind (ofResult _) fun q => bind (rows c q) fun found => ?_
      exact bind (ofResult _) fun _ => bind (mapM (fun _ _ _ _ => rfl) _) fun _ => pure _
  | single r =>
    refine bind (ofResult _) fun target => bind (ofResult _) fun key => ?_
    split
    · exact pure _
    · refine bind (load schema _ key c) fun found => ?_
      cases found with
      | none => exact pure _
      | some h => exact bind (fun _ _ _ => rfl) fun _ => pure _

theorem related (schema : Schema) (n : Nat) (name : String) (c : Nat) :
    Indifferent (related schema n name c : Session σ Related) := by
  refine bind (handle n) fun h => bind (ofResult _) fun r => ?_
  split
  · exact pure _
  · exact bind (follow schema h r c) fun _ => bind (modify _) fun _ => pure _

theorem prepareLink (st : Store) (n : Nat) (name : String) (m : Nat) :
    Indifferent (prepareLink st n name m : Session σ _) := by
  refine bind (handle n) fun h => bind (handle m) fun g => bind (ofResult _) ?_
  rintro ⟨table, condition⟩
  exact bind (modify _) fun _ => pure _

theorem link (st : Store) (n : Nat) (name : String) (m c : Nat) :
    Indifferent (link st n name m c : Session σ Bool) := by
  refine bind dialect fun d => bind (prepareLink st n name m) ?_
  rintro ⟨table, condition, h, g⟩
  refine bind (ofResult _) fun owner => bind (execute c _) fun reply => ?_
  split
  · exact bind (ofResult _) fun _ => pure _
  · exact bind (ofResult _) fun _ => bind (execute c _) fun _ => pure _

theorem unlink (st : Store) (n : Nat) (name : String) (m c : Nat) :
    Indifferent (unlink st n name m c : Session σ Bool) := by
  refine bind (prepareLink st n name m) ?_
  rintro ⟨table, condition, h, g⟩
  exact bind (execute c _) fun _ => pure _

theorem begin (c : Nat) : Indifferent (begin c : Session σ Unit) := by
  refine bind dialect fun d => ?_
  cases d with
  | sqlite => exact discard (send c _)
  | postgresql => exact pure _

theorem connect : Indifferent (connect : Session σ Nat) := by
  intro s commit w
  have hprepare (c : Nat) (w : World σ) :
      run (prepareConnection c) (s.committing commit) w = run (prepareConnection c) s w := by
    rw [prepareConnection, run_bind_of_ok run_read, run_bind_of_ok run_read]
    refine tryCatch (forM (fun r => discard (send c r)) _) (fun e => ?_) s commit w
    cases e with
    | driver e => exact bind (modify _) fun _ => throw _
    | _ => exact throw _
  have hserver : (s.committing commit).server.connect w.server = s.server.connect w.server := rfl
  rw [run_connect, run_connect, hserver]
  rcases s.server.connect w.server with ⟨e | ⟨⟩, st⟩
  · rfl
  · dsimp only
    rw [run_bind, run_bind, hprepare]
    rfl

theorem checkout : Indifferent (checkout : Session σ Nat) := by
  intro s commit w
  rw [run_checkout, run_checkout, connect s commit w]
  rfl

end Indifferent

end Indifferent

/-- An error tells that a commit was refused. -/
def Rejects (s : Setting σ) (e : Error) : Prop :=
  ∃ st reason, (s.server.commit st).1 = .error reason ∧
    e = .backend (.ofDriver s.config.dialect reason none)

section Faltering

variable {commit : σ → Except DriverError Unit × σ}
  {k : Database (s.committing commit).server (s.committing commit).config.dialect schema}
  {Q : Except Error α → Sql.Contents k.cells → List Handle → Prop} {body : Nat → Session σ α}

/-- What comes of a call whose commit may be refused: what should, or, if it is refused, that in the
handles, while no row has changed. -/
inductive Faltering (s : Setting σ) {C : Type}
    (Q : Except Error α → C → List Handle → Prop) (before : C) :
    Except Error α → C → List Handle → Prop
  | carried (r : Except Error α) (after : C) (records : List Handle) (hQ : Q r after records) :
      Faltering s Q before r after records
  | refused (e : Error) (a : α) (after : C) (records : List Handle) (he : Rejects s e)
      (hQ : Q (.ok a) after records) : Faltering s Q before (.error e) before records

theorem Faltering.map {β C : Type} {Q : Except Error β → C → List Handle → Prop} {f : α → β}
    {before after : C} {r : Except Error α} {records : List Handle}
    (h : Faltering s (fun r => Q (r.map f)) before r after records) :
    Faltering s Q before (r.map f) after records := by
  cases h with
  | carried _ _ _ hQ => exact .carried _ _ _ hQ
  | refused e a after _ he hQ => exact .refused e (f a) after _ he hQ

end Faltering

end Session

end SchemaLedger
