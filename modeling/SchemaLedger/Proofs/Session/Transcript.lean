import SchemaLedger.Proofs.Session.Script

set_option autoImplicit false

/-!
# Transcripts of whole batches

What it means for the exchanges of a migrator to keep batches whole: what has to stand before a record
and before a commit, what is still said after a refusal, and what follows where the enforcement of
references was switched off. All of it is said about the exchanges since the last transaction ended.
-/
namespace SchemaLedger

open Exchange (rowsOf writesOf rowsOf_append writesOf_append)

namespace Exchange

/-- Whether a transaction ends. -/
def ends (x : Exchange) : Bool :=
  match x.event with
  | .commit => x.accepted
  | .rollback => true
  | _ => false

def advance (u : List Exchange) (x : Exchange) : List Exchange := if x.ends then [] else u ++ [x]

/-- What was said since the last transaction ended. -/
def since (t : List Exchange) : List Exchange := t.foldl advance []

/-- Whether a transaction is open after a transcript. -/
def engaged (d : Dialect) (t : List Exchange) : Bool := t.foldl (engage d) false

/-- What may still be said after a refusal. -/
def Closes (x : Exchange) : Prop :=
  x.event = .rollback ∨ x.event = .close ∨ x.request? = some (.foreignKeys true)

/-- Nothing was asked and nothing was written. -/
structure Blank (u : List Exchange) : Prop where
  rows : rowsOf u = []
  writes : writesOf u = []

theorem Blank.append {u u' : List Exchange} (h : Blank u) (h' : Blank u') : Blank (u ++ u') :=
  ⟨by rw [rowsOf_append, h.rows, h'.rows]; rfl, by rw [writesOf_append, h.writes, h'.writes]; rfl⟩

theorem Blank.rowsOf_append {r : List Exchange} (h : Blank r) (u : List Exchange) :
    rowsOf (r ++ u) = rowsOf u := by
  rw [Exchange.rowsOf_append, h.rows, List.nil_append]

theorem Blank.writesOf_append {r : List Exchange} (h : Blank r) (u : List Exchange) :
    writesOf (r ++ u) = writesOf u := by
  rw [Exchange.writesOf_append, h.writes, List.nil_append]

theorem blank_nil : Blank [] := ⟨rfl, rfl⟩

theorem blank_of_forall {t : List Exchange} (h : ∀ x ∈ t, Blank [x]) : Blank t := by
  induction t with
  | nil => exact blank_nil
  | cons x rest ih =>
    exact (h x List.mem_cons_self).append (ih fun y hy => h y (List.mem_cons_of_mem x hy))

theorem blank_of_no_request {x : Exchange} (h : x.request? = none) : Blank [x] :=
  ⟨by simp [rowsOf, rows, h], by simp [writesOf, write?, h]⟩

theorem blank_of_request {x : Exchange} {q : Request} (h : x.request? = some q)
    (hselect : q.isSelect = false) (hwrites : q.writes = false) : Blank [x] where
  rows := rowsOf_eq_nil (List.forall_mem_singleton.2 (rows_eq_nil h hselect))
  writes := List.filterMap_eq_nil_iff.2 (List.forall_mem_singleton.2 (write?_eq_none h hwrites))

theorem advance_of_not_ends {t : List Exchange} (h : ∀ x ∈ t, x.ends = false) (u : List Exchange) :
    t.foldl advance u = u ++ t := by
  induction t generalizing u with
  | nil => exact (List.append_nil u).symm
  | cons x rest ih =>
    rw [List.foldl_cons, ih fun y hy => h y (List.mem_cons_of_mem x hy), advance,
      h x List.mem_cons_self]
    exact List.append_assoc u [x] rest

/-- What stands before a transcript is forgotten, or still there and nothing else. -/
theorem exists_since_append {r : List Exchange} (hr : Blank r) (u t : List Exchange) :
    ∃ r', Blank r' ∧ t.foldl advance (r ++ u) = r' ++ t.foldl advance u := by
  induction t generalizing r u with
  | nil => exact ⟨r, hr, rfl⟩
  | cons x rest ih =>
    rw [List.foldl_cons, List.foldl_cons]
    unfold advance
    split
    · exact ih blank_nil []
    · rw [List.append_assoc]
      exact ih hr (u ++ [x])

end Exchange

open Exchange (since engaged advance Closes Blank)

/-! ## Batches -/

variable {d : Dialect} {m : Migrator} {now : Timestamp} {u r : List Exchange} {x : Exchange}

/-- All that has to stand before the record of a batch: its statements in the order of the steps, all
of them accepted, and on SQLite a search that found no dangling reference. -/
def Recordable (d : Dialect) (m : Migrator) (now : Timestamp) (u : List Exchange)
    (record : Request) : Prop :=
  ∃ b sqls, Batch.Rendered d m now (rowsOf u) b sqls ∧ record = b.insertion now ∧
    writesOf u = statements sqls ∧ (d = .sqlite →
      ∃ x, u.getLast? = some x ∧ x.request? = some .integrity ∧ x.accepted = true)

/-- What may be kept: one whole batch with its record, or nothing. -/
def Keepable (d : Dialect) (m : Migrator) (now : Timestamp) (u : List Exchange) : Prop :=
  writesOf u = [] ∨ ∃ b sqls, Batch.Rendered d m now (rowsOf u) b sqls ∧
    writesOf u = statements sqls ++ [(b.insertion now, true)]

/-- The error for a refused statement names the batch and the step, or the number of steps if dangling
references were found. -/
structure Blamed (d : Dialect) (m : Migrator) (now : Timestamp) (u : List Exchange) (x : Exchange)
    (e : Error) : Prop where
  step : ∀ sql, x.request? = some (.ddl sql) → ∃ b schema, ∃ h : Batch.Halt d schema b.steps,
    Batch.Chosen d m now (rowsOf u) b schema ∧ h.sql = sql ∧
      writesOf u = statements (h.done ++ h.front) ∧
        ∃ cause, e = .apply b.version h.before.length cause
  integrity : x.request? = some .integrity → ∃ b sqls,
    Batch.Rendered d m now (rowsOf u) b sqls ∧ writesOf u = statements sqls ∧
      ∃ cause, e = .apply b.version b.steps.length cause

theorem Recordable.prepend {record : Request} (h : Recordable d m now u record) (hr : Blank r) :
    Recordable d m now (r ++ u) record := by
  obtain ⟨b, sqls, hrendered, hrecord, hwrites, hlast⟩ := h
  refine ⟨b, sqls, ?_, hrecord, ?_, fun hd => ?_⟩
  · rw [hr.rowsOf_append]
    exact hrendered
  · rw [hr.writesOf_append, hwrites]
  · obtain ⟨x, hx, hrequest, haccepted⟩ := hlast hd
    exact ⟨x, by rw [List.getLast?_append, hx]; rfl, hrequest, haccepted⟩

theorem Keepable.prepend (h : Keepable d m now u) (hr : Blank r) : Keepable d m now (r ++ u) := by
  unfold Keepable
  rw [hr.rowsOf_append, hr.writesOf_append]
  exact h

theorem Blamed.prepend {e : Error} (h : Blamed d m now u x e) (hr : Blank r) :
    Blamed d m now (r ++ u) x e where
  step := by
    rw [hr.rowsOf_append, hr.writesOf_append]
    exact h.step
  integrity := by
    rw [hr.rowsOf_append, hr.writesOf_append]
    exact h.integrity

/-- A request that is no statement of a step and no search for dangling references has no step to
blame. -/
theorem blamed_of_request {q : Request} {e : Error} (hq : x.request? = some q)
    (hstep : ∀ sql, q ≠ .ddl sql) (hcheck : q ≠ .integrity) : Blamed d m now u x e where
  step sql hsql := absurd (Option.some.inj (hq.symm.trans hsql)) (hstep sql)
  integrity h := absurd (Option.some.inj (hq.symm.trans h)) hcheck

theorem blamed_of_no_request {e : Error} (hx : x.request? = none) : Blamed d m now u x e where
  step sql hsql := by cases hx.symm.trans hsql
  integrity h := by cases hx.symm.trans h

/-- Looking belongs to no step. -/
theorem Exchange.Looks.blamed {e : Error} (h : x.Looks) : Blamed d m now u x e := by
  obtain ⟨q, hq, hlooks⟩ := h
  refine blamed_of_request hq (fun sql hsql => ?_) fun hcheck => ?_
  · subst hsql
    cases hlooks
  · subst hcheck
    cases hlooks

/-- The enforcement of references is switched on again after the end of the transaction. One that the
database refused to commit ends when the connection is given back, right after the switch. -/
def Restored (post : List Exchange) : Prop :=
  ∃ body last on rest, post = body ++ last :: on :: rest ∧
    on.request? = some (.foreignKeys true) ∧
    (∀ y ∈ body, y.ends = false ∧ ∀ switch, y.request? ≠ some (.foreignKeys switch)) ∧
    (last.event = .rollback ∨ last.event = .commit ∧
      (last.accepted = true ∨ ∃ y back, rest = y :: back ∧ y.event = .rollback) ∨
      body = [] ∧ last.request? = some (.begin true) ∧ last.accepted = false)

theorem Restored.append {post : List Exchange} (h : Restored post) (t : List Exchange) :
    Restored (post ++ t) := by
  obtain ⟨body, last, on, rest, rfl, hon, hbody, hlast⟩ := h
  refine ⟨body, last, on, rest ++ t, by simp, hon, hbody, ?_⟩
  rcases hlast with hlast | ⟨hcommit, haccepted | ⟨y, back, rfl, hy⟩⟩ | hlast
  · exact Or.inl hlast
  · exact Or.inr (Or.inl ⟨hcommit, Or.inl haccepted⟩)
  · exact Or.inr (Or.inl ⟨hcommit, Or.inr ⟨y, back ++ t, rfl, hy⟩⟩)
  · exact Or.inr (Or.inr hlast)

/-! ## Every exchange in its place -/

/-- What has to hold at an exchange between what was said since the last end and what is said later. -/
structure Placed (d : Dialect) (m : Migrator) (now : Timestamp) (u : List Exchange) (x : Exchange)
    (post : List Exchange) : Prop where
  record : ∀ i, x.request? = some (.insert i) → Recordable d m now u (.insert i)
  commit : x.event = .commit → Keepable d m now u
  switch : x.request? = some (.foreignKeys false) → x.accepted = true → Restored post

def Orderly (d : Dialect) (m : Migrator) (now : Timestamp) : List Exchange → List Exchange → Prop
  | _, [] => True
  | u, x :: rest => Placed d m now u x rest ∧ Orderly d m now (advance u x) rest

theorem orderly_iff {t : List Exchange} : Orderly d m now u t ↔ ∀ before x after,
    t = before ++ x :: after → Placed d m now (before.foldl advance u) x after := by
  induction t generalizing u with
  | nil => simp [Orderly]
  | cons y rest ih =>
    rw [Orderly, ih]
    constructor
    · rintro ⟨hfirst, hrest⟩ before x after h
      cases before with
      | nil =>
        cases h
        exact hfirst
      | cons z before =>
        cases h
        exact hrest before x after rfl
    · intro h
      exact ⟨h [] y rest rfl, fun before x after hrest => h (y :: before) x after (by rw [hrest]; rfl)⟩

theorem Orderly.append {t t' : List Exchange} (h : Orderly d m now u t)
    (h' : Orderly d m now (t.foldl advance u) t') : Orderly d m now u (t ++ t') := by
  induction t generalizing u with
  | nil => exact h'
  | cons x rest ih =>
    exact ⟨⟨h.1.record, h.1.commit, fun hx hacc => (h.1.switch hx hacc).append t'⟩, ih h.2 h'⟩

theorem Orderly.prepend {t : List Exchange} (h : Orderly d m now u t) (hr : Blank r) :
    Orderly d m now (r ++ u) t := by
  refine orderly_iff.2 fun before x after ht => ?_
  obtain ⟨r', hr', hsince⟩ := Exchange.exists_since_append hr u before
  have hplaced := orderly_iff.1 h before x after ht
  rw [hsince]
  exact ⟨fun i hi => (hplaced.record i hi).prepend hr', fun hx => (hplaced.commit hx).prepend hr',
    hplaced.switch⟩

/-- Whether a request can stand anywhere. -/
def Request.free : Request → Bool
  | .insert _ | .foreignKeys false => false
  | _ => true

/-- An exchange that can stand anywhere and ends nothing. -/
def Exchange.Free (x : Exchange) : Prop :=
  x.event ≠ .commit ∧ x.event ≠ .rollback ∧ ∀ q, x.request? = some q → q.free = true

theorem Exchange.Free.ends (h : x.Free) : x.ends = false := by
  unfold Exchange.ends
  split
  case h_1 hx => exact absurd hx h.1
  case h_2 hx => exact absurd hx h.2.1
  case h_3 => rfl

theorem Exchange.ends_of_request {q : Request} (h : x.request? = some q) : x.ends = false := by
  unfold Exchange.request? at h
  split at h
  case h_1 r text ps hx => rw [Exchange.ends, hx]
  case h_2 => cases h

theorem Exchange.Inner.ends (h : x.Inner) : x.ends = false := by
  obtain ⟨q, hq, -⟩ := h
  exact ends_of_request hq

theorem Exchange.request?_of_commit (h : x.event = .commit) : x.request? = none := by
  rw [Exchange.request?, h]

theorem Exchange.request?_of_rollback (h : x.event = .rollback) : x.request? = none := by
  rw [Exchange.request?, h]

theorem Exchange.free_of_request {q : Request} (h : x.request? = some q) (hq : q.free = true) :
    x.Free := by
  unfold Exchange.request? at h
  split at h
  case h_1 r text ps hx =>
    cases h
    refine ⟨by rw [hx]; nofun, by rw [hx]; nofun, fun q' hq' => ?_⟩
    rw [Exchange.request?, hx] at hq'
    cases hq'
    exact hq
  case h_2 => cases h

theorem Exchange.Free.placed (h : x.Free) (post : List Exchange) : Placed d m now u x post where
  record i hi := by cases h.2.2 _ hi
  commit hx := absurd hx h.1
  switch hx := by cases h.2.2 _ hx

theorem orderly_of_free {t : List Exchange} (h : ∀ x ∈ t, x.Free) : Orderly d m now u t := by
  refine orderly_iff.2 fun before x after ht => (h x ?_).placed after
  rw [ht]
  exact List.mem_append_right before List.mem_cons_self

theorem Exchange.Closes.placed (h : x.Closes) (post : List Exchange) : Placed d m now u x post := by
  have hrequest : ∀ {q : Request}, x.request? = some q → q = .foreignKeys true := fun hq => by
    rcases h with h | h | h
    · cases (Exchange.request?_of_rollback h).symm.trans hq
    · rw [Exchange.request?, h] at hq
      cases hq
    · exact Option.some.inj (hq.symm.trans h)
  refine ⟨fun i hi => ?_, fun hx => ?_, fun hswitch => ?_⟩
  · cases hrequest hi
  · rcases h with h | h | h
    · cases h.symm.trans hx
    · cases h.symm.trans hx
    · cases (Exchange.request?_of_commit hx).symm.trans h
  · cases hrequest hswitch

theorem orderly_of_closes {t : List Exchange} (h : ∀ x ∈ t, x.Closes) : Orderly d m now u t := by
  refine orderly_iff.2 fun before x after ht => (h x ?_).placed after
  rw [ht]
  exact List.mem_append_right before List.mem_cons_self

/-! ## The script of a migrator -/

namespace Exchange

theorem Looks.free (h : x.Looks) : x.Free := by
  obtain ⟨q, hq, hlooks⟩ := h
  exact free_of_request hq (by cases q <;> first | rfl | cases hlooks)

theorem IsStep.free (h : x.IsStep) : x.Free := by
  obtain ⟨sql, hsql⟩ := h
  exact free_of_request hsql rfl

theorem rowsOf_steps {t : List Exchange} (h : ∀ x ∈ t, x.IsStep) : rowsOf t = [] :=
  rowsOf_eq_nil fun x hx => by
    obtain ⟨sql, hsql⟩ := h x hx
    exact rows_eq_nil hsql rfl

end Exchange

namespace Session

open Exchange (rowsOf_steps writesOf_looks)

variable {schema : Schema} {b : Batch} {t check : List Exchange}

theorem Checks.request (h : Checks d check) : ∀ x ∈ check, x.request? = some .integrity := by
  cases d with
  | sqlite =>
    obtain ⟨x, rfl, hrequest, -⟩ := h
    exact fun y hy => List.mem_singleton.1 hy ▸ hrequest
  | postgresql =>
    cases h
    exact List.forall_mem_nil _

theorem Checks.blank (h : Checks d check) : Blank check :=
  Exchange.blank_of_forall fun x hx => Exchange.blank_of_request (h.request x hx) rfl rfl

theorem Checks.getLast? (h : Checks d check) (t : List Exchange) (hd : d = .sqlite) :
    ∃ x, (t ++ check).getLast? = some x ∧ x.request? = some .integrity ∧ x.accepted = true := by
  subst hd
  obtain ⟨x, rfl, hx⟩ := h
  exact ⟨x, List.getLast?_concat, hx⟩

/-- What was written before the record of a batch. -/
theorem writesOf_prepared {looks : List Exchange} {sqls : List String}
    (hlooks : ∀ x ∈ looks, x.Looks) (hwrites : writesOf t = statements sqls)
    (hchecks : Checks d check) : writesOf (looks ++ (t ++ check)) = statements sqls := by
  rw [writesOf_append, writesOf_append, writesOf_looks hlooks, hwrites, hchecks.blank.writes,
    List.append_nil, List.nil_append]

theorem rowsOf_prepared {looks : List Exchange} (hsteps : ∀ x ∈ t, x.IsStep)
    (hchecks : Checks d check) : rowsOf (looks ++ (t ++ check)) = rowsOf looks := by
  rw [rowsOf_append, rowsOf_append, rowsOf_steps hsteps, hchecks.blank.rows, List.append_nil,
    List.append_nil]

theorem Applying.orderly {looks : List Exchange} {e : Ending Applied}
    (hlooks : ∀ x ∈ looks, x.Looks) (hchosen : Batch.Chosen d m now (rowsOf looks) b schema)
    (h : Applying d now schema b e t) : Orderly d m now [] (looks ++ t) := by
  have hfree : ∀ t', (∀ x ∈ t', x.Free) → ∀ x ∈ looks ++ t', x.Free := fun t' ht' =>
    List.forall_mem_append.2 ⟨fun x hx => (hlooks x hx).free, ht'⟩
  have hone : ∀ {t' : List Exchange} {x : Exchange} {q : Request}, (∀ y ∈ t', y.IsStep) →
      x.request? = some q → q.free = true → Orderly d m now [] (looks ++ (t' ++ [x])) :=
    fun hsteps hx hq => orderly_of_free (hfree _ (List.forall_mem_append.2
      ⟨fun y hy => (hsteps y hy).free, List.forall_mem_singleton.2 (Exchange.free_of_request hx hq)⟩))
  cases h with
  | broken e steps => exact orderly_of_free (hfree t fun x hx => (steps x hx).free)
  | halted fault h steps writes request => exact hone steps request rfl
  | dangling fault sqls steps rendered writes request => exact hone steps request rfl
  | unsent e steps checks =>
    exact orderly_of_free (hfree _ (List.forall_mem_append.2 ⟨fun x hx => (steps x hx).free,
      fun x hx => Exchange.free_of_request (checks.request x hx) rfl⟩))
  | @sent t' check x e sqls steps rendered writes checks request ends =>
    have hbefore : ∀ y ∈ looks ++ (t' ++ check), y.Free := hfree _ (List.forall_mem_append.2
      ⟨fun y hy => (steps y hy).free, fun y hy => Exchange.free_of_request (checks.request y hy) rfl⟩)
    rw [← List.append_assoc]
    refine (orderly_of_free hbefore).append ⟨⟨fun i hi => ?_, fun hx => ?_, fun hx => ?_⟩, trivial⟩
    · rw [Exchange.advance_of_not_ends fun y hy => (hbefore y hy).ends, List.nil_append]
      rw [request] at hi
      refine ⟨b, sqls, ⟨schema, ?_, rendered⟩, (Option.some.inj hi).symm,
        writesOf_prepared hlooks writes checks, ?_⟩
      · rw [rowsOf_prepared steps checks]
        exact hchosen
      · rw [← List.append_assoc]
        exact checks.getLast? _
    · rw [Exchange.request?, hx] at request
      cases request
    · rw [request] at hx
      cases hx

theorem Script.orderly {e : Ending (Option Applied)} (h : Script d m now e t) :
    Orderly d m now [] t := by
  cases h with
  | idle looks => exact orderly_of_free fun x hx => (looks x hx).free
  | stopped refused e looks => exact orderly_of_free fun x hx => (looks x hx).free
  | batch b schema looks chosen applying => exact applying.orderly looks chosen

/-- What a transaction that succeeds leaves can be kept. -/
theorem Script.keepable {o : Option Applied} (h : Script d m now (.value o) t) :
    Keepable d m now t := by
  generalize he : Ending.value o = e at h
  cases h with
  | idle looks => exact Or.inl (writesOf_looks looks)
  | stopped => cases he
  | @batch looks t' e b schema hlooks chosen applying =>
    cases applying with
    | broken | halted | dangling | unsent => cases he
    | @sent t' check x e sqls steps rendered writes checks request ends =>
      obtain ⟨rfl, haccepted⟩ | ⟨e', rfl⟩ := ends
      · refine Or.inr ⟨b, sqls, ⟨schema, ?_, rendered⟩, ?_⟩
        · rw [← List.append_assoc, rowsOf_append, rowsOf_prepared steps checks,
            Exchange.rowsOf_eq_nil (List.forall_mem_singleton.2 (Exchange.rows_eq_nil request rfl)),
            List.append_nil]
          exact chosen
        · rw [← List.append_assoc, writesOf_append, writesOf_prepared hlooks writes checks]
          simp [writesOf, Exchange.write?_of_writes request rfl, haccepted]
      · cases he

theorem Applying.inner {e : Ending Applied} (h : Applying d now schema b e t) :
    ∀ x ∈ t, x.Inner := by
  have hstep : ∀ {t' : List Exchange}, (∀ x ∈ t', x.IsStep) → ∀ x ∈ t', x.Inner :=
    fun hsteps x hx => by
      obtain ⟨sql, hsql⟩ := hsteps x hx
      exact ⟨_, hsql, rfl⟩
  have hcheck : ∀ {t' : List Exchange}, Checks d t' → ∀ x ∈ t', x.Inner :=
    fun hchecks x hx => ⟨_, hchecks.request x hx, rfl⟩
  cases h with
  | broken e steps => exact hstep steps
  | halted fault h steps writes request =>
    exact List.forall_mem_append.2 ⟨hstep steps, List.forall_mem_singleton.2 ⟨_, request, rfl⟩⟩
  | dangling fault sqls steps rendered writes request =>
    exact List.forall_mem_append.2 ⟨hstep steps, List.forall_mem_singleton.2 ⟨_, request, rfl⟩⟩
  | unsent e steps checks => exact List.forall_mem_append.2 ⟨hstep steps, hcheck checks⟩
  | sent sqls steps rendered writes checks request ends =>
    exact List.forall_mem_append.2 ⟨List.forall_mem_append.2 ⟨hstep steps, hcheck checks⟩,
      List.forall_mem_singleton.2 ⟨_, request, rfl⟩⟩

theorem Script.inner {e : Ending (Option Applied)} (h : Script d m now e t) :
    ∀ x ∈ t, x.Inner := by
  cases h with
  | idle looks => exact fun x hx => (looks x hx).inner
  | stopped refused e looks => exact fun x hx => (looks x hx).inner
  | batch b schema looks chosen applying =>
    exact List.forall_mem_append.2 ⟨fun x hx => (looks x hx).inner, applying.inner⟩

theorem Applying.blamed {looks front : List Exchange} {e : Error}
    (hlooks : ∀ x ∈ looks, x.Looks) (hchosen : Batch.Chosen d m now (rowsOf looks) b schema)
    (h : Applying d now schema b (.stop true e) t) (ht : looks ++ t = front ++ [x]) :
    Blamed d m now front x e := by
  have hlast : ∀ {t' : List Exchange} {y : Exchange}, looks ++ (t' ++ [y]) = front ++ [x] →
      looks ++ t' = front ∧ y = x := fun h => by
    rw [← List.append_assoc] at h
    obtain ⟨hfront, hx⟩ := List.append_inj' h rfl
    exact ⟨hfront, List.singleton_inj.1 hx⟩
  have hrows : ∀ {t' : List Exchange}, (∀ y ∈ t', y.IsStep) → rowsOf (looks ++ t') = rowsOf looks :=
    fun hsteps => by rw [rowsOf_append, rowsOf_steps hsteps, List.append_nil]
  have hwritten : ∀ t' : List Exchange, writesOf (looks ++ t') = writesOf t' :=
    fun t' => by rw [writesOf_append, writesOf_looks hlooks, List.nil_append]
  cases h with
  | halted fault h steps writes request =>
    obtain ⟨rfl, rfl⟩ := hlast ht
    refine ⟨fun sql hsql => ?_, fun hcheck => ?_⟩
    · rw [request] at hsql
      cases hsql
      refine ⟨b, schema, h, ?_, rfl, (hwritten _).trans writes, _, rfl⟩
      rw [hrows steps]
      exact hchosen
    · rw [request] at hcheck
      cases hcheck
  | dangling fault sqls steps rendered writes request =>
    obtain ⟨rfl, rfl⟩ := hlast ht
    refine ⟨fun sql hsql => ?_, fun _ => ⟨b, sqls, ⟨schema, ?_, rendered⟩, ?_, _, rfl⟩⟩
    · rw [request] at hsql
      cases hsql
    · rw [hrows steps]
      exact hchosen
    · exact (hwritten _).trans writes
  | sent sqls steps rendered writes checks request ends =>
    obtain ⟨-, rfl⟩ := hlast ht
    exact blamed_of_request request nofun nofun

/-- The error of a script that was stopped blames the right step. -/
theorem Script.blamed {front : List Exchange} {e : Error}
    (h : Script d m now (.stop true e) (front ++ [x])) : Blamed d m now front x e := by
  generalize ht : front ++ [x] = t, he : Ending.stop true e = ending at h
  cases h with
  | idle => cases he
  | stopped refused e looks =>
    exact (looks x (ht ▸ List.mem_append_right front List.mem_cons_self)).blamed
  | @batch looks t' e' b schema hlooks chosen applying =>
    cases e' with
    | value => cases he
    | stop refused e' =>
      cases he
      exact applying.blamed hlooks chosen ht.symm

end Session

/-! ## Refusals -/

/-- The first refusal, what was said before it and what is still said after it. -/
structure Refusal {α : Type} (d : Dialect) (m : Migrator) (now : Timestamp)
    (outcome : Except Error α) (front : List Exchange) (x : Exchange) (post : List Exchange) :
    Prop where
  before : ∀ y ∈ front, y.accepted = true
  refused : x.accepted = false
  closing : ∀ y ∈ post, y.Closes
  undone : engaged d (front ++ [x]) = true → ∃ y ∈ post, y.event = .rollback
  failed : ∃ e, outcome = .error e ∧
    ((∀ y ∈ post, y.accepted = true) → Blamed d m now (since front) x e)

def Stops {α : Type} (d : Dialect) (m : Migrator) (now : Timestamp) (outcome : Except Error α)
    (t : List Exchange) : Prop :=
  (∀ x ∈ t, x.accepted = true) ∨
    ∃ front x post, t = front ++ x :: post ∧ Refusal d m now outcome front x post

/-- A part of a run that leaves no transaction open. -/
structure Settled {α : Type} (d : Dialect) (m : Migrator) (now : Timestamp)
    (outcome : Except Error α) (t : List Exchange) : Prop where
  orderly : Orderly d m now [] t
  stops : Stops d m now outcome t
  ended : engaged d t = false
  accepted : ∀ a, outcome = .ok a → (∀ x ∈ t, x.accepted = true) ∧ Blank (since t)

variable {α β : Type} {t t' : List Exchange}

theorem since_append (t t' : List Exchange) : since (t ++ t') = t'.foldl advance (since t) :=
  List.foldl_append

theorem engaged_append (d : Dialect) (t t' : List Exchange) :
    engaged d (t ++ t') = t'.foldl (Exchange.engage d) (engaged d t) :=
  List.foldl_append

/-- Parts of a run follow each other while they succeed. -/
theorem Settled.append {a : α} {outcome : Except Error β}
    (h : Settled d m now (.ok a : Except Error α) t) (h' : Settled d m now outcome t') :
    Settled d m now outcome (t ++ t') := by
  obtain ⟨haccepted, hblank⟩ := h.accepted a rfl
  have hsince : ∀ t', ∃ r, Blank r ∧ since (t ++ t') = r ++ since t' := fun t' => by
    obtain ⟨r, hr, heq⟩ := Exchange.exists_since_append hblank [] t'
    rw [List.append_nil] at heq
    exact ⟨r, hr, (since_append t t').trans heq⟩
  have hengaged : ∀ t', engaged d (t ++ t') = engaged d t' := fun t' => by
    rw [engaged_append, h.ended]
    rfl
  refine ⟨h.orderly.append ?_, ?_, (hengaged t').trans h'.ended, fun b hb => ?_⟩
  · have hlater := h'.orderly.prepend hblank
    rw [List.append_nil] at hlater
    exact hlater
  · rcases h'.stops with hall | ⟨front, x, post, rfl, hrefusal⟩
    · exact Or.inl (List.forall_mem_append.2 ⟨haccepted, hall⟩)
    · refine Or.inr ⟨t ++ front, x, post, (List.append_assoc ..).symm,
        List.forall_mem_append.2 ⟨haccepted, hrefusal.before⟩, hrefusal.refused, hrefusal.closing,
        fun hopen => hrefusal.undone ?_, ?_⟩
      · rw [List.append_assoc, hengaged] at hopen
        exact hopen
      · obtain ⟨e, he, hblamed⟩ := hrefusal.failed
        obtain ⟨r, hr, heq⟩ := hsince front
        refine ⟨e, he, fun hpost => ?_⟩
        rw [heq]
        exact (hblamed hpost).prepend hr
  · obtain ⟨haccepted', hblank'⟩ := h'.accepted b hb
    obtain ⟨r, hr, heq⟩ := hsince t'
    refine ⟨List.forall_mem_append.2 ⟨haccepted, haccepted'⟩, ?_⟩
    rw [heq]
    exact hr.append hblank'

/-- What is said does not depend on what becomes of the value. -/
theorem Settled.congr {outcome : Except Error α} {outcome' : Except Error β}
    (h : Settled d m now outcome t) (herror : ∀ e, outcome = .error e → outcome' = .error e)
    (hok : ∀ b, outcome' = .ok b → ∃ a, outcome = .ok a) : Settled d m now outcome' t where
  orderly := h.orderly
  stops := by
    rcases h.stops with hall | ⟨front, x, post, ht, hrefusal⟩
    · exact Or.inl hall
    · obtain ⟨e, he, hblamed⟩ := hrefusal.failed
      exact Or.inr ⟨front, x, post, ht, hrefusal.before, hrefusal.refused, hrefusal.closing,
        hrefusal.undone, e, herror e he, hblamed⟩
  ended := h.ended
  accepted b hb := by
    obtain ⟨a, ha⟩ := hok b hb
    exact h.accepted a ha

end SchemaLedger
