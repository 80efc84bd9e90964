import SchemaLedger.Proofs.Session.Transaction
import SchemaLedger.Proofs.Session.Transcript

set_option autoImplicit false

/-!
# Transactions of migrations

How a transaction of a migration begins and ends, whatever the database answers. On SQLite it stands
between two switches of the enforcement of references; on PostgreSQL the locks come first.
-/
namespace SchemaLedger

open Exchange (rowsOf writesOf since engaged advance engage Closes Blank)

variable {d : Dialect} {m : Migrator} {now : Timestamp} {α β : Type} {t t' : List Exchange}

namespace Session

open World (Steady Busy)

variable {σ : Type} {s : Setting σ} {c : Nat} {u v w w' : World σ}

/-! ## Single exchanges -/

/-- How a transaction is opened: on SQLite by a request, on PostgreSQL by whatever is sent first. -/
def Opens (d : Dialect) (immediate : Bool) (lead : List Exchange) : Prop :=
  match d with
  | .sqlite => ∃ x, lead = [x] ∧ x.request? = some (.begin immediate) ∧ x.accepted = true
  | .postgresql => lead = []

/-- A transaction with a body that is described by `P`: it is kept, it is not since the database
refuses to, it is undone, or it is not even begun. -/
inductive Block (d : Dialect) (immediate : Bool) (P : Ending α → List Exchange → Prop) :
    Except Error α → List Exchange → Prop
  | kept {lead body : List Exchange} {x : Exchange} {a : α} (opens : Opens d immediate lead)
      (said : P (.value a) body) (accepted : ∀ y ∈ body, y.accepted = true) (event : x.event = .commit)
      (kept : x.accepted = true) : Block d immediate P (.ok a) (lead ++ body ++ [x])
  | unkept {lead body : List Exchange} {x : Exchange} {a : α} (e : Error)
      (opens : Opens d immediate lead) (said : P (.value a) body)
      (accepted : ∀ y ∈ body, y.accepted = true) (event : x.event = .commit)
      (refused : x.accepted = false) : Block d immediate P (.error e) (lead ++ body ++ [x])
  | undone {lead body : List Exchange} {x : Exchange} {refused : Bool} (e : Error)
      (opens : Opens d immediate lead) (said : P (.stop refused e) body)
      (fits : (Ending.stop refused e : Ending α).Fits body) (event : x.event = .rollback)
      (accepted : x.accepted = true) : Block d immediate P (.error e) (lead ++ body ++ [x])
  | barred {x : Exchange} (e : Error) (sqlite : d = .sqlite)
      (request : x.request? = some (.begin immediate)) (refused : x.accepted = false) :
      Block d immediate P (.error e) [x]

theorem engage_of_request {x : Exchange} {q : Request} (h : x.request? = some q) (busy : Bool) :
    engage d busy x = (busy || opens d q x.reply.toBool) := by
  unfold Exchange.request? at h
  split at h
  case h_1 r text ps hx =>
    cases h
    rw [engage, hx]
  case h_2 => cases h

theorem toBool_of_accepted {x : Exchange} (h : x.accepted = true) : x.reply.toBool = true := by
  unfold Exchange.accepted at h
  split at h
  case h_1 reply hreply => rw [hreply]; rfl
  case h_2 => cases h

theorem accepted_of_no_request {x : Exchange} (h : x.request? = none) :
    x.accepted = x.reply.toBool := by
  rw [Exchange.accepted, h]
  cases x.reply <;> rfl

theorem engaged_of_inner (h : ∀ x ∈ t, x.Inner) : t.foldl (engage d) true = true := by
  induction t with
  | nil => rfl
  | cons x rest ih =>
    obtain ⟨q, hq, -⟩ := h x List.mem_cons_self
    rw [List.foldl_cons, engage_of_request hq, Bool.true_or]
    exact ih fun y hy => h y (List.mem_cons_of_mem x hy)

/-- PostgreSQL opens a transaction for the first request. -/
theorem engaged_postgresql (h : ∀ x ∈ t, x.Inner) (hne : t ≠ []) (busy : Bool) :
    t.foldl (engage .postgresql) busy = true := by
  cases t with
  | nil => exact absurd rfl hne
  | cons x rest =>
    obtain ⟨q, hq, -⟩ := h x List.mem_cons_self
    rw [List.foldl_cons, engage_of_request hq, opens, Bool.or_true]
    exact engaged_of_inner fun y hy => h y (List.mem_cons_of_mem x hy)

/-- A migration: on SQLite its transaction stands between two switches. -/
inductive Bracket (d : Dialect) (P : Ending α → List Exchange → Prop) :
    Except Error α → List Exchange → Prop
  | refused {x : Exchange} (e : Error) (sqlite : d = .sqlite)
      (request : x.request? = some (.foreignKeys false)) (refused : x.accepted = false) : Bracket d P (.error e) [x]
  | restored {off on : Exchange} {o : Except Error α} {t : List Exchange} (sqlite : d = .sqlite)
      (switchedOff : off.request? = some (.foreignKeys false)) (accepted : off.accepted = true)
      (block : Block d true P o t) (switchedOn : on.request? = some (.foreignKeys true))
      (accepted' : on.accepted = true) : Bracket d P o (off :: (t ++ [on]))
  | unrestored {off on : Exchange} {o : Except Error α} {t : List Exchange} (e : Error)
      (sqlite : d = .sqlite) (switchedOff : off.request? = some (.foreignKeys false))
      (accepted : off.accepted = true) (block : Block d true P o t)
      (switchedOn : on.request? = some (.foreignKeys true)) (refused : on.accepted = false) :
      Bracket d P (.error e) (off :: (t ++ [on]))
  | plain {o : Except Error α} {t : List Exchange} (postgresql : d = .postgresql)
      (block : Block d false P o t) : Bracket d P o t

/-- A script that asks for something where a transaction opens by that alone. -/
def Scripted (d : Dialect) (m : Migrator) (now : Timestamp) (e : Ending (Option Applied))
    (t : List Exchange) : Prop :=
  Script d m now e t ∧ (d = .postgresql → t ≠ [])

theorem Script.locked {lock : List Exchange} {e : Ending (Option Applied)}
    (hlock : ∀ x ∈ lock, x.Looks) (hrows : rowsOf lock = []) (h : Script d m now e t) :
    Script d m now e (lock ++ t) := by
  have hall : ∀ {t' : List Exchange}, (∀ x ∈ t', x.Looks) → ∀ x ∈ lock ++ t', x.Looks :=
    fun h' => List.forall_mem_append.2 ⟨hlock, h'⟩
  cases h with
  | idle looks => exact .idle (hall looks)
  | stopped refused e looks => exact .stopped refused e (hall looks)
  | @batch t t' e b schema looks chosen applying =>
    rw [← List.append_assoc]
    refine .batch b schema (hall looks) ?_ applying
    rw [Exchange.rowsOf_append, hrows]
    exact chosen

theorem Opens.request {immediate : Bool} {lead : List Exchange} (h : Opens d immediate lead) :
    ∀ x ∈ lead, x.request? = some (.begin immediate) ∧ x.accepted = true := by
  cases d with
  | sqlite =>
    obtain ⟨x, rfl, hx⟩ := h
    exact List.forall_mem_singleton.2 hx
  | postgresql =>
    cases h
    exact List.forall_mem_nil _

theorem Opens.free {immediate : Bool} {lead : List Exchange} (h : Opens d immediate lead) :
    ∀ x ∈ lead, x.Free :=
  fun x hx => Exchange.free_of_request (h.request x hx).1 rfl

theorem Opens.blank {immediate : Bool} {lead : List Exchange} (h : Opens d immediate lead) :
    Blank lead :=
  Exchange.blank_of_forall fun x hx => Exchange.blank_of_request (h.request x hx).1 rfl rfl

/-- Between the beginning and the end of a transaction no transaction ends. -/
theorem not_ends_inside {immediate : Bool} {lead body : List Exchange}
    (hopens : Opens d immediate lead) (hbody : ∀ x ∈ body, x.Inner) :
    ∀ x ∈ lead ++ body, x.ends = false :=
  List.forall_mem_append.2 ⟨fun x hx => (hopens.free x hx).ends, fun x hx => (hbody x hx).ends⟩

/-- Inside of a transaction that was opened one is open. -/
theorem engaged_inside {immediate : Bool} {lead body : List Exchange}
    (hopens : Opens d immediate lead) (hbody : ∀ x ∈ body, x.Inner)
    (hasks : d = .postgresql → body ≠ []) : engaged d (lead ++ body) = true := by
  rw [engaged_append]
  cases d with
  | sqlite =>
    obtain ⟨x, rfl, hrequest, haccepted⟩ := hopens
    have hopen : engaged .sqlite [x] = true := by
      rw [engaged, List.foldl_cons, List.foldl_nil, engage_of_request hrequest,
        toBool_of_accepted haccepted]
      rfl
    rw [hopen]
    exact engaged_of_inner hbody
  | postgresql => exact engaged_postgresql hbody (hasks rfl) _

theorem orderly_ended {immediate : Bool} {lead body : List Exchange} {x : Exchange}
    (hopens : Opens d immediate lead) (hbody : Orderly d m now [] body)
    (hinner : ∀ x ∈ body, x.Inner) (hx : x.request? = none)
    (hkeep : x.event = .commit → Keepable d m now body) :
    Orderly d m now [] (lead ++ body ++ [x]) := by
  have hlead : lead.foldl advance [] = lead ++ [] := by
    rw [Exchange.advance_of_not_ends fun y hy => (hopens.free y hy).ends, List.append_nil,
      List.nil_append]
  have hstart : Orderly d m now [] (lead ++ body) := by
    refine (orderly_of_free hopens.free).append ?_
    rw [hlead]
    exact hbody.prepend hopens.blank
  refine hstart.append ⟨⟨fun i hi => ?_, fun hcommit => ?_, fun hswitch => ?_⟩, trivial⟩
  · cases hx.symm.trans hi
  · rw [Exchange.advance_of_not_ends (not_ends_inside hopens hinner), List.nil_append]
    exact (hkeep hcommit).prepend hopens.blank
  · cases hx.symm.trans hswitch

theorem Block.orderly {immediate : Bool} {o : Except Error (Option Applied)}
    (h : Block d immediate (Scripted d m now) o t) : Orderly d m now [] t := by
  cases h with
  | kept opens said accepted event kept =>
    exact orderly_ended opens said.1.orderly said.1.inner (Exchange.request?_of_commit event)
      fun _ => said.1.keepable
  | unkept e opens said accepted event refused =>
    exact orderly_ended opens said.1.orderly said.1.inner (Exchange.request?_of_commit event)
      fun _ => said.1.keepable
  | undone e opens said fits event accepted =>
    refine orderly_ended opens said.1.orderly said.1.inner (Exchange.request?_of_rollback event)
      fun hcommit => ?_
    rw [event] at hcommit
    cases hcommit
  | barred e sqlite request refused =>
    exact orderly_of_free (List.forall_mem_singleton.2 (Exchange.free_of_request request rfl))

/-- A transaction that succeeds was granted everything, and nothing of it is left open. -/
theorem Block.of_ok {immediate : Bool} {o : Option Applied}
    (h : Block d immediate (Scripted d m now) (.ok o) t) :
    (∀ x ∈ t, x.accepted = true) ∧ since t = [] := by
  cases h with
  | kept opens said accepted event kept =>
    refine ⟨List.forall_mem_append.2 ⟨List.forall_mem_append.2
      ⟨fun x hx => (opens.request x hx).2, accepted⟩, List.forall_mem_singleton.2 kept⟩, ?_⟩
    rw [since_append, List.foldl_cons, List.foldl_nil, advance, Exchange.ends, event]
    exact if_pos kept

/-- Where a transaction was refused something: only its end follows, which is granted, and the error
blames the right step. -/
theorem Block.refusal {immediate : Bool} {o : Except Error (Option Applied)}
    (h : Block d immediate (Scripted d m now) o t) : (∀ x ∈ t, x.accepted = true) ∨
      ∃ front x post e, t = front ++ x :: post ∧ (∀ y ∈ front, y.accepted = true) ∧
        x.accepted = false ∧ (∀ y ∈ post, y.event = .rollback) ∧
        (∀ y ∈ front, y.ends = false) ∧ o = .error e ∧ Blamed d m now front x e := by
  have hopening : ∀ {lead body : List Exchange}, Opens d immediate lead →
      (∀ y ∈ body, y.accepted = true) → ∀ y ∈ lead ++ body, y.accepted = true :=
    fun hopens hbody => List.forall_mem_append.2 ⟨fun y hy => (hopens.request y hy).2, hbody⟩
  cases h with
  | kept opens said accepted event kept =>
    exact Or.inl (List.forall_mem_append.2
      ⟨hopening opens accepted, List.forall_mem_singleton.2 kept⟩)
  | @unkept lead body x a e opens said accepted event refused =>
    exact Or.inr ⟨lead ++ body, x, [], e, rfl, hopening opens accepted, refused,
      List.forall_mem_nil _, not_ends_inside opens said.1.inner, rfl,
      blamed_of_no_request (Exchange.request?_of_commit event)⟩
  | @undone lead body x refused e opens said fits event accepted =>
    cases refused with
    | false =>
      exact Or.inl (List.forall_mem_append.2
        ⟨hopening opens fits, List.forall_mem_singleton.2 accepted⟩)
    | true =>
      obtain ⟨front, last, rfl, hfront, hlast⟩ := fits
      refine Or.inr ⟨lead ++ front, last, [x], e, by simp, hopening opens hfront, hlast,
        List.forall_mem_singleton.2 event, ?_, rfl, said.1.blamed.prepend opens.blank⟩
      exact not_ends_inside opens fun y hy => said.1.inner y (List.mem_append_left _ hy)
  | @barred x e sqlite request refused =>
    exact Or.inr ⟨[], x, [], e, rfl, List.forall_mem_nil _, refused, List.forall_mem_nil _,
      List.forall_mem_nil _, rfl, blamed_of_request request nofun nofun⟩

/-- A transaction ends with its last exchange, if the database does not refuse. -/
theorem Block.ending {immediate : Bool} {o : Except Error (Option Applied)}
    (h : Block d immediate (Scripted d m now) o t) : ∃ body last, t = body ++ [last] ∧
      (∀ y ∈ body, y.ends = false ∧ ∀ switch, y.request? ≠ some (.foreignKeys switch)) ∧
      (last.event = .rollback ∨
        last.event = .commit ∧ (last.accepted = true ∨ engaged d t = true) ∨
        body = [] ∧ last.request? = some (.begin immediate) ∧ last.accepted = false) := by
  have hinside : ∀ {lead body : List Exchange}, Opens d immediate lead → (∀ y ∈ body, y.Inner) →
      ∀ y ∈ lead ++ body, y.ends = false ∧ ∀ switch, y.request? ≠ some (.foreignKeys switch) := by
    intro lead body hopens hbody y hy
    refine ⟨not_ends_inside hopens hbody y hy, fun switch hswitch => ?_⟩
    rcases List.mem_append.1 hy with hy | hy
    · cases hswitch.symm.trans (hopens.request y hy).1
    · obtain ⟨q, hq, hinner⟩ := hbody y hy
      cases hswitch.symm.trans hq
      cases hinner
  cases h with
  | kept opens said accepted event kept =>
    exact ⟨_, _, rfl, hinside opens said.1.inner, Or.inr (Or.inl ⟨event, Or.inl kept⟩)⟩
  | unkept e opens said accepted event refused =>
    refine ⟨_, _, rfl, hinside opens said.1.inner, Or.inr (Or.inl ⟨event, Or.inr ?_⟩)⟩
    rw [engaged_append, engaged_inside opens said.1.inner said.2, List.foldl_cons, List.foldl_nil,
      engage, event]
    dsimp only
    rw [← accepted_of_no_request (Exchange.request?_of_commit event), refused]
    rfl
  | undone e opens said fits event accepted =>
    exact ⟨_, _, rfl, hinside opens said.1.inner, Or.inl event⟩
  | @barred x e sqlite request refused =>
    exact ⟨[], x, rfl, List.forall_mem_nil _, Or.inr (Or.inr ⟨rfl, request, refused⟩)⟩

/-! ## Migrations are settled -/

/-- What is said when a connection is taken back. -/
def giveBack (d : Dialect) (t : List Exchange) (x : Exchange) : List Exchange :=
  if engaged d t = true then [x] else []

theorem engaged_giveBack {x : Exchange} (hx : x.event = .rollback) (t : List Exchange) :
    engaged d (t ++ giveBack d t x) = false := by
  unfold giveBack
  split
  case isTrue h =>
    rw [engaged_append, List.foldl_cons, List.foldl_nil, engage, hx]
  case isFalse h =>
    rw [List.append_nil]
    exact Bool.eq_false_iff.2 h

theorem mem_giveBack {x y : Exchange} (h : y ∈ giveBack d t x) : y = x := by
  unfold giveBack at h
  split at h
  · exact List.mem_singleton.1 h
  · cases h

/-- If a transaction was open and none is after exchanges that only close, one of them is a rollback. -/
theorem exists_rollback {post : List Exchange} (hclosing : ∀ y ∈ post, y.Closes)
    (h : post.foldl (engage d) true = false) : ∃ y ∈ post, y.event = .rollback := by
  induction post with
  | nil => cases h
  | cons y rest ih =>
    rcases hclosing y List.mem_cons_self with hy | hy | hy
    · exact ⟨y, List.mem_cons_self, hy⟩
    · rw [List.foldl_cons, engage, hy] at h
      obtain ⟨z, hz, hrollback⟩ := ih (fun z hz => hclosing z (List.mem_cons_of_mem y hz)) h
      exact ⟨z, List.mem_cons_of_mem y hz, hrollback⟩
    · rw [List.foldl_cons, engage_of_request hy, Bool.true_or] at h
      obtain ⟨z, hz, hrollback⟩ := ih (fun z hz => hclosing z (List.mem_cons_of_mem y hz)) h
      exact ⟨z, List.mem_cons_of_mem y hz, hrollback⟩

theorem stops_of_refusal (front : List Exchange) {o : Except Error α} {post : List Exchange}
    {x : Exchange} {e : Error}
    (hbefore : ∀ y ∈ front, y.accepted = true) (hrefused : x.accepted = false)
    (hclosing : ∀ y ∈ post, y.Closes) (hended : engaged d (front ++ x :: post) = false)
    (ho : o = .error e)
    (hblamed : (∀ y ∈ post, y.accepted = true) → Blamed d m now (since front) x e) :
    Stops d m now o (front ++ x :: post) := by
  refine Or.inr ⟨front, x, post, rfl, hbefore, hrefused, hclosing, fun hopen => ?_, e, ho, hblamed⟩
  rw [← List.singleton_append, ← List.append_assoc, engaged_append, hopen] at hended
  exact exists_rollback hclosing hended

/-- A transaction between its switches, with what is said when the connection is taken back. Either
all of the way out is granted, or the switch is refused and its error is the outcome. -/
theorem stops_bracketed (off on : List Exchange) {immediate : Bool}
    {o o' : Except Error (Option Applied)} {back : List Exchange} (h : Block d immediate (Scripted d m now) o t)
    (hoff : ∀ y ∈ off, y.accepted = true ∧ y.ends = false) (hblank : Blank off)
    (hon : ∀ y ∈ on ++ back, y.Closes) (hended : engaged d (off ++ (t ++ (on ++ back))) = false)
    (ho : ((∀ y ∈ on ++ back, y.accepted = true) ∧ o' = o) ∨
      ∃ y e, on = [y] ∧ y.request? = some (.foreignKeys true) ∧ y.accepted = false ∧
        o' = .error e) :
    Stops d m now o' (off ++ (t ++ (on ++ back))) := by
  have hoffs : ∀ y ∈ off, y.accepted = true := fun y hy => (hoff y hy).1
  rcases h.refusal with hall | ⟨front, x, post, e, rfl, hbefore, hrefused, hpost, hinside, hoe, hblamed⟩
  · rcases ho with ⟨hgranted, -⟩ | ⟨y, e, rfl, hy, hrefused, rfl⟩
    · exact Or.inl (List.forall_mem_append.2 ⟨hoffs, List.forall_mem_append.2 ⟨hall, hgranted⟩⟩)
    · rw [← List.append_assoc, List.singleton_append] at hended ⊢
      exact stops_of_refusal _ (List.forall_mem_append.2 ⟨hoffs, hall⟩) hrefused
        (fun z hz => hon z (List.mem_cons_of_mem y hz)) hended rfl
        fun _ => blamed_of_request hy nofun nofun
  · have hsplit : off ++ (front ++ x :: post ++ (on ++ back)) =
        (off ++ front) ++ x :: (post ++ (on ++ back)) := by simp
    have hsince : since (off ++ front) = off ++ front :=
      (Exchange.advance_of_not_ends (List.forall_mem_append.2
        ⟨fun y hy => (hoff y hy).2, hinside⟩) []).trans (List.nil_append _)
    have hbefore' := List.forall_mem_append.2 ⟨hoffs, hbefore⟩
    have hclosing : ∀ y ∈ post ++ (on ++ back), y.Closes :=
      List.forall_mem_append.2 ⟨fun y hy => Or.inl (hpost y hy), hon⟩
    rw [hsplit] at hended ⊢
    rcases ho with ⟨-, rfl⟩ | ⟨y, e', rfl, -, hy, rfl⟩
    · refine stops_of_refusal _ hbefore' hrefused hclosing hended hoe fun _ => ?_
      rw [hsince]
      exact hblamed.prepend hblank
    · refine stops_of_refusal _ hbefore' hrefused hclosing hended rfl fun hgranted => ?_
      have hy' := hgranted y (List.mem_append_right _ (List.mem_append_left _ List.mem_cons_self))
      cases hy.symm.trans hy'

theorem engage_switch {x : Exchange} {switch : Bool}
    (h : x.request? = some (.foreignKeys switch)) (busy : Bool) : engage .sqlite busy x = busy := by
  rw [engage_of_request h]
  exact Bool.or_false busy

/-- The switches open no transaction. -/
theorem engaged_switched {off on : Exchange} (hoff : off.request? = some (.foreignKeys false))
    (hon : on.request? = some (.foreignKeys true)) (t : List Exchange) :
    engaged .sqlite (off :: (t ++ [on])) = engaged .sqlite t := by
  rw [engaged, List.foldl_cons, engage_switch hoff, List.foldl_append, List.foldl_cons,
    List.foldl_nil, engage_switch hon]
  rfl

theorem blank_of_closes {u post : List Exchange} (hu : Blank u) (h : ∀ y ∈ post, y.Closes) :
    Blank (post.foldl advance u) := by
  induction post generalizing u with
  | nil => exact hu
  | cons y rest ih =>
    refine ih ?_ fun z hz => h z (List.mem_cons_of_mem y hz)
    unfold advance
    split
    · exact Exchange.blank_nil
    · refine hu.append ?_
      rcases h y List.mem_cons_self with hy | hy | hy
      · exact Exchange.blank_of_no_request (Exchange.request?_of_rollback hy)
      · exact Exchange.blank_of_no_request (by rw [Exchange.request?, hy])
      · exact Exchange.blank_of_request hy rfl rfl

/-- The switch back stands behind the end of the transaction, and a rollback behind it if the
transaction was still open. -/
theorem orderly_switched {o : Except Error (Option Applied)} {off on x : Exchange}
    (hoff : off.request? = some (.foreignKeys false))
    (h : Block .sqlite true (Scripted .sqlite m now) o t)
    (hon : on.request? = some (.foreignKeys true)) (hx : x.event = .rollback) :
    Orderly .sqlite m now []
      (off :: (t ++ ([on] ++ giveBack .sqlite (off :: (t ++ [on])) x))) := by
  have hclosing : ∀ y ∈ [on] ++ giveBack .sqlite (off :: (t ++ [on])) x, y.Closes :=
    List.forall_mem_append.2 ⟨List.forall_mem_singleton.2 (Or.inr (Or.inr hon)),
      fun y hy => Or.inl (mem_giveBack hy ▸ hx)⟩
  have hstart : advance [] off = [off] ++ [] := by
    rw [advance, Exchange.ends_of_request hoff]
    rfl
  refine ⟨⟨fun i hi => ?_, fun hcommit => ?_, fun _ _ => ?_⟩, ?_⟩
  · cases hoff.symm.trans hi
  · cases (Exchange.request?_of_commit hcommit).symm.trans hoff
  · obtain ⟨body, last, rfl, hbody, hlast⟩ := h.ending
    refine ⟨body, last, on, _, List.append_assoc .., hon, hbody, ?_⟩
    rcases hlast with hlast | ⟨hcommit, hkept | hopen⟩ | hlast
    · exact Or.inl hlast
    · exact Or.inr (Or.inl ⟨hcommit, Or.inl hkept⟩)
    · refine Or.inr (Or.inl ⟨hcommit, Or.inr ⟨x, [], ?_, hx⟩⟩)
      rw [giveBack, if_pos ((engaged_switched hoff hon _).trans hopen)]
      rfl
    · exact Or.inr (Or.inr hlast)
  · rw [hstart]
    exact (h.orderly.prepend (Exchange.blank_of_request hoff rfl rfl)).append (orderly_of_closes hclosing)

/-- A migration on a connection that is taken back afterwards. -/
theorem Bracket.settled {o : Except Error (Option Applied)} {x : Exchange}
    (h : Bracket d (Scripted d m now) o t) (hx : x.event = .rollback) (haccepted : x.accepted = true) :
    Settled d m now o (t ++ giveBack d t x) := by
  have hended : engaged d (t ++ giveBack d t x) = false := engaged_giveBack hx t
  have hback : ∀ y ∈ giveBack d t x, y.Closes := fun y hy => Or.inl (mem_giveBack hy ▸ hx)
  have hgranted : ∀ y ∈ giveBack d t x, y.accepted = true := fun y hy => mem_giveBack hy ▸ haccepted
  have hoff : ∀ {off : Exchange}, off.request? = some (.foreignKeys false) → off.accepted = true →
      ∀ y ∈ [off], y.accepted = true ∧ y.ends = false := fun hrequest hgranted =>
    List.forall_mem_singleton.2 ⟨hgranted, Exchange.ends_of_request hrequest⟩
  have hway : ∀ {on : Exchange}, on.request? = some (.foreignKeys true) →
      ∀ y ∈ [on] ++ giveBack d t x, y.Closes := fun hon =>
    List.forall_mem_append.2 ⟨List.forall_mem_singleton.2 (Or.inr (Or.inr hon)), hback⟩
  cases h with
  | @refused off e sqlite request refused =>
    refine ⟨⟨⟨fun i hi => ?_, fun hcommit => ?_, fun _ hon => ?_⟩, orderly_of_closes hback⟩, ?_,
      hended, nofun⟩
    · cases request.symm.trans hi
    · cases (Exchange.request?_of_commit hcommit).symm.trans request
    · cases refused.symm.trans hon
    · exact stops_of_refusal [] (List.forall_mem_nil _) refused hback hended rfl
        fun _ => blamed_of_request request nofun nofun
  | @restored off on o t sqlite switchedOff accepted block switchedOn accepted' =>
    subst sqlite
    rw [List.cons_append, List.append_assoc] at hended ⊢
    refine ⟨orderly_switched switchedOff block switchedOn hx, ?_, hended, fun a ha => ?_⟩
    · exact stops_bracketed [off] [on] block (hoff switchedOff accepted)
        (Exchange.blank_of_request switchedOff rfl rfl) (hway switchedOn) hended (Or.inl
          ⟨List.forall_mem_append.2 ⟨List.forall_mem_singleton.2 accepted', hgranted⟩, rfl⟩)
    · subst ha
      obtain ⟨hall, hsince⟩ := block.of_ok
      obtain ⟨r, hr, heq⟩ := Exchange.exists_since_append (Exchange.blank_of_request switchedOff rfl rfl) [] t
      refine ⟨List.forall_mem_cons.2 ⟨accepted, List.forall_mem_append.2 ⟨hall,
        List.forall_mem_append.2 ⟨List.forall_mem_singleton.2 accepted', hgranted⟩⟩⟩, ?_⟩
      have hstart : since (off :: t) = r := by
        rw [since, List.foldl_cons, advance, Exchange.ends_of_request switchedOff]
        exact heq.trans ((congrArg (r ++ ·) hsince).trans (List.append_nil r))
      rw [← List.cons_append, since_append, hstart]
      exact blank_of_closes hr (hway switchedOn)
  | @unrestored off on o t e sqlite switchedOff accepted block switchedOn refused =>
    subst sqlite
    rw [List.cons_append, List.append_assoc] at hended ⊢
    refine ⟨orderly_switched switchedOff block switchedOn hx, ?_, hended, nofun⟩
    exact stops_bracketed [off] [on] block (hoff switchedOff accepted)
      (Exchange.blank_of_request switchedOff rfl rfl) (hway switchedOn) hended
        (Or.inr ⟨on, e, rfl, switchedOn, refused, rfl⟩)
  | plain postgresql block =>
    refine ⟨block.orderly.append (orderly_of_closes hback), ?_, hended, fun a ha => ?_⟩
    · exact stops_bracketed [] [] block (List.forall_mem_nil _) Exchange.blank_nil
        hback hended (Or.inl ⟨hgranted, rfl⟩)
    · subst ha
      obtain ⟨hall, hsince⟩ := block.of_ok
      refine ⟨List.forall_mem_append.2 ⟨hall, hgranted⟩, ?_⟩
      rw [since_append, hsince]
      exact blank_of_closes Exchange.blank_nil hback

end Session

end SchemaLedger
