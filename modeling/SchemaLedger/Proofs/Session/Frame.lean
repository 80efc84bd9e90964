import SchemaLedger.Proofs.Session.Run
import SchemaLedger.Session.Migration

set_option autoImplicit false

/-!
# What operations leave alone

A frame is a relation between the worlds before and after an operation that is kept by doing nothing
and by doing two things in a row. An operation keeps a frame if all that it sends does.
-/
namespace SchemaLedger

/-- Whether a request only looks at the database, or prepares the connection for others. -/
def Request.passive : Request → Bool
  | .foreignKeys _ | .journal | .begin _ | .lock _ | .historyColumns _ | .historyTable | .integrity
  | .probe | .select _ => true
  | .createHistory | .ddl _ | .text _ | .insert _ | .update _ | .delete _ => false

/-- Whether a request prepares a connection or a transaction for others. -/
def Request.preparatory : Request → Bool
  | .foreignKeys _ | .journal | .begin _ | .lock _ => true
  | _ => false

theorem Request.passive_of_preparatory {r : Request} (h : r.preparatory = true) :
    r.passive = true := by
  cases r <;> first | rfl | cases h

/-- The text is that of a statement of some step. -/
def Sql.Ddl.Renders (d : Dialect) (sql : String) : Prop :=
  ∃ before step sqls, Sql.Ddl.render d before step = .ok sqls ∧ sql ∈ sqls

/-- Not a caller's own text, nor a statement that no step has. -/
def Request.Regular (d : Dialect) : Request → Prop
  | .ddl sql => Sql.Ddl.Renders d sql
  | .text _ => False
  | _ => True

theorem Request.regular_of_passive {d : Dialect} {r : Request} (h : r.passive = true) :
    r.Regular d := by
  cases r with
  | ddl sql => cases h
  | text sql => cases h
  | _ => trivial

namespace Session

/-- A relation between worlds that lasts over the parts of an operation. -/
structure Frame (σ : Type) where
  rel : World σ → World σ → Prop
  refl : ∀ w, rel w w
  trans : ∀ {u v w}, rel u v → rel v w → rel u w

namespace Frame

variable {σ α β : Type} {s : Setting σ} {R : Frame σ} {c : Nat}

/-- Every run of the operation, whether or not it succeeds, is in the relation. -/
def Keeps (R : Frame σ) (s : Setting σ) (x : Session σ α) : Prop :=
  ∀ w, R.rel w (run x s w).2

theorem keeps_of_still {x : Session σ α} (h : ∀ w, (run x s w).2 = w) : R.Keeps s x := by
  intro w
  rw [h w]
  exact R.refl w

theorem keeps_pure (a : α) : R.Keeps s (pure a) := keeps_of_still fun _ => rfl

theorem keeps_throw (e : Error) : R.Keeps s (throw e : Session σ α) := keeps_of_still fun _ => rfl

theorem keeps_ofResult (r : Result α) : R.Keeps s (ofResult r) :=
  keeps_of_still fun w => by rw [run_ofResult]

theorem keeps_bindResult {r : Result α} {f : α → Session σ β}
    (h : ∀ a, r = .ok a → R.Keeps s (f a)) : R.Keeps s (ofResult r >>= f) := by
  intro w
  rw [run_bind, run_ofResult]
  cases r with
  | error e => exact R.refl w
  | ok a => exact h a rfl w

theorem keeps_bind {x : Session σ α} {f : α → Session σ β} (hx : R.Keeps s x)
    (hf : ∀ a, R.Keeps s (f a)) : R.Keeps s (x >>= f) := by
  intro w
  have hw := hx w
  rw [run_bind]
  rcases hrun : run x s w with ⟨e | a, v⟩ <;> rw [hrun] at hw
  · exact hw
  · exact R.trans hw (hf a v)

/-- What an operation does with the dialect, it does with that of the session. -/
theorem keeps_dialect {f : Dialect → Session σ α} (h : R.Keeps s (f s.config.dialect)) :
    R.Keeps s (dialect >>= f) := by
  intro w
  rw [run_bind_of_ok run_dialect]
  exact h w

theorem keeps_discard {x : Session σ α} (hx : R.Keeps s x) : R.Keeps s (discard x) := by
  intro w
  rw [run_discard]
  exact hx w

theorem keeps_tryCatch {x : Session σ α} {f : Error → Session σ α} (hx : R.Keeps s x)
    (hf : ∀ e, R.Keeps s (f e)) : R.Keeps s (tryCatch x f) := by
  intro w
  have hw := hx w
  rw [run_tryCatch]
  rcases hrun : run x s w with ⟨e | a, v⟩ <;> rw [hrun] at hw
  · exact R.trans hw (hf e v)
  · exact hw

theorem keeps_attempt {x : Session σ α} (hx : R.Keeps s x) : R.Keeps s (attempt x) := by
  intro w
  rw [run_attempt]
  exact hx w

theorem keeps_ensuring {x : Session σ α} {last : Session σ Unit} (hlast : R.Keeps s last)
    (hx : R.Keeps s x) : R.Keeps s (ensuring last x) :=
  keeps_bind (keeps_attempt hx) fun _ => keeps_bind hlast fun _ => keeps_ofResult _

theorem keeps_classifying {x : Session σ α} (statement : Option String) (hx : R.Keeps s x) :
    R.Keeps s (classifying statement x) := by
  intro w
  rw [run_classifying]
  exact hx w

theorem keeps_failing {x : Session σ α} (version : Int) (step : Nat) (hx : R.Keeps s x) :
    R.Keeps s (failing version step x) :=
  keeps_tryCatch hx fun _ => keeps_throw _

theorem keeps_forM {f : α → Session σ PUnit} {xs : List α} (h : ∀ x ∈ xs, R.Keeps s (f x)) :
    R.Keeps s (xs.forM f) := by
  induction xs with
  | nil => exact keeps_pure _
  | cons x rest ih =>
    exact keeps_bind (h x List.mem_cons_self) fun _ =>
      ih fun y hy => h y (List.mem_cons_of_mem x hy)

theorem keeps_mapM {f : α → Session σ β} (h : ∀ x, R.Keeps s (f x)) (xs : List α) :
    R.Keeps s (xs.mapM f) := by
  induction xs with
  | nil => exact keeps_pure _
  | cons x rest ih =>
    rw [List.mapM_cons]
    exact keeps_bind (h x) fun _ => keeps_bind ih fun _ => keeps_pure _

theorem keeps_execute {r : Request} (h : R.Keeps s (send c r)) : R.Keeps s (execute c r) :=
  keeps_dialect (keeps_classifying _ h)

theorem keeps_pending (m : Migrator) (records : List Applied) :
    R.Keeps s (pending m records : Session σ _) :=
  keeps_of_still fun w => by
    rw [pending, run_bind_of_ok run_read, run_ofResult]

/-! ## Operations that only look -/

section Looking

variable (hlook : ∀ r : Request, r.passive = true → R.Keeps s (send c r))

include hlook

theorem keeps_hasHistory : R.Keeps s (hasHistory c) := by
  refine keeps_dialect ?_
  cases s.config.dialect with
  | sqlite =>
    refine keeps_bind (keeps_execute (hlook _ rfl)) fun main => ?_
    split
    · exact keeps_bind (keeps_execute (hlook _ rfl)) fun temp => keeps_pure _
    · exact keeps_pure _
  | postgresql => exact keeps_bind (keeps_execute (hlook _ rfl)) fun found => keeps_pure _

theorem keeps_readHistory : R.Keeps s (readHistory c) := by
  refine keeps_bind (keeps_hasHistory hlook) fun found => ?_
  split
  · exact keeps_dialect (keeps_bind (keeps_execute (hlook _ rfl)) fun _ => keeps_ofResult _)
  · exact keeps_pure _

theorem keeps_createHistory (hnew : R.Keeps s (send c .createHistory)) :
    R.Keeps s (createHistory c) := by
  refine keeps_bind (keeps_hasHistory hlook) fun found => ?_
  split
  · exact keeps_discard (keeps_execute hnew)
  · exact keeps_pure _

theorem keeps_statusOn (m : Migrator) : R.Keeps s (statusOn m c) :=
  keeps_bind (keeps_hasHistory hlook) fun _ =>
    keeps_bind (keeps_readHistory hlook) fun records =>
      keeps_bind (keeps_pending m records) fun _ => keeps_pure _

theorem keeps_checkIntegrity : R.Keeps s (checkIntegrity c) := by
  refine keeps_dialect ?_
  cases s.config.dialect with
  | sqlite =>
    refine keeps_bind (keeps_execute (hlook _ rfl)) fun reply => ?_
    split
    · exact keeps_throw _
    · exact keeps_pure _
  | postgresql => exact keeps_pure _

end Looking

theorem keeps_runSteps
    (h : ∀ sql, Sql.Ddl.Renders s.config.dialect sql → R.Keeps s (send c (.ddl sql))) (version : Int) :
    ∀ (n : Nat) (schema : Schema) (steps : List Step),
      R.Keeps s (runSteps c version n schema steps)
  | _, _, [] => keeps_pure _
  | n, schema, step :: rest => by
    refine keeps_bind (keeps_failing _ _ ?_) fun after => keeps_runSteps h version (n + 1) after rest
    refine keeps_bind (keeps_dialect (keeps_bindResult fun statements hrender => ?_)) fun _ =>
      keeps_ofResult _
    exact keeps_bind (keeps_forM fun sql hsql =>
      keeps_discard (keeps_execute (h sql ⟨schema, step, statements, hrender, hsql⟩))) fun _ =>
        keeps_pure _

section Applying

variable (hsend : ∀ r : Request, r.Regular s.config.dialect → R.Keeps s (send c r))

include hsend

theorem keeps_applyBatch (schema : Schema) (b : Batch) : R.Keeps s (applyBatch c schema b) := by
  refine keeps_bind (keeps_runSteps (fun sql hsql => hsend _ hsql) b.version 0 schema b.steps) fun _ => ?_
  refine keeps_bind (keeps_failing _ _ (keeps_checkIntegrity fun r hr =>
    hsend r (Request.regular_of_passive hr))) fun _ => ?_
  refine keeps_bind (keeps_of_still fun _ => rfl) fun setting => ?_
  exact keeps_bind (keeps_execute (hsend _ trivial)) fun _ => keeps_pure _

/-- The application of a batch keeps what everything that is sent keeps. -/
theorem keeps_applyNext (m : Migrator) : R.Keeps s (applyNext m c) := by
  have hlook : ∀ r : Request, r.passive = true → R.Keeps s (send c r) :=
    fun r hr => hsend r (Request.regular_of_passive hr)
  refine keeps_bind (keeps_createHistory hlook (hsend _ trivial)) fun _ => ?_
  refine keeps_bind (keeps_readHistory hlook) fun records => ?_
  refine keeps_bind (keeps_pending m records) fun batches => ?_
  cases batches with
  | nil => exact keeps_pure _
  | cons b rest =>
    refine keeps_bind (keeps_ofResult _) fun schema => ?_
    exact keeps_bind (keeps_applyBatch hsend schema b) fun _ => keeps_pure _

end Applying

end Frame

end Session

end SchemaLedger
