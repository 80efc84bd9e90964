import SchemaLedger.Proofs.Session.Exchange
import SchemaLedger.Session.Migration

set_option autoImplicit false

/-!
# What a migrator says

The part of a transaction between its beginning and its end: a look at the history, then the
statements of the first pending batch in the order of its steps, the search for dangling references,
and the row that records the batch.
-/
namespace SchemaLedger

namespace Request

/-- Whether a request is made before the history is known: the locks, and what is about the history
table itself. -/
def looks : Request → Bool
  | .lock _ | .historyColumns _ | .historyTable | .createHistory | .select _ => true
  | _ => false

def isSelect : Request → Bool
  | .select _ => true
  | _ => false

/-- Whether a request writes what a batch brings: its statements or its record. -/
def writes : Request → Bool
  | .ddl _ | .insert _ => true
  | _ => false

/-- Whether a request belongs to the inside of a transaction. -/
def inner : Request → Bool
  | .foreignKeys _ | .journal | .begin _ => false
  | _ => true

end Request

namespace Exchange

def Looks (x : Exchange) : Prop := ∃ r, x.request? = some r ∧ r.looks = true

def Inner (x : Exchange) : Prop := ∃ r, x.request? = some r ∧ r.inner = true

/-- A statement of a step. -/
def IsStep (x : Exchange) : Prop := ∃ sql, x.request? = some (.ddl sql)

/-- The rows that a query was answered with. -/
def rows (x : Exchange) : List (List Value) :=
  match x.request?, x.reply with
  | some (.select _), .ok reply => reply.rows
  | _, _ => []

/-- What was written, and whether it was accepted. -/
def write? (x : Exchange) : Option (Request × Bool) :=
  (x.request?.filter (·.writes)).map (·, x.accepted)

def rowsOf (t : List Exchange) : List (List Value) := t.flatMap rows

def writesOf (t : List Exchange) : List (Request × Bool) := t.filterMap write?

theorem rowsOf_append (t t' : List Exchange) : rowsOf (t ++ t') = rowsOf t ++ rowsOf t' :=
  List.flatMap_append

theorem writesOf_append (t t' : List Exchange) : writesOf (t ++ t') = writesOf t ++ writesOf t' :=
  List.filterMap_append

theorem rows_eq_nil {x : Exchange} {r : Request} (h : x.request? = some r)
    (hr : r.isSelect = false) : x.rows = [] := by
  unfold rows
  rw [h]
  split
  case h_1 q reply heq hreply =>
    cases heq
    cases hr
  case h_2 => rfl

theorem rowsOf_eq_nil {t : List Exchange} (h : ∀ x ∈ t, x.rows = []) : rowsOf t = [] :=
  List.flatMap_eq_nil_iff.2 h

theorem write?_eq_none {x : Exchange} {r : Request} (h : x.request? = some r)
    (hr : r.writes = false) : x.write? = none := by
  simp [write?, h, Option.filter, hr]

theorem write?_of_writes {x : Exchange} {r : Request} (h : x.request? = some r)
    (hr : r.writes = true) : x.write? = some (r, x.accepted) := by
  simp [write?, h, Option.filter, hr]

theorem Looks.inner {x : Exchange} (h : x.Looks) : x.Inner := by
  obtain ⟨r, hr, hlooks⟩ := h
  refine ⟨r, hr, ?_⟩
  cases r <;> first | rfl | cases hlooks

theorem Looks.write? {x : Exchange} (h : x.Looks) : x.write? = none := by
  obtain ⟨r, hr, hlooks⟩ := h
  refine write?_eq_none hr ?_
  cases r <;> first | rfl | cases hlooks

theorem writesOf_looks {t : List Exchange} (h : ∀ x ∈ t, x.Looks) : writesOf t = [] :=
  List.filterMap_eq_nil_iff.2 fun x hx => (h x hx).write?

end Exchange

/-- The statements of a batch, all of them accepted. -/
def statements (sqls : List String) : List (Request × Bool) := sqls.map fun sql => (.ddl sql, true)

theorem statements_append (a b : List String) : statements (a ++ b) = statements a ++ statements b :=
  List.map_append

open Exchange (rowsOf writesOf rowsOf_append writesOf_append)

/-! ## Parts of a batch -/

namespace Batch

/-- The row for a batch that is applied at a time. -/
def insertion (b : Batch) (now : Timestamp) : Request :=
  .insert (HistoryTable.insert ⟨b.version, b.name, b.steps, now⟩)

/-- The batch is the first that a migrator has to apply after the rows of the history, which lead to
the schema. -/
def Chosen (d : Dialect) (m : Migrator) (now : Timestamp) (rows : List (List Value))
    (b : Batch) (schema : Schema) : Prop :=
  ∃ records rest, rows.mapM (HistoryTable.decode d) = .ok records ∧
    m.pending now records = .ok (b :: rest) ∧ Applied.schemaAt records = .ok schema

/-- The statements are those of all steps of the batch. -/
def Rendered (d : Dialect) (m : Migrator) (now : Timestamp) (rows : List (List Value))
    (b : Batch) (sqls : List String) : Prop :=
  ∃ schema, Chosen d m now rows b schema ∧ b.render d schema = .ok sqls

/-- A step that stopped at one of its statements. -/
structure Halt (d : Dialect) (schema : Schema) (steps : List Step) where
  before : List Step
  step : Step
  after : List Step
  steps_eq : steps = before ++ step :: after
  /-- Where the step starts, and the statements until there. -/
  state : Schema
  done : List String
  ran : ∀ sqls, before.foldlM (renderStep d) (schema, sqls) = .ok (state, sqls ++ done)
  front : List String
  sql : String
  back : List String
  rendered : Sql.Ddl.render d state step = .ok (front ++ sql :: back)

theorem renderStep_eq {d : Dialect} {schema after : Schema} {step : Step} {sqls : List String}
    (hrender : Sql.Ddl.render d schema step = .ok sqls)
    (happly : liftSchema (step.apply schema) = .ok after) (done : List String) :
    renderStep d (schema, done) step = .ok (after, done ++ sqls) := by
  rw [renderStep, hrender]
  dsimp only [bind, Except.bind]
  rw [happly]

/-- A later step that stops is one of the whole list. -/
def Halt.cons {d : Dialect} {schema after : Schema} {step : Step} {steps : List Step}
    {sqls : List String} (hrender : Sql.Ddl.render d schema step = .ok sqls)
    (happly : liftSchema (step.apply schema) = .ok after) (h : Halt d after steps) :
    Halt d schema (step :: steps) where
  before := step :: h.before
  step := h.step
  after := h.after
  steps_eq := congrArg (step :: ·) h.steps_eq
  state := h.state
  done := sqls ++ h.done
  ran done := by
    rw [List.foldlM_cons, renderStep_eq hrender happly, ← List.append_assoc]
    exact h.ran (done ++ sqls)
  front := h.front
  sql := h.sql
  back := h.back
  rendered := h.rendered

end Batch

namespace Session

variable {σ : Type} {s : Setting σ} {c : Nat} {t : List Exchange}

/-! ## The history -/

/-- Statements of one step: all of them were accepted, or one was refused. -/
inductive Sent (sqls : List String) : Ending PUnit → List Exchange → Prop
  | all {t : List Exchange} (writes : writesOf t = statements sqls) : Sent sqls (.value ⟨⟩) t
  | halted {t : List Exchange} {x : Exchange} (fault : BackendFault) (front : List String)
      (sql : String) (back : List String) (split : sqls = front ++ sql :: back)
      (writes : writesOf t = statements front) (request : x.request? = some (.ddl sql)) :
      Sent sqls (.stop true (.backend fault)) (t ++ [x])

theorem Sent.append {sqls sqls' : List String} {e : Ending PUnit} {t' : List Exchange}
    (h : writesOf t = statements sqls) (h' : Sent sqls' e t') : Sent (sqls ++ sqls') e (t ++ t') := by
  cases h' with
  | all writes => exact .all (by rw [writesOf_append, statements_append, h, writes])
  | halted fault front sql back split writes request =>
    rw [← List.append_assoc]
    refine .halted fault (sqls ++ front) sql back ?_ ?_ request
    · rw [split, List.append_assoc]
    · rw [writesOf_append, statements_append, h, writes]

/-- SQLite finds no dangling reference; PostgreSQL is not asked. -/
def Checks (d : Dialect) (t : List Exchange) : Prop :=
  match d with
  | .sqlite => ∃ x, t = [x] ∧ x.request? = some .integrity ∧ x.accepted = true
  | .postgresql => t = []

/-- A batch: its statements, the search for dangling references and its record, up to the first that
was refused. -/
inductive Applying (d : Dialect) (now : Timestamp) (schema : Schema) (b : Batch) :
    Ending Applied → List Exchange → Prop
  | broken {t : List Exchange} (e : Error) (steps : ∀ x ∈ t, x.IsStep) :
      Applying d now schema b (.stop false e) t
  | halted {t : List Exchange} {x : Exchange} (fault : BackendFault)
      (h : Batch.Halt d schema b.steps) (steps : ∀ x ∈ t, x.IsStep)
      (writes : writesOf t = statements (h.done ++ h.front))
      (request : x.request? = some (.ddl h.sql)) :
      Applying d now schema b
        (.stop true (.apply b.version h.before.length (.backend fault))) (t ++ [x])
  | dangling {t : List Exchange} {x : Exchange} (fault : BackendFault) (sqls : List String)
      (steps : ∀ x ∈ t, x.IsStep) (rendered : b.render d schema = .ok sqls)
      (writes : writesOf t = statements sqls) (request : x.request? = some .integrity) :
      Applying d now schema b
        (.stop true (.apply b.version b.steps.length (.backend fault))) (t ++ [x])
  | unsent {t check : List Exchange} (e : Error) (steps : ∀ x ∈ t, x.IsStep)
      (checks : Checks d check) : Applying d now schema b (.stop false e) (t ++ check)
  | sent {t check : List Exchange} {x : Exchange} {e : Ending Applied} (sqls : List String)
      (steps : ∀ x ∈ t, x.IsStep) (rendered : b.render d schema = .ok sqls)
      (writes : writesOf t = statements sqls) (checks : Checks d check)
      (request : x.request? = some (b.insertion now))
      (ends : e = .value ⟨b.version, b.name, b.steps, now⟩ ∧ x.accepted = true ∨
        ∃ e', e = .stop true e') : Applying d now schema b e (t ++ check ++ [x])

/-- A look at the history, and the first pending batch if there is one. -/
inductive Script (d : Dialect) (m : Migrator) (now : Timestamp) :
    Ending (Option Applied) → List Exchange → Prop
  | idle {t : List Exchange} (looks : ∀ x ∈ t, x.Looks) : Script d m now (.value none) t
  | stopped {t : List Exchange} (refused : Bool) (e : Error) (looks : ∀ x ∈ t, x.Looks) :
      Script d m now (.stop refused e) t
  | batch {t t' : List Exchange} {e : Ending Applied} (b : Batch) (schema : Schema)
      (looks : ∀ x ∈ t, x.Looks) (chosen : Batch.Chosen d m now (rowsOf t) b schema)
      (applying : Applying d now schema b e t') : Script d m now (e.map some) (t ++ t')

end Session

end SchemaLedger
