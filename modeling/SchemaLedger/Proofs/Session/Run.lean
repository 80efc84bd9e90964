import SchemaLedger.Proofs.Outcome
import SchemaLedger.Session.Basic

set_option autoImplicit false

/-!
# Runs of sessions

What a run of an operation gives, by the parts that the operation is put together of, and what every
run of an operation leaves as it was.
-/
namespace SchemaLedger.Session

variable {σ α β : Type} {s : Setting σ} {w w' : World σ}

/-! ## Parts -/

@[simp]
theorem run_pure (a : α) : run (pure a) s w = (.ok a, w) := rfl

@[simp]
theorem run_throw (e : Error) : run (throw e : Session σ α) s w = (.error e, w) := rfl

@[simp]
theorem run_read : run (read : Session σ (Setting σ)) s w = (.ok s, w) := rfl

@[simp]
theorem run_get : run (get : Session σ (World σ)) s w = (.ok w, w) := rfl

@[simp]
theorem run_set (v : World σ) : run (set v : Session σ PUnit) s w = (.ok ⟨⟩, v) := rfl

@[simp]
theorem run_modify (f : World σ → World σ) :
    run (modify f : Session σ PUnit) s w = (.ok ⟨⟩, f w) := rfl

@[simp]
theorem run_ask (f : σ → Except DriverError α × σ) :
    run (ask f : Session σ _) s w =
      (.ok (f w.server).1, { w with server := (f w.server).2 }) := rfl

@[simp]
theorem run_ofResult (r : Result α) : run (ofResult r : Session σ α) s w = (r, w) := by
  cases r <;> rfl

@[simp]
theorem run_orDriver (x : Except DriverError α) :
    run (orDriver x : Session σ α) s w = (x.mapError .driver, w) := by
  cases x <;> rfl

@[simp]
theorem run_dialect : run (dialect : Session σ Dialect) s w = (.ok s.config.dialect, w) := rfl

@[simp]
theorem run_record (e : Event) :
    run (record e : Session σ Unit) s w = (.ok (), { w with log := w.log ++ [e] }) := rfl

@[simp]
theorem run_isBusy (c : ℕ) : run (isBusy c : Session σ Bool) s w =
    (.ok ((w.connections[c]?.map (·.busy)).getD false), w) := rfl

@[simp]
theorem run_setBusy (c : ℕ) (busy : Bool) : run (setBusy c busy : Session σ Unit) s w =
    (.ok (), { w with connections := w.connections.modify c fun x => { x with busy } }) := rfl

theorem run_bind (x : Session σ α) (f : α → Session σ β) : run (x >>= f) s w =
    match run x s w with
    | (.ok a, v) => run (f a) s v
    | (.error e, v) => (.error e, v) := by
  change StateT.run (ExceptT.run (x s >>= fun a => f a s)) w = _
  have hx : StateT.run (ExceptT.run (x s)) w = run x s w := rfl
  rw [ExceptT.run_bind, StateT.run_bind, hx]
  rcases run x s w with ⟨e | a, v⟩ <;> rfl

theorem run_tryCatch (x : Session σ α) (f : Error → Session σ α) : run (tryCatch x f) s w =
    match run x s w with
    | (.ok a, v) => (.ok a, v)
    | (.error e, v) => run (f e) s v := by
  change StateT.run (ExceptT.run (tryCatch (x s) fun e => f e s)) w = _
  have hx : StateT.run (ExceptT.run (x s)) w = run x s w := rfl
  rw [ExceptT.run_tryCatch, StateT.run_bind, hx]
  rcases run x s w with ⟨e | a, v⟩ <;> rfl

theorem run_map (g : α → β) (x : Session σ α) :
    run (g <$> x) s w = ((run x s w).1.map g, (run x s w).2) := by
  rw [map_eq_pure_bind, run_bind]
  rcases run x s w with ⟨e | a, v⟩ <;> rfl

theorem run_discard (x : Session σ α) :
    run (discard x) s w = ((run x s w).1.map fun _ => ⟨⟩, (run x s w).2) := by
  change run ((fun _ => PUnit.unit) <$> x) s w = _
  exact run_map _ x

theorem run_attempt (x : Session σ α) : run (attempt x) s w = (.ok (run x s w).1, (run x s w).2) := by
  rw [attempt, run_tryCatch, run_map]
  rcases run x s w with ⟨e | a, v⟩ <;> rfl

theorem run_ensuring (last : Session σ Unit) (x : Session σ α) : run (ensuring last x) s w =
    match run last s (run x s w).2 with
    | (.ok _, v) => ((run x s w).1, v)
    | (.error e, v) => (.error e, v) := by
  rw [ensuring, run_bind, run_attempt]
  dsimp only
  rw [run_bind]
  rcases run last s (run x s w).2 with ⟨e | ⟨⟩, v⟩
  · rfl
  · exact run_ofResult _

/-- The errors of the driver are named; nothing else changes. -/
theorem run_classifying (statement : Option String) (x : Session σ α) :
    run (classifying statement x) s w =
      ((run x s w).1.mapError fun
        | .driver e => .backend (.ofDriver s.config.dialect e statement)
        | e => e, (run x s w).2) := by
  rw [classifying, run_bind, run_dialect]
  dsimp only
  rw [run_tryCatch]
  rcases run x s w with ⟨e | a, v⟩
  · cases e <;> rfl
  · rfl

/-! ## Success -/

theorem run_bind_of_ok {x : Session σ α} {a : α} (h : run x s w = (.ok a, w'))
    (f : α → Session σ β) : run (x >>= f) s w = run (f a) s w' := by
  rw [run_bind, h]

theorem run_bind_eq_ok (x : Session σ α) (f : α → Session σ β) (b : β) :
    run (x >>= f) s w = (.ok b, w') ↔
      ∃ a v, run x s w = (.ok a, v) ∧ run (f a) s v = (.ok b, w') := by
  rw [run_bind]
  rcases run x s w with ⟨e | a, v⟩
  · simp
  · simp

theorem run_discard_eq_ok (x : Session σ α) :
    run (discard x) s w = (.ok ⟨⟩, w') ↔ ∃ a, run x s w = (.ok a, w') := by
  rw [run_discard]
  rcases run x s w with ⟨e | a, v⟩
  · simp [Except.map]
  · simp [Except.map]

theorem run_classifying_eq_ok (statement : Option String) (x : Session σ α) (a : α) :
    run (classifying statement x) s w = (.ok a, w') ↔ run x s w = (.ok a, w') := by
  rw [run_classifying]
  rcases run x s w with ⟨e | b, v⟩
  · simp [Except.mapError]
  · simp [Except.mapError]

theorem run_ensuring_eq_ok (last : Session σ Unit) (x : Session σ α) (a : α) :
    run (ensuring last x) s w = (.ok a, w') ↔
      (run x s w).1 = .ok a ∧ run last s (run x s w).2 = (.ok (), w') := by
  rw [run_ensuring]
  rcases run last s (run x s w).2 with ⟨e | ⟨⟩, v⟩
  · simp
  · simp

end SchemaLedger.Session
