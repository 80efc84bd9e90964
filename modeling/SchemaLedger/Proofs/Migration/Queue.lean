import SchemaLedger.Proofs.Migration.Recorded
import SchemaLedger.Proofs.Migration.Supplied
import SchemaLedger.Proofs.Sql.Ddl

set_option autoImplicit false

/-!
# What is left to do

The batches that a source still has for a database, in order. They do not depend on when and by whom
the source is asked, apart from the names of derived batches; and when the first of them was recorded,
whoever did it, the others are left.
-/
namespace SchemaLedger

variable {d : Dialect} {records : List Applied} {c desired : Schema} {b : Batch} {r : Applied}
  {list front todo rest : List Batch} {label label' : String} {now now' : Timestamp}

namespace Batch

/-- The batches can be rendered one after the other, each on the schema that the records of those
before it lead to. -/
def Runnable (d : Dialect) : Schema → List Batch → Prop
  | _, [] => True
  | c, b :: rest => (b.render d c).isOk = true ∧
      ∀ next, Step.applyAll c (b.steps.map Step.recorded) = .ok next →
        Runnable d (next.withVersion b.version) rest

theorem exists_renderSteps (h : (b.render d c).isOk = true) :
    ∃ end', b.steps.foldlM (renderStep d) (c, []) = .ok end' := by
  obtain ⟨sqls, hsqls⟩ := Outcome.exists_ok h
  obtain ⟨end', hend, -⟩ := (Outcome.map_eq_ok _ _ _).1 hsqls
  exact ⟨end', hend⟩

end Batch

/-- Whether a record is that of a batch. The name of a derived batch tells when it was derived. -/
structure Source.Records (source : Source) (r : Applied) (b : Batch) : Prop where
  version : r.version = b.version
  steps : r.steps = b.steps
  name : ∀ list, source = .batches list → r.name = b.name

/-- The batches that a source has left after a history, whoever asks for them, and whenever. Each of
them can be rendered in its turn. -/
def Source.Due (source : Source) (d : Dialect) : List Batch → List Applied → Prop
  | [], records => ∀ label now, Migrator.pending ⟨source, label⟩ now records = .ok []
  | b :: rest, records =>
    (∃ c, Applied.schemaAt records = .ok c ∧ (b.render d c).isOk = true) ∧
    (∀ label now, ∃ b' others,
      Migrator.pending ⟨source, label⟩ now records = .ok (b' :: others) ∧
        source.Records ⟨b'.version, b'.name, b'.steps, now⟩ b) ∧
    ∀ r, source.Records r b → source.Due d rest (records ++ [r.recorded])

/-- The defaults of a desired schema are documents without infinities. -/
def Source.Finite : Source → Prop
  | .desired schema => ∀ n f, schema.Declares (.field n f) →
      Json.isFiniteDocument f.default = true ∧ f.default.wellFormed = true
  | .batches _ => True

namespace Migrator

/-- A record of a batch is read back and replayed after the others. -/
theorem replay_record (hc : c.Sound) (hreplay : Applied.schemaAt records = .ok c)
    (hsteps : ∀ p ∈ b.steps, p.Sound) (hrender : (b.render d c).isOk = true)
    (hversion : r.version = b.version) (hr : r.steps = b.steps) :
    ∃ next, Step.applyAll c (b.steps.map Step.recorded) = .ok next ∧ next.Sound ∧
      Applied.schemaAt (records ++ [r.recorded]) = .ok (next.withVersion b.version) := by
  obtain ⟨end', hend⟩ := Batch.exists_renderSteps hrender
  obtain ⟨next, hnext, -⟩ :=
    Step.exists_applyAll_recorded hc hsteps (Batch.applyAll_of_renderSteps hend)
  have hrecorded : r.recorded.steps = b.steps.map Step.recorded := congrArg _ hr
  refine ⟨next, hnext, Step.sound_applyAll_recorded hc hsteps hnext, ?_⟩
  rw [← hversion]
  exact Applied.schemaAt_append hreplay (by rw [hrecorded, hnext])

/-! ## Supplied lists -/

/-- After the first batches of a list the others are pending. -/
theorem pending_rest (htitles : records.map Applied.title = front.map Batch.title) (label : String)
    (now : Timestamp) : pending ⟨.batches (front ++ rest), label⟩ now records = .ok rest := by
  have hlength := congrArg List.length htitles
  rw [List.length_map, List.length_map] at hlength
  refine pending_supplied_eq_ok.2 ⟨?_, ?_⟩
  · rw [htitles, List.map_append]
    exact List.prefix_append _ _
  · rw [hlength, List.drop_left]

theorem due_rest (hc : c.Sound) (hreplay : Applied.schemaAt records = .ok c)
    (htitles : records.map Applied.title = front.map Batch.title)
    (hsound : ∀ b ∈ rest, ∀ p ∈ b.steps, p.Sound) (hrunnable : Batch.Runnable d c rest) :
    (Source.batches (front ++ rest)).Due d rest records := by
  induction rest generalizing front records c with
  | nil => exact pending_rest htitles
  | cons b rest ih =>
    obtain ⟨hrender, hrest⟩ := hrunnable
    obtain ⟨hb, hothers⟩ := List.forall_mem_cons.1 hsound
    refine ⟨⟨c, hreplay, hrender⟩, fun label now =>
      ⟨b, rest, pending_rest htitles label now, rfl, rfl, fun _ _ => rfl⟩, fun r hr => ?_⟩
    obtain ⟨next, hnext, hnextSound, hlast⟩ :=
      replay_record hc hreplay hb hrender hr.version hr.steps
    have htitle : r.recorded.title = b.title := Prod.ext hr.version (hr.name _ rfl)
    rw [List.append_cons]
    refine ih (hnextSound.withVersion _) hlast ?_ hothers (hrest next hnext)
    rw [List.map_append, List.map_append, htitles, List.map_singleton, List.map_singleton, htitle]

/-- What is left of a supplied list is what is pending. -/
theorem due_supplied (hc : c.Sound) (hreplay : Applied.schemaAt records = .ok c)
    (hsound : ∀ b ∈ list, ∀ p ∈ b.steps, p.Sound)
    (hpending : pending ⟨.batches list, label⟩ now records = .ok todo)
    (hrunnable : Batch.Runnable d c todo) : (Source.batches list).Due d todo records := by
  obtain ⟨hbegins, rfl⟩ := pending_supplied_eq_ok.1 hpending
  have htitles := List.prefix_iff_eq_take.1 hbegins
  rw [List.length_map, ← List.map_take] at htitles
  have hdue := due_rest hc hreplay htitles
    (fun b hb => hsound b (List.mem_of_mem_drop hb)) hrunnable
  rwa [List.take_append_drop] at hdue

/-! ## Desired schemas -/

/-- Asked again, a migrator for a desired schema derives the same batch under another name. -/
theorem pending_again (hreplay : Applied.schemaAt records = .ok c)
    (h : pending ⟨.desired desired, label⟩ now records = .ok (b :: rest)) (label' : String)
    (now' : Timestamp) : pending ⟨.desired desired, label'⟩ now' records =
      .ok [⟨b.version, Batch.nameAt now' label', b.steps⟩] := by
  rw [pending_desired hreplay, Outcome.map_eq_ok] at h ⊢
  obtain ⟨batch, hbatch, hcons⟩ := h
  obtain ⟨steps, hsteps, ⟨-, rfl⟩ | ⟨hne, hversion, rfl⟩⟩ := between_eq_ok.1 hbatch
  · cases hcons
  · cases hcons
    exact ⟨_, between_eq_ok.2 ⟨steps, hsteps, Or.inr ⟨hne, hversion, rfl⟩⟩, rfl⟩

/-- Nothing is left for a desired schema after one batch, if its defaults are finite. -/
theorem due_desired (hc : c.Sound) (hreplay : Applied.schemaAt records = .ok c)
    (hd : desired.Sound) (hfinite : (Source.desired desired).Finite)
    (hpending : pending ⟨.desired desired, label⟩ now records = .ok todo)
    (hrunnable : Batch.Runnable d c todo) : (Source.desired desired).Due d todo records := by
  cases todo with
  | nil =>
    intro label' now'
    exact (pending_eq_nil hreplay).2 ((pending_eq_nil hreplay).1 hpending)
  | cons b rest =>
    obtain ⟨rfl, -, hdiff⟩ := pending_eq_cons hreplay hpending
    refine ⟨⟨c, hreplay, hrunnable.1⟩, fun label' now' =>
      ⟨_, [], pending_again hreplay hpending label' now', rfl, rfl, fun _ h => by cases h⟩, ?_⟩
    intro r hr label' now'
    obtain ⟨end', hend⟩ := Batch.exists_renderSteps hrunnable.1
    obtain ⟨next, left, hnext, -, hleft, hempty, -⟩ :=
      Diff.diff_after_record hc hd hdiff (Batch.applyAll_of_renderSteps hend)
    obtain ⟨next', hnext', -, hlast⟩ := replay_record hc hreplay (Diff.sound_of_diff hc hd hdiff)
      hrunnable.1 hr.version hr.steps
    obtain rfl := Except.ok.inj (hnext.symm.trans hnext')
    rw [hempty.2 (Diff.survives_of_finite hfinite)] at hleft
    exact (pending_eq_nil hlast).2 hleft

end Migrator

end SchemaLedger
