import SchemaLedger.Proofs.Session.Application
import SchemaLedger.Proofs.Session.Notebook

set_option autoImplicit false

/-!
# Reaching a desired schema

A migrator for a desired schema applies a batch, and looks again. Whether it finds nothing then, and
whether its loop ends at all, depends on the defaults of the desired schema alone: each of them has to
survive being recorded, or be in place before.
-/
namespace SchemaLedger

open Diff (Survives)

variable {σ : Type} {s : Setting σ} {v w w' w₁ : World σ} {k : Archive s.server s.config.dialect}
  {records : List Applied} {c desired : Schema} {label : String} {r : Applied}

/-! ## Rows and records -/

/-- The last record has the greatest version of all rows. -/
theorem HistoryTable.le_version_last {d : Dialect} {rows : List (List Value)}
    (hordered : Ordered rows) (h : rows.mapM (decode d) = .ok records) :
    ∀ row ∈ rows, ∃ n, row.head? = some (.int n) ∧
      n ≤ (records.getLast?.map (·.version)).getD 0 := by
  induction rows generalizing records with
  | nil => nofun
  | cons row rest ih =>
    obtain ⟨r, others, hr, hothers, rfl⟩ := Outcome.mapM_cons_eq_ok.1 h
    obtain ⟨hbelow, hrest⟩ := List.pairwise_cons.1 hordered
    cases rest with
    | nil =>
      cases hothers
      intro x hx
      rw [List.mem_singleton.1 hx]
      exact ⟨r.version, (of_decode hr).1, le_refl _⟩
    | cons next rest =>
      obtain ⟨r', others', -, -, rfl⟩ := Outcome.mapM_cons_eq_ok.1 hothers
      rw [List.getLast?_cons_cons]
      intro x hx
      rcases List.mem_cons.1 hx with rfl | hx
      · obtain ⟨n, hn, m, hm, hlt⟩ := hbelow next List.mem_cons_self
        obtain ⟨n', hn', hle⟩ := ih hrest hothers next List.mem_cons_self
        rw [hn] at hn'
        cases hn'
        exact ⟨m, hm, hlt.le.trans hle⟩
      · exact ih hrest hothers x hx

namespace Archive

variable {server : Server σ} {d : Dialect} {st st' : σ}

theorem sound_of_records (k : Archive server d) (h : k.records st = .ok records) :
    ∀ r ∈ records, ∀ p ∈ r.steps, p.Sound := by
  unfold Archive.records at h
  split at h
  · cases h
    nofun
  · exact Outcome.forall_of_mapM (fun _ _ hr => (HistoryTable.of_decode hr).2) h

/-- All rows are below the version that follows that of the schema. -/
theorem below_next (k : Archive server d) (h : k.records st = .ok records)
    (hc : Applied.schemaAt records = .ok c) :
    ∀ row ∈ (k.rows st).getD [], HistoryTable.Below (c.version + 1) row := by
  rw [Applied.version_of_schemaAt hc]
  unfold Archive.records at h
  cases hrows : k.rows st with
  | none => nofun
  | some rows =>
    rw [hrows] at h
    intro row hrow
    obtain ⟨n, hn, hle⟩ := HistoryTable.le_version_last (k.ordered st rows hrows) h row hrow
    exact ⟨n, hn, Int.lt_add_one_of_le hle⟩

/-- The records after one was added. -/
theorem records_append (k : Archive server d) (h : k.records st = .ok records)
    (hsteps : ∀ p ∈ r.steps, p.Sound)
    (hrows : k.rows st' = some ((k.rows st).getD [] ++ [HistoryTable.cells d r])) :
    k.records st' = .ok (records ++ [r.recorded]) := by
  have hbefore : ((k.rows st).getD []).mapM (HistoryTable.decode d) = .ok records := by
    unfold Archive.records at h
    cases hst : k.rows st with
    | none =>
      rw [hst] at h
      exact h
    | some rows =>
      rw [hst] at h
      exact h
  unfold Archive.records
  rw [hrows]
  simp only [List.mapM_append, List.mapM_cons, List.mapM_nil, hbefore,
    HistoryTable.decode_cells hsteps]
  rfl

end Archive

/-! ## One round -/

/-- A database at rest with a history that can be replayed. -/
structure Archive.Stands (k : Archive s.server s.config.dialect) (w : World σ)
    (records : List Applied) (c : Schema) : Prop where
  rest : k.AtRest w
  history : k.records w.server = .ok records
  replay : Applied.schemaAt records = .ok c

theorem Archive.Stands.sound (h : k.Stands w records c) : c.Sound :=
  Applied.sound_of_schemaAt (k.sound_of_records h.history) h.replay

namespace Session

/-- A round that finds nothing to do leaves all records, and was not needed. -/
theorem stands_of_round_none (h : k.Stands w records c)
    (hrun : run (migrating (applyNext ⟨.desired desired, label⟩)) s w = (.ok none, w')) :
    w'.idle ≠ [] ∧ (∃ rows, k.rows w'.server = some rows) ∧ k.Stands w' records c ∧
      diff c desired = .ok [] := by
  obtain ⟨hrest, hidle, -, n, u, v, hu, hbody, hv, -⟩ :=
    migrating_eq_ok (sends_applyNext _) h.rest hrun
  obtain ⟨found, hfound, hnext⟩ := applyNext_eq_ok k hbody
  have hsame : k.records u.server = k.records w.server := k.records_congr hu
  rw [hsame, h.history] at hfound
  cases hfound
  cases hnext with
  | none hpending hrows =>
    rw [← hv, hu] at hrows
    have hrecords := (k.records_of_rows hrows).trans h.history
    exact ⟨hidle, ⟨_, hrows⟩, ⟨hrest, hrecords, h.replay⟩,
      (Migrator.pending_eq_nil h.replay).1 hpending⟩

/-- A round that applies a batch leads to the next history, which differs from the desired schema
exactly as far as defaults do not survive. -/
theorem stands_of_round (h : k.Stands w records c) (hd : desired.Sound)
    (hrun : run (migrating (applyNext ⟨.desired desired, label⟩)) s w = (.ok (some r), w'))
    (hspared : k.Spared w'.log) :
    w'.idle ≠ [] ∧ (∃ rows, k.rows w'.server = some rows) ∧ ∃ next,
      k.Stands w' (records ++ [r.recorded]) next ∧
        (diff next desired = .ok [] ↔ Survives c desired) ∧
        (Survives next desired → Survives c desired) := by
  obtain ⟨hrest, hidle, -, n, u, v, hu, hbody, hv, hlog⟩ :=
    migrating_eq_ok (sends_applyNext _) h.rest hrun
  obtain ⟨found, hfound, hnext⟩ := applyNext_eq_ok k hbody
  have hsame : k.records u.server = k.records w.server := k.records_congr hu
  rw [hsame, h.history] at hfound
  cases hfound
  cases hnext with
  | applied b rest schema after hpending hreplay hruns hrows =>
    rw [h.replay] at hreplay
    cases hreplay
    obtain ⟨-, hversion, hdiff⟩ := Migrator.pending_eq_cons h.replay hpending
    have hsteps := Diff.sound_of_diff h.sound hd hdiff
    obtain ⟨last, left, hlast, hsound, hleft, hempty, hback⟩ :=
      Diff.diff_after_record h.sound hd hdiff hruns
    have hsparedv : k.Spared v.log := fun sql text ps he => hspared sql text ps (hlog _ he)
    have hbelow := k.below_next h.history h.replay
    rw [← hversion, ← hu] at hbelow
    have hadded := hrows hsparedv hbelow
    rw [← hv, hu] at hadded
    refine ⟨hidle, ⟨_, hadded⟩, last.withVersion b.version, ⟨hrest, ?_, ?_⟩, ?_, hback⟩
    · exact k.records_append h.history hsteps hadded
    · exact Applied.schemaAt_append h.replay hlast
    · rw [← hempty]
      have hversions : diff (last.withVersion b.version) desired = diff last desired := rfl
      rw [hversions, hleft]
      exact ⟨Except.ok.inj, congrArg Except.ok⟩

/-- If the two schemas do not differ, a round finds nothing to do. -/
theorem exists_round_none (hk : k.Responsive) (h : k.Stands w records c) (hidle : w.idle ≠ [])
    {rows : List (List Value)} (hrows : k.rows w.server = some rows)
    (hdiff : diff c desired = .ok []) :
    ∃ w', run (migrating (applyNext ⟨.desired desired, label⟩)) s w = (.ok none, w') := by
  refine exists_migrating hk h.rest hidle fun n u hu => ?_
  exact exists_applyNext hk (hu.trans hrows) ((k.records_congr hu).trans h.history)
    ((Migrator.pending_eq_nil h.replay).2 hdiff)

theorem exists_status_upToDate (hk : k.Responsive) (h : k.Stands w records c) (hidle : w.idle ≠ [])
    {rows : List (List Value)} (hrows : k.rows w.server = some rows)
    (hdiff : diff c desired = .ok []) :
    ∃ w', run (status ⟨.desired desired, label⟩) s w =
      (.ok ⟨.upToDate, 0, (records.getLast?.map (·.version)).getD 0⟩, w') :=
  exists_status hk h.rest hidle hrows h.history ((Migrator.pending_eq_nil h.replay).2 hdiff)

/-! ## The loop -/

theorem applyRounds_eq_ok {m : Migrator} {limit : Nat} {apps : Applications} :
    run (applyRounds m (limit + 1)) s w = (.ok apps, w') ↔
      (run (migrating (applyNext m)) s w = (.ok none, w') ∧ apps = ⟨[], true⟩) ∨
      ∃ r v rest, run (migrating (applyNext m)) s w = (.ok (some r), v) ∧
        run (applyRounds m limit) s v = (.ok rest, w') ∧
          apps = { rest with records := r :: rest.records } := by
  rw [applyRounds, run_bind_eq_ok]
  constructor
  · rintro ⟨o, v, hround, hrest⟩
    cases o with
    | none =>
      cases hrest
      exact Or.inl ⟨hround, rfl⟩
    | some r =>
      obtain ⟨rest, v', hrest, hlast⟩ := (run_bind_eq_ok _ _ _).1 hrest
      cases hlast
      exact Or.inr ⟨r, v, rest, hround, hrest, rfl⟩
  · rintro (⟨hround, rfl⟩ | ⟨r, v, rest, hround, hrest, rfl⟩)
    · exact ⟨none, w', hround, rfl⟩
    · exact ⟨some r, v, hround, (run_bind_eq_ok _ _ _).2 ⟨rest, w', hrest, rfl⟩⟩

theorem applyPending_eq_ok {m : Migrator} {limit : Nat} {apps : Applications} :
    run (applyPending m limit) s w = (.ok apps, w') ↔
      ∃ t v, run (status m) s w = (.ok t, v) ∧
        if t.state = .upToDate then apps = ⟨[], true⟩ ∧ v = w'
        else run (applyRounds m limit) s v = (.ok apps, w') := by
  rw [applyPending, run_bind_eq_ok]
  refine exists_congr fun t => exists_congr fun v => and_congr_right fun _ => ?_
  split
  · rw [run_pure, Prod.mk.injEq, Except.ok.injEq, eq_comm]
  · rfl

/-- The log of a run of rounds holds the log before it. -/
theorem log_of_rounds (hw : k.AtRest w) {m : Migrator} {limit : Nat} {apps : Applications}
    (h : run (applyRounds m limit) s w = (.ok apps, w')) : ∀ e ∈ w.log, e ∈ w'.log := by
  induction limit generalizing w apps with
  | zero =>
    cases h
    exact fun _ he => he
  | succ limit ih =>
    rcases applyRounds_eq_ok.1 h with ⟨hround, -⟩ | ⟨r, v, rest, hround, hrest, -⟩
    · exact (migrating_eq_ok (sends_applyNext m) hw hround).2.2.1
    · obtain ⟨hv, -, hlog, -⟩ := migrating_eq_ok (sends_applyNext m) hw hround
      exact fun e he => ih hv hrest e (hlog e he)

/-- While a default does not survive, every round finds a batch. -/
theorem incomplete_of_not_survives (hw : k.Stands w records c) (hd : desired.Sound)
    (hs : ¬ Survives c desired) {limit : Nat} {apps : Applications}
    (h : run (applyRounds ⟨.desired desired, label⟩ limit) s w = (.ok apps, w'))
    (hspared : k.Spared w'.log) : apps.complete = false := by
  induction limit generalizing w records c apps with
  | zero =>
    cases h
    rfl
  | succ limit ih =>
    rcases applyRounds_eq_ok.1 h with ⟨hround, -⟩ | ⟨r, v, rest, hround, hrest, rfl⟩
    · exact absurd (Diff.survives_of_diff_nil hw.sound hd (stands_of_round_none hw hround).2.2.2) hs
    · have hv := (migrating_eq_ok (sends_applyNext _) hw.rest hround).1
      have hsparedv : k.Spared v.log := fun sql text ps he =>
        hspared sql text ps (log_of_rounds hv hrest _ he)
      obtain ⟨-, -, next, hnext, -, hback⟩ := stands_of_round hw hd hround hsparedv
      -- The default that was lost is lost again, as the next schema lacks it still.
      have hincomplete : rest.complete = false := ih hnext (fun hn => hs (hback hn)) hrest
      exact hincomplete

/-- After the first batch for a desired schema the next look finds nothing, the loop ends and the
status is up to date, exactly if every default of the schema survives being recorded or was in place
before. If one does not, no number of rounds completes the loop. -/
theorem applyPending_complete_iff (hk : k.Responsive) (hd : desired.Valid)
    (hw : k.Stands w records c) {apps : Applications}
    (hfirst : run (applyPending ⟨.desired desired, label⟩ 1) s w = (.ok apps, w₁))
    (hone : apps.records = [r]) (hspared : k.Spared w₁.log) :
    let m : Migrator := ⟨.desired desired, label⟩
    ((∃ w₂, run (migrating (applyNext m)) s w₁ = (.ok none, w₂)) ↔ Survives c desired) ∧
    (Survives c desired → ∀ limit, ∃ w₂ w₃,
      run (applyPending m (limit + 2)) s w = (.ok ⟨[r], true⟩, w₂) ∧
        run (status m) s w₂ = (.ok ⟨.upToDate, 0, r.version⟩, w₃)) ∧
    (¬ Survives c desired → ∀ limit apps w₂, run (applyPending m limit) s w = (.ok apps, w₂) →
      k.Spared w₂.log → apps.complete = false) := by
  intro m
  have hsound := (Schema.valid_iff_sound desired).1 hd
  obtain ⟨t, v, hstatus, hrounds⟩ := applyPending_eq_ok.1 hfirst
  obtain ⟨hrest, -, hrows⟩ := status_eq_ok k hw.rest hstatus
  have hv : k.Stands v records c :=
    ⟨hrest, (k.records_congr hrows).trans hw.history, hw.replay⟩
  split at hrounds
  case isTrue hstate =>
    rw [hrounds.1] at hone
    cases hone
  case isFalse hstate =>
    rcases applyRounds_eq_ok.1 hrounds with ⟨-, rfl⟩ | ⟨r', v', rest, hround, hend, rfl⟩
    · cases hone
    · -- One round was all the first run had, so it is the one that recorded `r`.
      cases hend
      cases hone
      obtain ⟨hidle, ⟨rows, hrows₁⟩, next, hnext, hempty, -⟩ :=
        stands_of_round hv hsound hround hspared
      have hnone : Survives c desired →
          ∃ w₂, run (migrating (applyNext m)) s w₁ = (.ok none, w₂) := fun hs =>
        exists_round_none hk hnext hidle hrows₁ (hempty.2 hs)
      refine ⟨⟨fun ⟨w₂, hw₂⟩ => hempty.1 (stands_of_round_none hnext hw₂).2.2.2, hnone⟩, ?_, ?_⟩
      · intro hs limit
        obtain ⟨w₂, hw₂⟩ := hnone hs
        obtain ⟨hidle₂, ⟨rows₂, hrows₂⟩, hlast, hdiff⟩ := stands_of_round_none hnext hw₂
        obtain ⟨w₃, hstatus₃⟩ := exists_status_upToDate hk hlast hidle₂ hrows₂ hdiff
        rw [List.getLast?_concat] at hstatus₃
        have hsecond : run (applyRounds m (limit + 1)) s w₁ = (.ok ⟨[], true⟩, w₂) :=
          applyRounds_eq_ok.2 (Or.inl ⟨hw₂, rfl⟩)
        have hall : run (applyRounds m (limit + 2)) s v = (.ok ⟨[r], true⟩, w₂) :=
          applyRounds_eq_ok.2 (Or.inr ⟨r, w₁, _, hround, hsecond, rfl⟩)
        refine ⟨w₂, w₃, applyPending_eq_ok.2 ⟨t, v, hstatus, ?_⟩, hstatus₃⟩
        rw [if_neg hstate]
        exact hall
      · intro hs limit apps w₂ hrun hspared₂
        obtain ⟨t', v'', hstatus', hrounds'⟩ := applyPending_eq_ok.1 hrun
        rw [hstatus] at hstatus'
        cases hstatus'
        rw [if_neg hstate] at hrounds'
        exact incomplete_of_not_survives hv hsound hs hrounds' hspared₂

/-- A field with a default that no document has. -/
def limitField : Field where
  name := "limit"
  type := .real
  nullable := true
  default := .float (.infinity false)

def unbounded : Schema where
  entities := [
    { name := "Rate", fields := [
      { name := "id", type := .bigint, primaryKey := true, auto := true }, limitField] }]

theorem not_survives_unbounded (a : Schema) (ha : a.entities = []) : ¬ Survives a unbounded := by
  intro h
  have hfield : unbounded.Declares (.field "Rate" limitField) :=
    ⟨_, List.mem_cons_self, rfl, List.mem_cons_of_mem _ List.mem_cons_self⟩
  rcases h "Rate" limitField hfield with ⟨g, ⟨e, he, -⟩, -⟩ | hsame
  · rw [ha] at he
    cases he
  · cases hsame

theorem applyPending_complete_iff_unbounded :
    ∃ apps w₁, run (applyPending ⟨.desired unbounded, "auto"⟩ 1) Notebook.setting
        { server := Notebook.fresh } = (.ok apps, w₁) ∧ apps.records.length = 1 ∧
      ∀ limit apps w₂, run (applyPending ⟨.desired unbounded, "auto"⟩ limit) Notebook.setting
        { server := Notebook.fresh } = (.ok apps, w₂) → apps.complete = false := by
  have hlength : ((run (applyPending ⟨.desired unbounded, "auto"⟩ 1) Notebook.setting
      { server := Notebook.fresh }).1.toOption.map (·.records.length)) = some 1 := by decide +kernel
  rcases hrun : run (applyPending ⟨.desired unbounded, "auto"⟩ 1) Notebook.setting
    { server := Notebook.fresh } with ⟨e | apps, w₁⟩
  · rw [hrun] at hlength
    cases hlength
  · rw [hrun] at hlength
    have hone : apps.records.length = 1 := Option.some.inj hlength
    obtain ⟨r, hr⟩ := List.length_eq_one_iff.1 hone
    have hstands : Notebook.archive.Stands (s := Notebook.setting) { server := Notebook.fresh } []
        (Schema.empty.withVersion 0) := ⟨⟨nofun, rfl⟩, rfl, rfl⟩
    obtain ⟨-, -, hendless⟩ := applyPending_complete_iff Notebook.responsive (by decide +kernel)
      hstands hrun hr fun _ _ _ _ => trivial
    refine ⟨apps, w₁, rfl, hone, fun limit apps' w₂ hrun' => ?_⟩
    exact hendless (not_survives_unbounded _ rfl) limit apps' w₂ hrun' fun _ _ _ _ => trivial

end Session

end SchemaLedger
