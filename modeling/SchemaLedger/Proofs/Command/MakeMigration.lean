import SchemaLedger.Calendar
import SchemaLedger.Command.Run
import SchemaLedger.Proofs.Entries
import SchemaLedger.Proofs.Migration.History
import SchemaLedger.Proofs.Migration.Keeping

set_option autoImplicit false

/-!
# Making migrations

The command that compares a model with a file of migrations reads the file, replays it, and appends the
difference. After any number of runs the file is in order: what one run needs of it is what the run
before has left.
-/
namespace SchemaLedger

theorem File.valid_of_schema {path : String} {text : Option String} {s : Schema}
    (h : File.schema path text = .ok s) : s.Valid := by
  have hbuild : ∀ raw, liftSchema (Schema.build raw (.int 0)) = .ok s → s.Valid := fun raw h =>
    Schema.valid_of_build ((Outcome.mapError_eq_ok _ _ _).1 h)
  cases text with
  | none => cases h
  | some text =>
    rw [File.schema] at h
    split at h
    case h_1 => cases h
    case h_2 document _ =>
      cases document with
      | object entries =>
        dsimp only at h
        split at h
        case h_1 raw _ => exact hbuild raw h
        case h_2 => cases h
      | list raw => exact hbuild raw h
      | _ => cases h

namespace Command

open Diff (SameKeys Kept)
open Schema (Matches)

variable {now : Timestamp} {files files' : Files} {model path label : String} {answer : Answer}

/-! ## One run -/

def unchanged (path : String) : Answer :=
  .success "No changes detected" [("migrations", .text path)]

theorem makeMigrationFile_eq_ok :
    makeMigrationFile now files model path label = .ok (answer, files') ↔
      ∃ desired batches c steps, loadSchema files model = .ok desired ∧
        load files path = .ok batches ∧ Batch.schemaAt batches = .ok c ∧
        diff c desired = .ok steps ∧
        ((steps = [] ∧ answer = unchanged path ∧ files' = files) ∨
          (steps ≠ [] ∧ 1 ≤ c.version + 1 ∧
            answer = .written ⟨c.version + 1, Batch.nameAt now label, steps⟩ path ∧
            files' = Entries.put path (File.ofBatches
              (batches ++ [⟨c.version + 1, Batch.nameAt now label, steps⟩])) files)) := by
  simp only [makeMigrationFile, Outcome.bind_eq_ok, liftSchema, Outcome.mapError_eq_ok,
    Migrator.between_eq_ok]
  constructor
  · rintro ⟨desired, hd, batches, hb, c, hc, _, ⟨steps, hsteps, ⟨rfl, rfl⟩ | ⟨hne, hv, rfl⟩⟩, h⟩
    · cases h
      exact ⟨desired, batches, c, [], hd, hb, hc, hsteps, Or.inl ⟨rfl, rfl, rfl⟩⟩
    · cases h
      exact ⟨desired, batches, c, steps, hd, hb, hc, hsteps, Or.inr ⟨hne, hv, rfl, rfl⟩⟩
  · rintro ⟨desired, batches, c, steps, hd, hb, hc, hsteps, ⟨rfl, rfl, rfl⟩ | ⟨hne, hv, rfl, rfl⟩⟩
    · exact ⟨desired, hd, batches, hb, c, hc, none, ⟨[], hsteps, Or.inl ⟨rfl, rfl⟩⟩, rfl⟩
    · exact ⟨desired, hd, batches, hb, c, hc, _, ⟨steps, hsteps, Or.inr ⟨hne, hv, rfl⟩⟩, rfl⟩

variable {σ : Type} {server : Server σ} {p : Preferences} {s : σ}

theorem files_makeMigration (h : makeMigrationFile now files model path label = .ok (answer, files')) :
    (run server p now files (.makeMigration model path label) s).files = files' := by
  rw [run, h]

theorem isFailure_makeMigration :
    (run server p now files (.makeMigration model path label) s).answer.isFailure = false ↔
      ∃ answer files', makeMigrationFile now files model path label = .ok (answer, files') := by
  rw [run]
  cases hmake : makeMigrationFile now files model path label with
  | ok r =>
    refine ⟨fun _ => ⟨r.1, r.2, rfl⟩, fun _ => ?_⟩
    obtain ⟨_, _, _, _, -, -, -, -, ⟨-, ha, -⟩ | ⟨-, -, ha, -⟩⟩ := makeMigrationFile_eq_ok.1 hmake
    · exact congrArg Answer.isFailure ha
    · exact congrArg Answer.isFailure ha
  | error e =>
    constructor
    · intro h
      cases h
    · rintro ⟨_, _, h⟩
      cases h

/-! ## Batches in order -/

/-- The batch leads from one schema to the next, and turned around it leads back. -/
def Reversible (batches : List Batch) (k : Nat) (b : Batch) : Prop :=
  ∃ before after d, Batch.schemaAt (batches.take k) = .ok before ∧
    Batch.schemaAt (batches.take (k + 1)) = .ok after ∧
      Step.applyAll after b.invert.steps = .ok d ∧ d.equivalent before = true

/-- Batches that a file keeps, numbered from one, and the schema that they lead to. -/
structure Orderly (batches : List Batch) (c : Schema) : Prop where
  lasting : ∀ b ∈ batches, b.Sound ∧ b.Storable
  versions : batches.map (·.version) = (List.range batches.length).map fun i : ℕ => (i : ℤ) + 1
  schema : Batch.schemaAt batches = .ok c
  sound : c.Sound
  storable : c.Storable
  reversible : ∀ k b, batches[k]? = some b → Reversible batches k b

theorem orderly_nil : Orderly [] (Schema.empty.withVersion 0) where
  lasting := by simp
  versions := rfl
  schema := rfl
  sound := Schema.sound_empty.withVersion 0
  storable := nofun
  reversible := nofun

namespace Orderly

variable {batches : List Batch} {c d desired : Schema} {steps : List Step} {b : Batch}

theorem version_eq (h : Orderly batches c) : c.version = batches.length := by
  rw [Batch.version_of_schemaAt h.schema, ← List.getLast?_map, h.versions, List.getLast?_map]
  cases hn : batches.length with
  | zero => rfl
  | succ n => simp [List.range_succ]

theorem reversible_append {more : Batch} {k : Nat} (h : Reversible batches k b)
    (hk : k < batches.length) : Reversible (batches ++ [more]) k b := by
  rw [Reversible, List.take_append_of_le_length hk.le, List.take_append_of_le_length hk]
  exact h

/-- One more batch, with the difference to another schema. -/
theorem append (h : Orderly batches c) (hk : Kept c desired steps d)
    (hb : b.steps = steps) (hv : b.version = c.version + 1) :
    Orderly (batches ++ [b]) (d.withVersion b.version) := by
  obtain rfl := hb
  have hschema := Batch.schemaAt_append h.schema hk.run
  refine ⟨?_, ?_, hschema, hk.sound.withVersion _, hk.storable, fun k b' hb' => ?_⟩
  · refine List.forall_mem_append.2 ⟨h.lasting, List.forall_mem_singleton.2 ⟨⟨?_, ?_⟩, ?_⟩⟩
    · rw [hv, h.version_eq]
      omega
    · exact fun p hp => (hk.lasting p hp).1
    · exact fun p hp => (hk.lasting p hp).2
  · rw [List.map_append, h.versions, List.length_append, List.length_singleton, List.range_succ,
      List.map_append, List.map_singleton, List.map_singleton, hv, h.version_eq]
  · rcases Nat.lt_trichotomy k batches.length with hlt | rfl | hgt
    · rw [List.getElem?_append_left hlt] at hb'
      exact reversible_append (h.reversible k b' hb') hlt
    · rw [List.getElem?_concat_length, Option.some.injEq] at hb'
      obtain rfl := hb'
      obtain ⟨back, hback, hsame⟩ := hk.back
      refine ⟨c, d.withVersion b.version, back.withVersion b.version, ?_, ?_, ?_, hsame⟩
      · rw [List.take_left]
        exact h.schema
      · rw [List.take_of_length_le (by simp)]
        exact hschema
      · rw [Batch.invert, Step.applyAll_withVersion, hback]
        rfl
    · rw [List.getElem?_eq_none (by rw [List.length_append, List.length_singleton]; omega)] at hb'
      cases hb'

theorem load_self (h : Orderly batches c) (path : String) :
    File.batches path (some (File.ofBatches batches)) = .ok batches :=
  File.batches_self path (fun b hb => (h.lasting b hb).1) fun b hb => (h.lasting b hb).2

end Orderly

/-! ## Runs -/

/-- The schema of the model that a run was for, and the text of the migrations file after it. -/
structure Making where
  model : Schema
  text : Option String

/-- The text of the migrations file after runs, the last of them first. At first there is no file. -/
def textAfter : List Making → Option String
  | [] => none
  | r :: _ => r.text

/-- Successful runs on one migrations file, the last of them first. Nothing else writes to the file;
whatever else there is may change between two runs. -/
inductive Makings (path : String) : List Making → Prop where
  | none : Makings path []
  | run {σ : Type} {server : Server σ} {p : Preferences} {now : Timestamp} {files : Files}
      {model label : String} {s : σ} {desired : Schema} {earlier : List Making} :
      Makings path earlier → Entries.get? path files = textAfter earlier →
      loadSchema files model = .ok desired →
      (Command.run server p now files (.makeMigration model path label) s).answer.isFailure = false →
      Makings path (⟨desired, Entries.get? path
        (Command.run server p now files (.makeMigration model path label) s).files⟩ :: earlier)

/-- What holds of a migrations file after runs, and of the batches that it holds. -/
structure Consistent (path : String) (runs : List Making) (batches : List Batch) : Prop where
  loads : File.batches path (textAfter runs) = .ok batches
  versions : batches.map (·.version) = (List.range batches.length).map fun i : ℕ => (i : ℤ) + 1
  /-- Each run has left the earlier batches as they were and appended one at most. -/
  grows : ∀ r earlier, r :: earlier <:+ runs → ∃ old new,
    File.batches path (textAfter earlier) = .ok old ∧
      File.batches path r.text = .ok (old ++ new) ∧ new.length ≤ 1
  current : ∀ r ∈ runs.head?, ∃ c, Batch.schemaAt batches = .ok c ∧ c.equivalent r.model = true
  /-- A run for a model that is equivalent to the last one writes nothing. -/
  settled : ∀ r ∈ runs.head?, ∀ {σ : Type} (server : Server σ) (p : Preferences) (now : Timestamp)
    (files : Files) (model label : String) (s : σ) (desired : Schema),
    Entries.get? path files = textAfter runs → loadSchema files model = .ok desired →
    desired.Storable → desired.equivalent r.model = true →
      Command.run server p now files (.makeMigration model path label) s =
        { answer := unchanged path, files, server := s }
  reversible : ∀ k b, batches[k]? = some b → Reversible batches k b

/-- What the next run needs of those before. -/
structure Upheld (path : String) (runs : List Making) (batches : List Batch) (c : Schema) :
    Prop where
  loads : File.batches path (textAfter runs) = .ok batches
  orderly : Orderly batches c
  model : ∀ r ∈ runs.head?, r.model.Sound ∧ Matches c r.model
  grows : ∀ r earlier, r :: earlier <:+ runs → ∃ old new,
    File.batches path (textAfter earlier) = .ok old ∧
      File.batches path r.text = .ok (old ++ new) ∧ new.length ≤ 1

variable {runs : List Making} {batches : List Batch} {c desired : Schema}

theorem upheld_nil (path : String) : Upheld path [] [] (Schema.empty.withVersion 0) where
  loads := rfl
  orderly := orderly_nil
  model := nofun
  grows r earlier h := by
    rw [List.suffix_nil] at h
    cases h

theorem Upheld.sameKeys (h : Upheld path runs batches c)
    (hk : ∀ r ∈ runs.head?, SameKeys r.model desired) : SameKeys c desired := by
  cases runs with
  | nil =>
    have hnil : batches = [] := by
      have hloads := h.loads
      cases hloads
      rfl
    subst hnil
    have hc := h.orderly.schema
    cases hc
    rintro n k l ⟨e, he, -⟩
    cases he
  | cons r rest => exact (h.model r rfl).2.sameKeys (hk r rfl)

theorem Upheld.grows_cons (h : Upheld path runs batches c) {r : Making}
    (hr : ∃ old new, File.batches path (textAfter runs) = .ok old ∧
      File.batches path r.text = .ok (old ++ new) ∧ new.length ≤ 1) :
    ∀ x earlier, x :: earlier <:+ r :: runs → ∃ old new,
      File.batches path (textAfter earlier) = .ok old ∧
        File.batches path x.text = .ok (old ++ new) ∧ new.length ≤ 1 := by
  intro x earlier hsuffix
  rcases List.suffix_cons_iff.1 hsuffix with heq | hsuffix
  · cases heq
    exact hr
  · exact h.grows x earlier hsuffix

/-- On a file that was left by runs a run fails only if there is no model or no difference to it. -/
theorem Upheld.succeeds_iff (h : Upheld path runs batches c)
    (hfile : Entries.get? path files = textAfter runs) :
    (run server p now files (.makeMigration model path label) s).answer.isFailure = false ↔
      ∃ desired steps, loadSchema files model = .ok desired ∧ diff c desired = .ok steps := by
  constructor
  · intro hanswer
    obtain ⟨answer, files', hmake⟩ := isFailure_makeMigration.1 hanswer
    obtain ⟨desired, batches', c', steps, hd, hb, hc, hdiff, -⟩ := makeMigrationFile_eq_ok.1 hmake
    rw [load, hfile, h.loads] at hb
    obtain rfl := Except.ok.inj hb
    obtain rfl := Except.ok.inj (h.orderly.schema.symm.trans hc)
    exact ⟨desired, steps, hd, hdiff⟩
  · rintro ⟨desired, steps, hd, hdiff⟩
    have hload : load files path = .ok batches := by
      rw [load, hfile]
      exact h.loads
    have hc := h.orderly.schema
    rw [isFailure_makeMigration]
    by_cases hnil : steps = []
    · exact ⟨_, _, makeMigrationFile_eq_ok.2
        ⟨desired, batches, c, steps, hd, hload, hc, hdiff, Or.inl ⟨hnil, rfl, rfl⟩⟩⟩
    · have hv : 1 ≤ c.version + 1 := by
        rw [h.orderly.version_eq]
        omega
      exact ⟨_, _, makeMigrationFile_eq_ok.2
        ⟨desired, batches, c, steps, hd, hload, hc, hdiff, Or.inr ⟨hnil, hv, rfl, rfl⟩⟩⟩

/-- One successful run. -/
theorem Upheld.next (h : Upheld path runs batches c) (hfile : Entries.get? path files = textAfter runs)
    (hmodel : loadSchema files model = .ok desired) (hs : desired.Storable)
    (hk : ∀ r ∈ runs.head?, SameKeys r.model desired)
    (hmake : makeMigrationFile now files model path label = .ok (answer, files')) :
    ∃ batches' steps d v, diff c desired = .ok steps ∧ Step.applyAll c steps = .ok d ∧
      Upheld path (⟨desired, Entries.get? path files'⟩ :: runs) batches' (d.withVersion v) := by
  obtain ⟨desired', batches', c', steps, hd, hb, hc, hdiff, hcases⟩ := makeMigrationFile_eq_ok.1 hmake
  obtain rfl := Except.ok.inj (hmodel.symm.trans hd)
  rw [load, hfile, h.loads] at hb
  obtain rfl := Except.ok.inj hb
  obtain rfl := Except.ok.inj (h.orderly.schema.symm.trans hc)
  have hsound := (Schema.valid_iff_sound desired).1 (File.valid_of_schema hmodel)
  obtain ⟨d, hkept⟩ := Diff.exists_kept h.orderly.sound hsound h.orderly.storable hs
    (h.sameKeys hk) hdiff
  rcases hcases with ⟨rfl, -, rfl⟩ | ⟨-, -, -, rfl⟩
  · -- Nothing was written, and the schema of the file is the one that matches the model.
    obtain rfl := Except.ok.inj hkept.run
    refine ⟨batches, [], c, c.version, hdiff, rfl, by rw [hfile]; exact h.loads, h.orderly, ?_, ?_⟩
    · rintro r ⟨⟩
      exact ⟨hsound, hkept.goal⟩
    · refine h.grows_cons ⟨batches, [], h.loads, ?_, Nat.zero_le 1⟩
      rw [hfile, List.append_nil]
      exact h.loads
  · have horderly := h.orderly.append hkept
      (b := ⟨c.version + 1, Batch.nameAt now label, steps⟩) rfl rfl
    have hloads := horderly.load_self path
    rw [← Entries.get?_put_self path _ files] at hloads
    refine ⟨_, steps, d, _, hdiff, hkept.run, hloads, horderly, ?_, ?_⟩
    · rintro r ⟨⟩
      exact ⟨hsound, hkept.goal.withVersion _⟩
    · exact h.grows_cons ⟨batches, [_], h.loads, hloads, le_rfl⟩

theorem Upheld.settled (h : Upheld path runs batches c) {r : Making} (hr : r ∈ runs.head?)
    (hplain : r.model.Storable) (hfile : Entries.get? path files = textAfter runs)
    (hmodel : loadSchema files model = .ok desired) (hs : desired.Storable)
    (heq : desired.equivalent r.model = true) :
    makeMigrationFile now files model path label = .ok (unchanged path, files) := by
  obtain ⟨hsound, hmatches⟩ := h.model r hr
  have hdesired := (Schema.valid_iff_sound desired).1 (File.valid_of_schema hmodel)
  have hback : Matches r.model desired := (Schema.matches_of_equivalent hdesired hsound heq).symm
    hs.plainDefaults hplain.plainDefaults hsound
  have hdiff := (hmatches.trans hback).diff_eq_nil h.orderly.sound hdesired
  have hload : load files path = .ok batches := by
    rw [load, hfile]
    exact h.loads
  exact makeMigrationFile_eq_ok.2 ⟨desired, batches, c, [], hmodel, hload, h.orderly.schema, hdiff,
    Or.inl ⟨rfl, rfl, rfl⟩⟩

theorem upheld_of_makings (h : Makings path runs) (hs : ∀ r ∈ runs, r.model.Storable)
    (hk : runs.IsChain fun later earlier => SameKeys earlier.model later.model) :
    ∃ batches c, Upheld path runs batches c := by
  induction h with
  | none => exact ⟨[], _, upheld_nil path⟩
  | run hearlier hfile hmodel hanswer ih =>
    obtain ⟨batches, c, h⟩ := ih (fun r hr => hs r (List.mem_cons_of_mem _ hr)) hk.tail
    obtain ⟨answer, files', hmake⟩ := isFailure_makeMigration.1 hanswer
    rw [files_makeMigration hmake] at hk ⊢
    obtain ⟨_, _, _, _, -, -, hnext⟩ := h.next hfile hmodel (hs _ List.mem_cons_self)
      (fun r hr => hk.rel_head? hr) hmake
    exact ⟨_, _, hnext⟩

/-- After any runs for models with storable defaults, between which no entity changes the name of its
key, the migrations file is consistent. -/
theorem consistent_of_makings (h : Makings path runs) (hs : ∀ r ∈ runs, r.model.Storable)
    (hk : runs.IsChain fun later earlier => SameKeys earlier.model later.model) :
    ∃ batches, Consistent path runs batches := by
  obtain ⟨batches, c, hup⟩ := upheld_of_makings h hs hk
  refine ⟨batches, hup.loads, hup.orderly.versions, hup.grows, fun r hr => ?_, ?_,
    hup.orderly.reversible⟩
  · obtain ⟨hsound, hmatches⟩ := hup.model r hr
    exact ⟨c, hup.orderly.schema, (Schema.equivalent_iff_matches hup.orderly.sound hsound).2 hmatches⟩
  · intro r hr σ server p now files model label s desired hfile hmodel hdesired heq
    have hplain := hs r (List.mem_of_mem_head? hr)
    rw [Command.run, hup.settled hr hplain hfile hmodel hdesired heq]

/-! A file of posts: the first migration, a change of the model, and a run for the same model. -/

/-- A database that nothing is asked of. -/
def silent : Server Unit where
  connect _ := (.ok (), ())
  answer _ _ _ := (.ok {}, ())
  commit _ := (.ok (), ())
  rollback _ := ()

/-- A model file, and perhaps a migrations file. -/
def folder (model : String) (migrations : Option String) : Files :=
  ("model.json", model) :: (migrations.map fun text => ("migrations.json", text)).toList

theorem get?_folder (model : String) (migrations : Option String) :
    Entries.get? "migrations.json" (folder model migrations) = migrations := by
  cases migrations <;> rfl

/-- Whether there are differences from nothing to one schema and on to another. -/
def follows (a b : Schema) : Bool :=
  match diff (Schema.empty.withVersion 0) a with
  | .ok steps =>
    match Step.applyAll (Schema.empty.withVersion 0) steps with
    | .ok c => (diff c b).isOk
    | .error _ => false
  | .error _ => false

theorem exists_makings {a b : List Entity} (ha : (⟨0, a⟩ : Schema).Valid)
    (hb : (⟨0, b⟩ : Schema).Valid) (hsa : (⟨0, a⟩ : Schema).Storable)
    (hsb : (⟨0, b⟩ : Schema).Storable) (h : follows ⟨0, a⟩ ⟨0, b⟩ = true) : ∃ one two,
      Makings "migrations.json" [⟨⟨0, b⟩, two⟩, ⟨⟨0, a⟩, one⟩] := by
  have hup := upheld_nil "migrations.json"
  have hmodel := File.schema_self "model.json" ha hsa
  have hother := File.schema_self "model.json" hb hsb
  rw [follows] at h
  split at h
  case h_2 => cases h
  case h_1 steps hdiff =>
    have hnone := get?_folder (File.ofEntities a) none
    have hfirst : (run silent {} .epoch (folder (File.ofEntities a) none)
        (.makeMigration "model.json" "migrations.json" "auto") ()).answer.isFailure = false :=
      (hup.succeeds_iff hnone).2 ⟨_, _, hmodel, hdiff⟩
    have hone := Makings.run .none hnone hmodel hfirst
    obtain ⟨answer, files, hmake⟩ := isFailure_makeMigration.1 hfirst
    rw [files_makeMigration hmake] at hone
    obtain ⟨batches, steps', d, v, hdiff', hrun, hnext⟩ := hup.next hnone hmodel hsa nofun hmake
    obtain rfl := Except.ok.inj (hdiff.symm.trans hdiff')
    rw [hrun] at h
    obtain ⟨more, hmore⟩ := Outcome.exists_ok (show (diff d ⟨0, b⟩).isOk = true from h)
    have htext := get?_folder (File.ofEntities b) (Entries.get? "migrations.json" files)
    have hsecond : (run silent {} .epoch
        (folder (File.ofEntities b) (Entries.get? "migrations.json" files))
        (.makeMigration "model.json" "migrations.json" "auto") ()).answer.isFailure = false :=
      (hnext.succeeds_iff htext).2 ⟨_, _, hother, hmore⟩
    exact ⟨_, _, .run hone htext hother hsecond⟩

def key : Field := { name := "id", type := .bigint, primaryKey := true, auto := true }

def posts : List Entity := [{ name := "Post", fields := [key] }]

def ratedPosts : List Entity :=
  [{ name := "Post", fields := [{ name := "rating", type := .real, default := .float .zero }, key] }]

/-- A run for each of two models, of which the second has one more field. -/
theorem consistent_of_makings_posts : ∃ one two batches,
    Makings "migrations.json" [⟨⟨0, ratedPosts⟩, two⟩, ⟨⟨0, posts⟩, one⟩] ∧
      Consistent "migrations.json" [⟨⟨0, ratedPosts⟩, two⟩, ⟨⟨0, posts⟩, one⟩] batches := by
  have hposts : (⟨0, posts⟩ : Schema).Storable := by decide +kernel
  have hrated : (⟨0, ratedPosts⟩ : Schema).Storable := by decide +kernel
  have hkeys : SameKeys ⟨0, posts⟩ ⟨0, ratedPosts⟩ := by decide +kernel
  obtain ⟨one, two, hruns⟩ := exists_makings (a := posts) (b := ratedPosts) (by decide +kernel)
    (by decide +kernel) hposts hrated (by decide +kernel)
  obtain ⟨batches, h⟩ := consistent_of_makings hruns
    (List.forall_mem_cons.2 ⟨hrated, List.forall_mem_singleton.2 hposts⟩)
    (List.isChain_pair.2 hkeys)
  exact ⟨one, two, batches, hruns, h⟩

end Command

end SchemaLedger
