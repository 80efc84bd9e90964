import Mathlib.Data.List.Infix
import SchemaLedger.Calendar
import SchemaLedger.Proofs.Migration.History

set_option autoImplicit false

/-!
# Supplied batches

A supplied list is held against the history entry by entry. Only versions and names are compared: a
history under the same versions and names passes for the beginning of the list, whatever its steps.
-/
namespace SchemaLedger

/-- What an entry of a history is known by. -/
def Applied.title (r : Applied) : Int × String := (r.version, r.name)

def Batch.title (b : Batch) : Int × String := (b.version, b.name)

namespace Migrator

variable {records : List Applied} {list rest : List Batch} {label : String} {now : Timestamp}

theorem divergence_cons (r : Applied) (rs : List Applied) (b : Batch) (bs : List Batch) :
    divergence (r :: rs) (b :: bs) =
      if r.title = b.title then divergence rs bs
      else some (.divergent r.version r.name b.version b.name) := by
  simp [divergence, Applied.title, Batch.title]

/-- A history that is not longer than the list begins it exactly if no title differs. -/
theorem divergence_eq_none (h : records.length ≤ list.length) :
    divergence records list = none ↔ records.map Applied.title <+: list.map Batch.title := by
  induction records generalizing list with
  | nil => simp [divergence]
  | cons r rs ih =>
    cases list with
    | nil => cases h
    | cons b bs =>
      rw [divergence_cons, List.map_cons, List.map_cons, List.cons_prefix_cons,
        ← ih (Nat.le_of_succ_le_succ h)]
      by_cases heq : r.title = b.title
      · simp [heq]
      · simp [heq]

theorem divergence_kind {fault : MigrationFault} (h : divergence records list = some fault) :
    fault.kind = .migrationHistory := by
  induction records generalizing list with
  | nil => cases h
  | cons r rs ih =>
    cases list with
    | nil => cases h
    | cons b bs =>
      rw [divergence_cons] at h
      split at h
      · exact ih h
      · cases h
        rfl

/-- What is pending after a history that begins the list is the rest of it. -/
theorem pending_supplied_eq_ok : pending ⟨.batches list, label⟩ now records = .ok rest ↔
    records.map Applied.title <+: list.map Batch.title ∧ rest = list.drop records.length := by
  rw [pending]
  dsimp only
  split
  case isTrue hlong =>
    have hno : ¬ records.map Applied.title <+: list.map Batch.title := by
      intro hbegins
      have hlength := hbegins.length_le
      rw [List.length_map, List.length_map] at hlength
      omega
    simp [hno]
  case isFalse hlong =>
    rw [← divergence_eq_none (Nat.le_of_not_lt hlong)]
    split
    case h_1 fault hfault => simp [hfault]
    case h_2 hnone => simp [hnone, eq_comm]

theorem pending_supplied_error {e : Error} (h : pending ⟨.batches list, label⟩ now records = .error e) :
    e.name = ErrorKind.migrationHistory.name := by
  rw [pending] at h
  dsimp only at h
  split at h
  · cases h
    rfl
  · split at h
    case h_1 fault hfault =>
      cases h
      exact congrArg ErrorKind.name (divergence_kind hfault)
    case h_2 => cases h

/-- A history that begins the list in all but its steps is at the version of that beginning. -/
theorem lastVersion_of_prefix (h : records.map Applied.title <+: list.map Batch.title) :
    records.getLast?.map (·.version) = (list.take records.length).getLast?.map (·.version) := by
  have htitles := List.prefix_iff_eq_take.1 h
  rw [List.length_map, ← List.map_take] at htitles
  have hversions := congrArg (List.map Prod.fst) htitles
  rw [List.map_map, List.map_map] at hversions
  have hlast := congrArg List.getLast? hversions
  rw [List.getLast?_map, List.getLast?_map] at hlast
  exact hlast

/-- A migrator for a list finds nothing wrong with a history exactly if it begins the list by version
and name, and what is pending then is the rest of the list. The steps are not looked at; the history
leads to the schema of as many batches of the list if the steps agree, too. -/
theorem pending_supplied_iff (list : List Batch) (records : List Applied) (label : String)
    (now : Timestamp) :
    (∀ rest, pending ⟨.batches list, label⟩ now records = .ok rest ↔
      records.map Applied.title <+: list.map Batch.title ∧ rest = list.drop records.length) ∧
    (∀ e, pending ⟨.batches list, label⟩ now records = .error e →
      e.name = ErrorKind.migrationHistory.name) ∧
    (records.map Applied.title <+: list.map Batch.title →
      records.map (·.steps) = (list.take records.length).map (·.steps) →
        Applied.schemaAt records = Batch.schemaAt (list.take records.length)) := by
  refine ⟨fun rest => pending_supplied_eq_ok, fun e => pending_supplied_error, ?_⟩
  intro htitles hsteps
  rw [Applied.schemaAt, Batch.schemaAt, lastVersion_of_prefix htitles, List.flatMap_def,
    List.flatMap_def, hsteps]

/-- An entity with a key and nothing else. -/
def keyed (name : String) : Entity where
  name := name
  fields := [{ name := "id", type := .bigint, primaryKey := true, auto := true }]

/-- The history of a database where another entity was created under the name of the first batch. -/
def strayHistory : List Applied := [⟨1, "one", [.createEntity (keyed "Draft")], .epoch⟩]

def reviewed : List Batch :=
  [⟨1, "one", [.createEntity (keyed "Post")]⟩, ⟨2, "two", [.createEntity (keyed "Tag")]⟩]

/-- A history with other steps passes, and the rest of the list is pending on a schema that the list
does not lead to. -/
theorem pending_supplied_iff_stray :
    pending ⟨.batches reviewed, "auto"⟩ .epoch strayHistory = .ok (reviewed.drop 1) ∧
    (∃ c d, Applied.schemaAt strayHistory = .ok c ∧ Batch.schemaAt (reviewed.take 1) = .ok d ∧
      c.equivalent d = false) ∧
    Applied.schemaAt [⟨1, "one", [.createEntity (keyed "Post")], .epoch⟩] =
      Batch.schemaAt (reviewed.take 1) := by
  refine ⟨((pending_supplied_iff reviewed strayHistory "auto" .epoch).1 _).2 ⟨by decide, rfl⟩, ?_, ?_⟩
  · exact ⟨_, _, rfl, rfl, by decide +kernel⟩
  · exact (pending_supplied_iff reviewed _ "auto" .epoch).2.2 (by decide) rfl

end Migrator

end SchemaLedger
