import SchemaLedger.Proofs.Entries
import SchemaLedger.Proofs.Outcome
import SchemaLedger.Record.Handle

set_option autoImplicit false

/-!
# The life of a record handle

What the transitions of a handle do to its columns, its key and its state.
-/
namespace SchemaLedger

/-- How far a record has come. -/
def RecordState.rank : RecordState → ℕ
  | .new => 0
  | .persisted => 1
  | .deleted => 2

theorem RecordState.rank_le (x : RecordState) : x.rank ≤ 2 := by
  cases x <;> decide

theorem RecordState.rank_eq_zero {x : RecordState} : x.rank = 0 ↔ x = .new := by
  cases x <;> decide

theorem RecordState.rank_eq_two {x : RecordState} : x.rank = 2 ↔ x = .deleted := by
  cases x <;> decide

namespace Handle

variable {e : Entity} {h h' h'' : Handle} {values : Entries} {state : RecordState}
  {column : String} {v : Value}

/-- The columns that a handle has values for. -/
def columns (h : Handle) : List String := h.values.map (·.1)

/-- The values are those of the entity's columns, in their order, and only they are ever dirty. -/
structure Fits (h : Handle) : Prop where
  columns : h.columns = h.entity.columnNames
  dirty : ∀ c ∈ h.dirty, c ∈ h.entity.columnNames

/-- What a handle is at some later time. -/
structure Later (h h' : Handle) : Prop where
  entity : h'.entity = h.entity
  state : h.state.rank ≤ h'.state.rank
  key : h.state ≠ .new → h'.key = h.key
  values : h.state = .deleted → h'.values = h.values
  columns : h.columns <+: h'.columns

theorem Later.refl (h : Handle) : h.Later h :=
  ⟨rfl, le_refl _, fun _ => rfl, fun _ => rfl, List.prefix_refl _⟩

theorem Later.of_values (hentity : h'.entity = h.entity) (hstate : h.state.rank ≤ h'.state.rank)
    (hvalues : h'.values = h.values) : h.Later h' where
  entity := hentity
  state := hstate
  key _ := by simp only [Handle.key, value?, keyName, hvalues, hentity]
  values _ := hvalues
  columns := by rw [Handle.columns, Handle.columns, hvalues]

theorem Later.not_new (hl : h.Later h') (hn : h.state ≠ .new) : h'.state ≠ .new := by
  have hle := hl.state
  rw [Ne, ← RecordState.rank_eq_zero] at hn ⊢
  omega

theorem Later.deleted (hl : h.Later h') (hd : h.state = .deleted) : h'.state = .deleted := by
  have hle := hl.state
  have hmost := h'.state.rank_le
  rw [← RecordState.rank_eq_two] at hd ⊢
  omega

theorem Later.trans (hl : h.Later h') (hl' : h'.Later h'') : h.Later h'' where
  entity := hl'.entity.trans hl.entity
  state := hl.state.trans hl'.state
  key hn := (hl'.key (hl.not_new hn)).trans (hl.key hn)
  values hd := (hl'.values (hl.deleted hd)).trans (hl.values hd)
  columns := hl.columns.trans hl'.columns

/-! ## Making handles -/

theorem give_eq_ok : h.give column v = .ok h' ↔ column ∈ h.columns ∧
    h' = { h with
      values := Entries.put column v h.values
      dirty := if h.state = .new then markDirty column h.dirty else h.dirty } := by
  rw [give, value?, columns, ← Entries.isSome_get?]
  split
  case isTrue hsome => simp [hsome, eq_comm]
  case isFalse hnone => simp [hnone, unknown]

theorem mem_markDirty {c : String} {dirty : List String} :
    c ∈ markDirty column dirty ↔ c ∈ dirty ∨ c = column := by
  rw [markDirty]
  split
  · constructor
    · exact Or.inl
    · rintro (hc | rfl)
      · exact hc
      · assumption
  · simp

theorem fits_blank (e : Entity) (state : RecordState) : (blank e state).Fits where
  columns := by simp [columns, blank, Function.comp_def]
  dirty := List.forall_mem_nil _

theorem Fits.put (hf : h.Fits) (hc : column ∈ h.columns) {dirty : List String}
    {related : List (String × Related)}
    (hd : ∀ c ∈ dirty, c ∈ h.dirty ∨ c = column) :
    Fits { h with values := Entries.put column v h.values, dirty, related } where
  columns := (Entries.map_fst_put hc).trans hf.columns
  dirty c hin := by
    rcases hd c hin with hin | rfl
    · exact hf.dirty c hin
    · exact hf.columns ▸ hc

/-- A handle that was just given out. -/
structure Begins (e : Entity) (started : RecordState) (h : Handle) : Prop where
  entity : h.entity = e
  state : h.state = started
  fits : h.Fits
  clean : started ≠ .new → h.dirty = []

theorem begins_give (hb : Begins e state h) (hg : h.give column v = .ok h') :
    Begins e state h' := by
  obtain ⟨hc, rfl⟩ := give_eq_ok.1 hg
  refine ⟨hb.entity, hb.state, hb.fits.put hc fun c hin => ?_, fun hn => ?_⟩
  · split at hin
    · exact mem_markDirty.1 hin
    · exact Or.inl hin
  · dsimp only
    rw [hb.state, if_neg hn]
    exact hb.clean hn

theorem begins_gives {g : Handle} (hg : Begins e state g)
    (hrun : values.foldlM (fun g (column, v) => g.give column v) g = .ok h) : Begins e state h := by
  induction values generalizing g with
  | nil =>
    cases hrun
    exact hg
  | cons x rest ih =>
    rw [List.foldlM_cons, Outcome.bind_eq_ok] at hrun
    obtain ⟨g', hgive, hrun⟩ := hrun
    exact ih (begins_give hg hgive) hrun

theorem begins_make (hm : make e values state = .ok h) : Begins e state h :=
  begins_gives ⟨rfl, rfl, fits_blank e state, fun _ => rfl⟩ hm

theorem related_gives {g : Handle}
    (hrun : values.foldlM (fun g (column, v) => g.give column v) g = .ok h) :
    h.related = g.related := by
  induction values generalizing g with
  | nil =>
    cases hrun
    rfl
  | cons x rest ih =>
    rw [List.foldlM_cons, Outcome.bind_eq_ok] at hrun
    obtain ⟨g', hgive, hrun⟩ := hrun
    obtain ⟨-, rfl⟩ := give_eq_ok.1 hgive
    rw [ih hrun]

theorem related_make (hm : make e values state = .ok h) : h.related = [] := related_gives hm

/-! ## Transitions -/

theorem set_eq_ok : h.set column v = .ok h' ↔ h.state ≠ .deleted ∧ column ∈ h.columns ∧
    ¬(column = h.keyName ∧ h.state = .persisted) ∧
    h' = { h with
      values := Entries.put column v h.values
      dirty := markDirty column h.dirty
      related := Entries.erase column h.related } := by
  rw [columns, ← Entries.isSome_get?, ← value?]
  by_cases hd : h.state = .deleted
  · simp [set, ensureWritable, hd, bind, Except.bind]
  cases hv : h.value? column with
  | none => simp [set, ensureWritable, get, hd, hv, unknown, bind, Except.bind]
  | some old =>
    simp only [set, ensureWritable, get, hd, hv, bind, Except.bind, if_false]
    split
    case isTrue hk => simp [hk]
    case isFalse hk =>
      rw [Except.ok.injEq, eq_comm (b := h')]
      exact ⟨fun heq => ⟨hd, rfl, hk, heq⟩, fun hall => hall.2.2.2⟩

theorem later_set (hs : h.set column v = .ok h') : h.Later h' := by
  obtain ⟨hlive, hc, hkey, rfl⟩ := set_eq_ok.1 hs
  refine ⟨rfl, le_refl _, fun hn => ?_, fun hd => absurd hd hlive, Entries.prefix_put _ _ _⟩
  have hpersisted : h.state = .persisted := by
    cases hstate : h.state <;> simp_all
  have hne : column ≠ h.keyName := fun hk => hkey ⟨hk, hpersisted⟩
  have hget : Entries.get? h.keyName (Entries.put column v h.values) = h.value? h.keyName := by
    rw [Entries.get?_put, if_neg hne, value?]
  exact congrArg (·.getD .null) hget

theorem fits_set (hf : h.Fits) (hs : h.set column v = .ok h') : h'.Fits := by
  obtain ⟨-, hc, -, rfl⟩ := set_eq_ok.1 hs
  exact hf.put hc fun _ => mem_markDirty.1

theorem prefix_puts (values before : Entries) :
    before.map (·.1) <+:
      (values.foldl (fun es (column, v) => Entries.put column v es) before).map (·.1) := by
  induction values generalizing before with
  | nil => exact List.prefix_refl _
  | cons x rest ih => exact (Entries.prefix_put x.1 x.2 before).trans (ih _)

theorem map_fst_puts {values before : Entries}
    (hv : ∀ c ∈ values.map (·.1), c ∈ before.map (·.1)) :
    (values.foldl (fun es (column, v) => Entries.put column v es) before).map (·.1) =
      before.map (·.1) := by
  induction values generalizing before with
  | nil => rfl
  | cons x rest ih =>
    have hx : x.1 ∈ before.map (·.1) := hv x.1 (by simp)
    rw [List.foldl_cons, ih, Entries.map_fst_put hx]
    intro c hc
    rw [Entries.map_fst_put hx]
    exact hv c (by simp [List.mem_map.1 hc])

theorem later_persisted (hd : h.state ≠ .deleted) (hv : h.state = .persisted → values = []) :
    h.Later (h.persisted values) := by
  cases hstate : h.state with
  | new =>
    exact ⟨rfl, by simp [hstate, RecordState.rank], fun hn => absurd hstate hn,
      fun hd => absurd (hstate.symm.trans hd) nofun, prefix_puts values h.values⟩
  | persisted =>
    rw [hv hstate]
    exact .of_values rfl (by simp [hstate, persisted]) rfl
  | deleted => exact absurd hstate hd

theorem fits_persisted (hf : h.Fits) (hv : ∀ c ∈ values.map (·.1), c ∈ h.columns) :
    (h.persisted values).Fits :=
  ⟨(map_fst_puts hv).trans hf.columns, List.forall_mem_nil _⟩

theorem later_deleted (h : Handle) : h.Later h.deleted :=
  .of_values rfl h.state.rank_le rfl

theorem fits_deleted (hf : h.Fits) : h.deleted.Fits := ⟨hf.columns, List.forall_mem_nil _⟩

/-! ## What a record is inserted with -/

theorem mem_columns_of_leaveOut {before after : Entries} {columns : List String}
    (hr : columns.foldlM leaveOut before = .ok after) :
    ∀ c ∈ after.map (·.1), c ∈ before.map (·.1) := by
  induction columns generalizing before with
  | nil =>
    cases hr
    exact fun _ => id
  | cons column rest ih =>
    rw [List.foldlM_cons, Outcome.bind_eq_ok] at hr
    obtain ⟨middle, hout, hr⟩ := hr
    rw [leaveOut] at hout
    split at hout
    · cases hout
      intro c hc
      have hin := ih hr c hc
      rw [Entries.map_fst_erase, List.mem_filter] at hin
      exact hin.1
    · cases hout

/-- A handle that can be inserted has a column for its key, and is inserted with its columns only. -/
theorem mem_columns_of_insertion {fresh : Uuid} {i : Insertion} (hf : h.Fits)
    (hi : h.insertion fresh = .ok i) :
    h.keyName ∈ h.columns ∧ ∀ c ∈ i.values.map (·.1), c ∈ h.columns := by
  rw [insertion, Outcome.bind_eq_ok] at hi
  obtain ⟨values, hkeyed, hi⟩ := hi
  rw [Outcome.bind_eq_ok] at hi
  obtain ⟨left, hleft, hi⟩ := hi
  cases hi
  have hkey : h.keyName ∈ h.columns := by
    rw [hf.columns]
    cases hk : h.entity.key? with
    | some key =>
      rw [keyName, hk]
      have hin := List.mem_of_mem_head? hk
      exact List.mem_append_left _ (List.mem_map_of_mem (List.mem_filter.1 hin).1)
    | none =>
      rw [keyed, needsIdentifier, hk] at hkeyed
      rw [← hf.columns, columns, ← Entries.isSome_get?]
      cases hv : h.value? h.keyName with
      | some v => exact congrArg Option.isSome hv
      | none => simp [key, hv, Value.isNull] at hkeyed
  have hvalues : ∀ c ∈ values.map (·.1), c ∈ h.columns := by
    intro c hc
    rw [keyed] at hkeyed
    split at hkeyed
    · cases hkeyed
      exact hc
    split at hkeyed
    · cases hkeyed
      rcases Entries.mem_map_fst_put.1 hc with rfl | hc
      · exact hkey
      · exact hc
    split at hkeyed
    · cases hkeyed
      rw [Entries.map_fst_erase, List.mem_filter] at hc
      exact hc.1
    · cases hkeyed
  exact ⟨hkey, fun c hc => hvalues c (mem_columns_of_leaveOut hleft c hc)⟩

end Handle

end SchemaLedger
