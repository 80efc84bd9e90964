import SchemaLedger.Proofs.Record.Handle
import SchemaLedger.Proofs.Schema.Soundness
import SchemaLedger.Proofs.Value.Sameness

set_option autoImplicit false

/-!
# What new records are inserted with

The values of a new handle column by column: where each comes from while the handle is made and
assigned, and which of them an insertion takes over, leaves to a default or leaves to the database.
-/
namespace SchemaLedger.Handle

variable {e : Entity} {h h' : Handle} {values : Entries} {state : RecordState}
  {column : String} {v : Value} {key : Field} {fresh : Uuid} {i : Insertion}

/-! ## Values that were given -/

/-- Columns that were never assigned hold null. -/
def Untouched (h : Handle) : Prop := ∀ column ∉ h.dirty, (h.value? column).getD .null = .null

theorem give_fold {g : Handle} (hd : (values.map (·.1)).Nodup)
    (hv : ∀ c ∈ values.map (·.1), c ∈ g.columns) :
    ∃ h, values.foldlM (fun g (column, v) => g.give column v) g = .ok h ∧
      ∀ column, h.value? column = (Entries.get? column values).or (g.value? column) := by
  induction values generalizing g with
  | nil => exact ⟨g, rfl, fun _ => rfl⟩
  | cons x rest ih =>
    obtain ⟨hx, hd⟩ := List.nodup_cons.1 hd
    obtain ⟨hin, hrest⟩ := List.forall_mem_cons.1 hv
    have hcolumns : (Entries.put x.1 x.2 g.values).map (·.1) = g.columns := Entries.map_fst_put hin
    obtain ⟨h, hfold, hvalue⟩ := ih (g := { g with
      values := Entries.put x.1 x.2 g.values
      dirty := if g.state = .new then markDirty x.1 g.dirty else g.dirty }) hd
      fun c hc => by
        rw [Handle.columns, hcolumns]
        exact hrest c hc
    refine ⟨h, ?_, fun column => ?_⟩
    · rw [List.foldlM_cons, Outcome.bind_eq_ok]
      exact ⟨_, give_eq_ok.2 ⟨hin, rfl⟩, hfold⟩
    · rw [hvalue, Entries.get?_cons, value?, Entries.get?_put]
      split
      case isTrue hname =>
        rw [Entries.get?_eq_none.2 (hname ▸ hx)]
        rfl
      case isFalse hname => rfl

theorem exists_make (state : RecordState) (hd : (values.map (·.1)).Nodup)
    (hv : ∀ c ∈ values.map (·.1), c ∈ e.columnNames) :
    ∃ h, make e values state = .ok h ∧
      ∀ column v, Entries.get? column values = some v → h.value? column = some v := by
  obtain ⟨h, hmake, hvalue⟩ := give_fold (g := blank e state) hd fun c hc =>
    (fits_blank e state).columns ▸ hv c hc
  exact ⟨h, hmake, fun column v hget => by rw [hvalue, hget]; rfl⟩

theorem untouched_blank (e : Entity) (state : RecordState) : (blank e state).Untouched := by
  intro column _
  rw [value?, blank]
  by_cases hc : column ∈ e.columnNames
  · rw [Entries.get?_graph (f := fun _ => Value.null) hc]
    rfl
  · rw [Entries.get?_eq_none.2 (by simpa using hc)]
    rfl

theorem Untouched.put (hu : h.Untouched) {dirty : List String} {related : List (String × Related)}
    (hd : ∀ c, c ∈ h.dirty ∨ c = column → c ∈ dirty) :
    Untouched { h with values := Entries.put column v h.values, dirty, related } := by
  intro c hc
  rw [value?, Entries.get?_put, if_neg fun heq => hc (hd c (Or.inr heq.symm))]
  exact hu c fun hin => hc (hd c (Or.inl hin))

theorem untouched_make (hm : make e values .new = .ok h) : h.Untouched := by
  have hfold : ∀ (values : Entries) (g : Handle), g.state = .new → g.Untouched →
      values.foldlM (fun g (column, v) => g.give column v) g = .ok h → h.Untouched := by
    intro values
    induction values with
    | nil =>
      rintro g - hg hrun
      cases hrun
      exact hg
    | cons x rest ih =>
      rintro g hstate hg hrun
      rw [List.foldlM_cons, Outcome.bind_eq_ok] at hrun
      obtain ⟨g', hgive, hrun⟩ := hrun
      obtain ⟨-, rfl⟩ := give_eq_ok.1 hgive
      refine ih _ ?_ ?_ hrun
      · exact hstate
      · refine hg.put fun c hc => ?_
        rw [if_pos hstate]
        exact mem_markDirty.2 hc
  exact hfold values _ rfl (untouched_blank e .new) hm

theorem untouched_set (hu : h.Untouched) (hs : h.set column v = .ok h') : h'.Untouched := by
  obtain ⟨-, -, -, rfl⟩ := set_eq_ok.1 hs
  exact hu.put fun c hc => mem_markDirty.2 hc

/-! ## Columns that are left out -/

/-- A column with a default that was never assigned. -/
def Leaves (h : Handle) (column : String) : Prop :=
  column ∉ h.dirty ∧ ∃ f ∈ h.entity.fields, f.name = column ∧ f.hasDefault = true

instance decidableLeaves (h : Handle) (column : String) : Decidable (h.Leaves column) :=
  inferInstanceAs (Decidable (_ ∧ _))

theorem get?_leaveOut {before after : Entries} {columns : List String}
    (hr : columns.foldlM leaveOut before = .ok after) (c : String) :
    Entries.get? c after = if c ∈ columns then none else Entries.get? c before := by
  induction columns generalizing before with
  | nil =>
    cases hr
    rfl
  | cons column rest ih =>
    rw [List.foldlM_cons, Outcome.bind_eq_ok] at hr
    obtain ⟨middle, hout, hr⟩ := hr
    rw [leaveOut] at hout
    split at hout
    · cases hout
      rw [ih hr, Entries.get?_erase]
      by_cases hc : c ∈ rest
      · rw [if_pos hc, if_pos (List.mem_cons_of_mem _ hc)]
      · rw [if_neg hc]
        by_cases heq : column = c
        · rw [if_pos heq, if_pos (heq ▸ List.mem_cons_self)]
        · rw [if_neg heq, if_neg fun hin => (List.mem_cons.1 hin).elim (fun h => heq h.symm) hc]
    · cases hout

theorem sublist_leaveOut {before after : Entries} {columns : List String}
    (hr : columns.foldlM leaveOut before = .ok after) : after.Sublist before := by
  induction columns generalizing before with
  | nil =>
    cases hr
    exact List.Sublist.refl _
  | cons column rest ih =>
    rw [List.foldlM_cons, Outcome.bind_eq_ok] at hr
    obtain ⟨middle, hout, hr⟩ := hr
    rw [leaveOut] at hout
    split at hout
    · cases hout
      exact (ih hr).trans List.filter_sublist
    · cases hout

/-- Columns can be left out of values that have them. -/
theorem exists_leaveOut_iff {before : Entries} {columns : List String} (hd : columns.Nodup) :
    (∃ after, columns.foldlM leaveOut before = .ok after) ↔
      ∀ c ∈ columns, c ∈ before.map (·.1) := by
  induction columns generalizing before with
  | nil => exact iff_of_true ⟨before, rfl⟩ (List.forall_mem_nil _)
  | cons column rest ih =>
    obtain ⟨hnotin, hd⟩ := List.nodup_cons.1 hd
    rw [List.foldlM_cons, Outcome.exists_bind_iff, List.forall_mem_cons]
    constructor
    · rintro ⟨middle, hout, hrest⟩
      rw [leaveOut] at hout
      split at hout
      case isTrue hsome =>
        cases hout
        refine ⟨Entries.isSome_get?.1 hsome, fun c hc => ?_⟩
        have hin := (ih hd).1 hrest c hc
        rw [Entries.map_fst_erase, List.mem_filter] at hin
        exact hin.1
      case isFalse hnone => cases hout
    · rintro ⟨hin, hrest⟩
      refine ⟨Entries.erase column before, ?_, (ih hd).2 fun c hc => ?_⟩
      · rw [leaveOut, if_pos (Entries.isSome_get?.2 hin)]
      · rw [Entries.map_fst_erase, List.mem_filter]
        exact ⟨hrest c hc, by simpa using fun heq : c = column => hnotin (heq ▸ hc)⟩

/-! ## Values that are inserted -/

theorem keyName_eq (hk : h.entity.key? = some key) : h.keyName = key.name := by
  rw [keyName, hk]

/-- A key that is not null is the value of its column. -/
theorem value?_key (hk : h.entity.key? = some key) (hkey : h.key ≠ .null) :
    h.value? key.name = some h.key := by
  rw [Handle.key, keyName_eq hk] at hkey ⊢
  cases hvalue : h.value? key.name with
  | none => exact absurd (by rw [hvalue]; rfl) hkey
  | some v => rfl

/-- The key that a record is inserted with: its own, an identifier that was made up for it, or none if
the database counts. -/
inductive Keyed (h : Handle) (key : Field) (fresh : Uuid) : Option Value → Prop
  | own (hkey : h.key ≠ .null) : Keyed h key fresh (some h.key)
  | identifier (hkey : h.key = .null) (hauto : key.auto = true) (htype : key.type = .uuid) :
    Keyed h key fresh (some (.uuid fresh))
  | counted (hkey : h.key = .null) (hauto : key.auto = true) (htype : key.type ≠ .uuid) :
    Keyed h key fresh none

theorem keyed_eq_ok (hk : h.entity.key? = some key) (hr : h.keyed fresh = .ok values) :
    h.Keyed key fresh (Entries.get? key.name values) ∧
      (∀ column ≠ key.name, Entries.get? column values = h.value? column) ∧
      (key.name ∈ h.columns → (values.map (·.1)).Sublist h.columns) := by
  have hneeds : h.needsIdentifier = (h.key.isNull && (key.auto && decide (key.type = .uuid))) := by
    rw [needsIdentifier, hk]
    rfl
  rw [keyed, hneeds, hk, keyName_eq hk] at hr
  split at hr
  case isTrue hsome =>
    cases hr
    have hkey : h.key ≠ .null := fun hnull => by simp [hnull, Value.isNull] at hsome
    refine ⟨?_, fun _ _ => rfl, fun _ => List.Sublist.refl _⟩
    rw [← value?, value?_key hk hkey]
    exact .own hkey
  case isFalse hnone =>
    have hkey : h.key = .null := Value.isNull_iff.1 (by simpa using hnone)
    split at hr
    case isTrue huuid =>
      cases hr
      rw [hkey] at huuid
      simp only [Value.isNull, Bool.true_and, Bool.and_eq_true, decide_eq_true_eq] at huuid
      refine ⟨?_, fun column hc => ?_, fun hin => ?_⟩
      · rw [Entries.get?_put_self]
        exact .identifier hkey huuid.1 huuid.2
      · rw [Entries.get?_put, if_neg (Ne.symm hc), value?]
      · rw [Entries.map_fst_put hin]
        exact List.Sublist.refl _
    case isFalse huuid =>
      split at hr
      case isTrue hauto =>
        cases hr
        replace hauto : key.auto = true := hauto
        rw [hkey, hauto] at huuid
        simp only [Value.isNull, Bool.true_and, decide_eq_true_eq] at huuid
        refine ⟨?_, fun column hc => ?_, fun _ => ?_⟩
        · rw [Entries.get?_erase, if_pos rfl]
          exact .counted hkey hauto huuid
        · rw [Entries.get?_erase, if_neg (Ne.symm hc), value?]
        · rw [Entries.map_fst_erase]
          exact List.filter_sublist
      case isFalse hauto => cases hr

section Inserting

variable (hsound : h.entity.Sound) (hu : h.Untouched) (hk : h.entity.key? = some key)

include hk in
theorem exists_keyed (hkey : h.key ≠ .null ∨ key.auto = true) :
    ∃ values, h.keyed fresh = .ok values := by
  rw [keyed, hk]
  split
  · exact ⟨_, rfl⟩
  case isFalse hnull =>
    have hauto := hkey.resolve_left fun hne => hne (Value.isNull_iff.1 (by simpa using hnull))
    split
    · exact ⟨_, rfl⟩
    · exact ⟨_, if_pos hauto⟩

include hsound hu hk

/-- A key that is inserted is not left to a default. -/
theorem Keyed.not_leaves (hkeyed : h.Keyed key fresh (some v)) : ¬h.Leaves key.name := by
  rintro ⟨hclean, f, hf, hname, hdefault⟩
  obtain rfl := List.inj_on_of_nodup_map hsound.fieldNames hf
    (List.mem_filter.1 (List.mem_of_mem_head? hk)).1 hname
  cases hkeyed with
  | own hne =>
    rw [Handle.key, keyName_eq hk] at hne
    exact hne (hu f.name hclean)
  | identifier _ _ htype =>
    have hcheck := (hsound.fields f hf).default
    rw [Field.hasDefault, Bool.not_eq_true'] at hdefault
    rw [Field.check, hdefault, htype, if_neg Bool.false_ne_true] at hcheck
    cases hcheck

theorem leavesDefault_iff (hr : h.keyed fresh = .ok values) {f : Field}
    (hf : f ∈ h.entity.fields) : h.leavesDefault values f = true ↔ h.Leaves f.name := by
  rw [leavesDefault, Bool.and_eq_true, Bool.and_eq_true]
  constructor
  · rintro ⟨⟨hdefault, hclean⟩, -⟩
    exact ⟨by simpa using hclean, f, hf, rfl, hdefault⟩
  · intro hleaves
    obtain ⟨hclean, g, hg, hname, hdefault⟩ := id hleaves
    obtain rfl := List.inj_on_of_nodup_map hsound.fieldNames hg hf hname
    refine ⟨⟨hdefault, by simpa using hclean⟩, Value.isNull_iff.2 ?_⟩
    obtain ⟨hkeyed, hothers, -⟩ := keyed_eq_ok hk hr
    by_cases hc : g.name = key.name
    · cases hget : Entries.get? key.name values with
      | none => rw [hc, hget]; rfl
      | some v => exact absurd (hc ▸ hleaves) (Keyed.not_leaves hsound hu hk (hget ▸ hkeyed))
    · rw [hothers g.name hc, hu g.name hclean]

theorem mem_defaulted (hr : h.keyed fresh = .ok values) (column : String) :
    column ∈ (h.entity.fields.filter (h.leavesDefault values)).map (·.name) ↔ h.Leaves column := by
  rw [List.mem_map]
  constructor
  · rintro ⟨f, hf, rfl⟩
    obtain ⟨hf, hleaves⟩ := List.mem_filter.1 hf
    exact (leavesDefault_iff hsound hu hk hr hf).1 hleaves
  · intro hleaves
    obtain ⟨-, f, hf, rfl, -⟩ := id hleaves
    exact ⟨f, List.mem_filter.2 ⟨hf, (leavesDefault_iff hsound hu hk hr hf).2 hleaves⟩, rfl⟩

/-- A key that the database counts and that is left to a default is left out twice, which fails. -/
theorem leaves_key_of_insertion (hi : h.insertion fresh = .ok i) : ¬h.Leaves key.name := by
  obtain ⟨values, hkeyed, hi⟩ := (Outcome.bind_eq_ok _ _ _).1 hi
  obtain ⟨left, hleft, -⟩ := (Outcome.bind_eq_ok _ _ _).1 hi
  intro hleaves
  have hnames := hsound.fieldNames.sublist
    ((List.filter_sublist (p := h.leavesDefault values)).map _)
  have hin := (exists_leaveOut_iff hnames).1 ⟨left, hleft⟩ key.name
    ((mem_defaulted hsound hu hk hkeyed key.name).2 hleaves)
  obtain ⟨v, hv⟩ := Option.isSome_iff_exists.1 (Entries.isSome_get?.2 hin)
  exact Keyed.not_leaves hsound hu hk (hv ▸ (keyed_eq_ok hk hkeyed).1) hleaves

theorem exists_insertion_iff (hf : h.Fits) (hkey : h.key ≠ .null ∨ key.auto = true) :
    (∃ i, h.insertion fresh = .ok i) ↔ ¬h.Leaves key.name := by
  constructor
  · rintro ⟨i, hi⟩
    exact leaves_key_of_insertion hsound hu hk hi
  · intro hkept
    obtain ⟨values, hkeyed⟩ : ∃ values, h.keyed fresh = .ok values := exists_keyed hk hkey
    obtain ⟨-, hothers, -⟩ := keyed_eq_ok hk hkeyed
    have hnames := hsound.fieldNames.sublist
      ((List.filter_sublist (p := h.leavesDefault values)).map _)
    obtain ⟨left, hleft⟩ := (exists_leaveOut_iff hnames).2 fun column hc => by
      have hleaves := (mem_defaulted hsound hu hk hkeyed column).1 hc
      obtain ⟨f, hfield, rfl⟩ := List.mem_map.1 hc
      rw [← Entries.isSome_get?, hothers f.name fun heq => hkept (heq ▸ hleaves), value?,
        Entries.isSome_get?, show h.values.map (·.1) = h.entity.columnNames from hf.columns]
      exact List.mem_append_left _ (List.mem_map_of_mem (List.mem_of_mem_filter hfield))
    exact ⟨_, (Outcome.bind_eq_ok _ _ _).2 ⟨values, hkeyed,
      (Outcome.bind_eq_ok _ _ _).2 ⟨left, hleft, rfl⟩⟩⟩

theorem insertion_eq_ok (hf : h.Fits) (hi : h.insertion fresh = .ok i) :
    h.Keyed key fresh (Entries.get? key.name i.values) ∧
      (∀ column ≠ key.name, (column ∈ i.defaulted ↔ h.Leaves column) ∧
        Entries.get? column i.values =
          if column ∈ i.defaulted then none else h.value? column) ∧
      key.name ∉ i.defaulted ∧ (i.values.map (·.1)).Sublist h.columns := by
  have hkept := leaves_key_of_insertion hsound hu hk hi
  obtain ⟨values, hkeyed, hi⟩ := (Outcome.bind_eq_ok _ _ _).1 hi
  obtain ⟨left, hleft, hi⟩ := (Outcome.bind_eq_ok _ _ _).1 hi
  cases hi
  obtain ⟨hkey, hothers, hsublist⟩ := keyed_eq_ok hk hkeyed
  have hmem := mem_defaulted hsound hu hk hkeyed
  refine ⟨?_, fun column hc => ⟨hmem column, ?_⟩, mt (hmem _).1 hkept, ?_⟩
  · rw [get?_leaveOut hleft, if_neg (mt (hmem _).1 hkept)]
    exact hkey
  · rw [get?_leaveOut hleft, hothers column hc]
  · have hin : key.name ∈ h.columns := by
      rw [hf.columns]
      exact List.mem_append_left _
        (List.mem_map_of_mem (List.mem_filter.1 (List.mem_of_mem_head? hk)).1)
    exact ((sublist_leaveOut hleft).map _).trans (hsublist hin)

end Inserting

/-- The value that a column of a new record is inserted with. It has none if it is left to its default,
or if it is a key that the database counts. -/
def given? (h : Handle) (key : Field) (fresh : Uuid) (column : String) : Option Value :=
  if h.Leaves column then none
  else if column = key.name ∧ h.key.isNull then
    if key.type = .uuid then some (.uuid fresh) else none
  else h.value? column

theorem get?_insertion (hsound : h.entity.Sound) (hu : h.Untouched)
    (hk : h.entity.key? = some key) (hf : h.Fits) (hi : h.insertion fresh = .ok i)
    (column : String) : Entries.get? column i.values = h.given? key fresh column := by
  obtain ⟨hkeyed, hothers, -⟩ := insertion_eq_ok hsound hu hk hf hi
  rw [given?]
  by_cases hc : column = key.name
  · subst hc
    rw [if_neg (leaves_key_of_insertion hsound hu hk hi)]
    generalize Entries.get? key.name i.values = found at hkeyed
    cases hkeyed with
    | own hkey => rw [if_neg fun ⟨_, hnull⟩ => hkey (Value.isNull_iff.1 hnull), value?_key hk hkey]
    | identifier hkey _ htype => rw [if_pos ⟨rfl, Value.isNull_iff.2 hkey⟩, if_pos htype]
    | counted hkey _ htype => rw [if_pos ⟨rfl, Value.isNull_iff.2 hkey⟩, if_neg htype]
  · obtain ⟨hmem, hget⟩ := hothers column hc
    rw [hget, if_congr hmem rfl rfl]
    exact if_congr Iff.rfl rfl (if_neg fun ⟨heq, _⟩ => hc heq).symm

theorem defaulted_eq_nil_iff (hsound : h.entity.Sound) (hu : h.Untouched)
    (hk : h.entity.key? = some key) (hf : h.Fits) (hi : h.insertion fresh = .ok i) :
    i.defaulted = [] ↔ ∀ column, ¬h.Leaves column := by
  obtain ⟨-, hothers, hkept, -⟩ := insertion_eq_ok hsound hu hk hf hi
  rw [List.eq_nil_iff_forall_not_mem]
  refine forall_congr' fun column => not_congr ?_
  by_cases hc : column = key.name
  · subst hc
    exact iff_of_false hkept (leaves_key_of_insertion hsound hu hk hi)
  · exact (hothers column hc).1

/-! ## Values that come back -/

theorem value?_persisted {stored : Entries} (hd : (stored.map (·.1)).Nodup) :
    (h.persisted stored).value? column = (Entries.get? column stored).or (h.value? column) :=
  Entries.get?_puts hd h.values

end SchemaLedger.Handle
