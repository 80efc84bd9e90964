import Mathlib.Data.List.Induction
import Mathlib.Data.List.Infix
import SchemaLedger.Proofs.Keyed
import SchemaLedger.Value

set_option autoImplicit false

/-!
# Entries

Lookups in lists of named contents, and the names that stand in them, after one of them is put or
erased.
-/
namespace SchemaLedger.Entries

variable {α : Type} {name other : String} {content : α} {entries : List (String × α)}

theorem isSome_get? : (get? name entries).isSome ↔ name ∈ entries.map (·.1) := by
  simp [get?]

theorem get?_cons (x : String × α) (rest : List (String × α)) :
    get? name (x :: rest) = if x.1 = name then some x.2 else get? name rest := by
  rw [get?, List.find?_cons]
  split <;> simp_all [get?]

theorem get?_put : get? other (put name content entries) =
    if name = other then some content else get? other entries := by
  induction entries with
  | nil => simp [put, get?_cons]
  | cons x rest ih =>
    rw [put]
    split
    case isTrue hx =>
      rw [get?_cons, get?_cons, hx]
      split <;> rfl
    case isFalse hx =>
      rw [get?_cons, get?_cons, ih]
      grind

theorem get?_put_self (name : String) (content : α) (entries : List (String × α)) :
    get? name (put name content entries) = some content := by
  rw [get?_put, if_pos rfl]

theorem map_fst_put (h : name ∈ entries.map (·.1)) :
    (put name content entries).map (·.1) = entries.map (·.1) := by
  induction entries with
  | nil => cases h
  | cons x rest ih =>
    rw [put]
    split
    case isTrue hx => simp [hx]
    case isFalse hx =>
      have hrest : name ∈ rest.map (·.1) := by
        simpa [Ne.symm hx] using h
      rw [List.map_cons, ih hrest, List.map_cons]

theorem prefix_put (name : String) (content : α) (entries : List (String × α)) :
    entries.map (·.1) <+: (put name content entries).map (·.1) := by
  induction entries with
  | nil => exact List.nil_prefix
  | cons x rest ih =>
    rw [put]
    split
    case isTrue hx => simp [hx]
    case isFalse hx => exact List.cons_prefix_cons.2 ⟨rfl, ih⟩

theorem mem_map_fst_put : other ∈ (put name content entries).map (·.1) ↔
    other = name ∨ other ∈ entries.map (·.1) := by
  rw [← isSome_get?, get?_put, ← isSome_get?]
  split
  case isTrue hname => simp [hname]
  case isFalse hname => simp [Ne.symm hname]

theorem nodup_put (h : (entries.map (·.1)).Nodup) :
    ((put name content entries).map (·.1)).Nodup := by
  induction entries with
  | nil => exact List.pairwise_singleton _ _
  | cons x rest ih =>
    obtain ⟨hx, hrest⟩ := List.nodup_cons.1 h
    rw [put]
    split
    case isTrue hname => exact List.nodup_cons.2 ⟨hname ▸ hx, hrest⟩
    case isFalse hname =>
      refine List.nodup_cons.2 ⟨fun hin => ?_, ih hrest⟩
      exact (mem_map_fst_put.1 hin).elim hname hx

theorem get?_erase : get? other (erase name entries) =
    if name = other then none else get? other entries := by
  induction entries with
  | nil => simp [erase, get?]
  | cons x rest ih =>
    rw [erase] at ih ⊢
    rw [List.filter_cons]
    split
    case isTrue hx =>
      rw [get?_cons, get?_cons, ih]
      grind
    case isFalse hx =>
      rw [ih, get?_cons]
      grind

theorem map_fst_erase :
    (erase name entries).map (·.1) = (entries.map (·.1)).filter (· ≠ name) := by
  rw [erase, List.filter_map]
  rfl

theorem get?_eq_none : get? name entries = none ↔ name ∉ entries.map (·.1) := by
  rw [← isSome_get?, Bool.not_eq_true, Option.isSome_eq_false_iff, Option.isNone_iff_eq_none]

theorem get?_of_mem (hd : (entries.map (·.1)).Nodup) {x : String × α} (hx : x ∈ entries) :
    get? x.1 entries = some x.2 := by
  rw [get?, (Keyed.find?_eq_some hd x.1 x).2 ⟨hx, rfl⟩]
  rfl

theorem get?_graph {f : String → α} {names : List String} (h : name ∈ names) :
    get? name (names.map fun n => (n, f n)) = some (f name) := by
  induction names with
  | nil => cases h
  | cons n rest ih =>
    rw [List.map_cons, get?_cons]
    split
    case isTrue hn => rw [← hn]
    case isFalse hn => exact ih ((List.mem_cons.1 h).resolve_left fun heq => hn heq.symm)

/-- Putting entries one after the other, none of them twice. -/
theorem get?_puts {values : List (String × α)} (hd : (values.map (·.1)).Nodup)
    (before : List (String × α)) :
    get? name (values.foldl (fun es (n, a) => put n a es) before) =
      (get? name values).or (get? name before) := by
  induction values generalizing before with
  | nil => rfl
  | cons x rest ih =>
    obtain ⟨hx, hd⟩ := List.nodup_cons.1 hd
    rw [List.foldl_cons, ih hd, get?_put, get?_cons]
    split
    case isTrue hname =>
      rw [get?_eq_none.2 (hname ▸ hx)]
      rfl
    case isFalse hname => rfl

theorem put_of_notMem (h : name ∉ entries.map (·.1)) :
    put name content entries = entries ++ [(name, content)] := by
  induction entries with
  | nil => rfl
  | cons x rest ih =>
    rw [List.map_cons, List.mem_cons, not_or] at h
    rw [put, if_neg (Ne.symm h.1), ih h.2, List.cons_append]

theorem put_eq_self_iff : put name content entries = entries ↔ get? name entries = some content := by
  induction entries with
  | nil => simp [put, get?]
  | cons x rest ih =>
    obtain ⟨key, old⟩ := x
    rw [put, get?_cons]
    by_cases hkey : key = name
    · simp [hkey, eq_comm]
    · simp [hkey, ih]

theorem mem_put {x : String × α} (h : x ∈ put name content entries) :
    x = (name, content) ∨ x ∈ entries := by
  induction entries with
  | nil => exact Or.inl (List.mem_singleton.1 h)
  | cons y rest ih =>
    obtain ⟨key, old⟩ := y
    rw [put] at h
    split at h
    case isTrue => exact (List.mem_cons.1 h).imp_right (List.mem_cons_of_mem _)
    case isFalse =>
      rcases List.mem_cons.1 h with rfl | hin
      · exact Or.inr List.mem_cons_self
      · exact (ih hin).imp_right (List.mem_cons_of_mem _)

/-- Each entry was among the pairs. -/
theorem mem_ofPairs {pairs : List (String × α)} {x : String × α} (h : x ∈ ofPairs pairs) :
    x ∈ pairs := by
  induction pairs using List.reverseRecOn with
  | nil => exact h
  | append_singleton front p ih =>
    rw [ofPairs, List.foldl_append] at h
    rw [List.mem_append, List.mem_singleton]
    exact (mem_put h).symm.imp_left ih

theorem mem_map_fst_ofPairs {pairs : List (String × α)} :
    name ∈ (ofPairs pairs).map (·.1) ↔ name ∈ pairs.map (·.1) := by
  induction pairs using List.reverseRecOn with
  | nil => rfl
  | append_singleton front p ih =>
    rw [ofPairs, List.foldl_append, List.map_append, List.mem_append, ← ih]
    exact mem_map_fst_put.trans (by rw [or_comm, List.map_singleton, List.mem_singleton]; rfl)

theorem nodup_ofPairs (pairs : List (String × α)) : ((ofPairs pairs).map (·.1)).Nodup := by
  induction pairs using List.reverseRecOn with
  | nil => exact List.nodup_nil
  | append_singleton front p ih =>
    rw [ofPairs, List.foldl_append]
    exact nodup_put ih

theorem ofPairs_of_nodup (h : (entries.map (·.1)).Nodup) :
    ofPairs entries = entries := by
  have hfold : ∀ rest before : List (String × α), ((before ++ rest).map (·.1)).Nodup →
      rest.foldl (fun entries p => put p.1 p.2 entries) before = before ++ rest := by
    intro rest
    induction rest with
    | nil => simp
    | cons x rest ih =>
      intro before hb
      have hx : x.1 ∉ before.map (·.1) := by
        rw [List.map_append, List.nodup_append] at hb
        exact fun hin => hb.2.2 _ hin _ (by simp) rfl
      rw [List.foldl_cons, put_of_notMem hx, ih _ (by simpa using hb), List.append_assoc,
        List.singleton_append]
  exact hfold entries [] h

end SchemaLedger.Entries
