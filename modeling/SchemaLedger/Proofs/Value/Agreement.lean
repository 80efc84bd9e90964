import SchemaLedger.Proofs.Value.Sameness

set_option autoImplicit false

/-!
# Values that agree

Two values can be the same although a truth value of one is a number in the other. They agree if they
are the same with truth values told from numbers. The order of entries does not matter to either.
-/
namespace SchemaLedger

namespace Value

variable {p q : Value → Bool}

theorem everywhereItems_iff (items : List Value) :
    everywhereItems p items = true ↔ ∀ v ∈ items, everywhere p v = true := by
  induction items with
  | nil => simp [everywhereItems]
  | cons v rest ih => simp [everywhereItems, ih]

theorem everywhereEntries_iff (entries : List (String × Value)) :
    everywhereEntries p entries = true ↔ ∀ x ∈ entries, everywhere p x.2 = true := by
  induction entries with
  | nil => simp [everywhereEntries]
  | cons x rest ih =>
    obtain ⟨name, v⟩ := x
    simp [everywhereEntries, ih]

/-! ## What the same values have in common -/

mutual

/-- A property that passes from a value to all values that are the same passes everywhere in them. -/
theorem everywhere_of_same (hp : ∀ v w : Value, v.same w = true → q w = true → p v = true)
    (v w : Value) (h : v.same w = true) (hw : everywhere q w = true) : everywhere p v = true := by
  cases v with
  | list items =>
    cases w with
    | list items' =>
      rw [everywhere, Bool.and_eq_true] at hw ⊢
      refine ⟨hp _ _ h hw.1, ?_⟩
      rw [same] at h
      exact everywhereItems_of_same hp items items' h hw.2
    | _ => simp [same] at h
  | object entries =>
    cases w with
    | object entries' =>
      rw [everywhere, Bool.and_eq_true] at hw ⊢
      refine ⟨hp _ _ h hw.1, ?_⟩
      rw [same, Bool.and_eq_true] at h
      exact everywhereEntries_of_same hp entries entries' h.2 hw.2
    | _ => simp [same] at h
  | _ =>
    refine hp _ w h ?_
    cases w with
    | list items => simp [same] at h
    | object entries => simp [same] at h
    | _ => exact hw

theorem everywhereItems_of_same (hp : ∀ v w : Value, v.same w = true → q w = true → p v = true)
    (xs ys : List Value) (h : sameItems xs ys = true) (hy : everywhereItems q ys = true) :
    everywhereItems p xs = true := by
  match xs, ys with
  | [], _ => rfl
  | v :: xs, w :: ys =>
    rw [sameItems, Bool.and_eq_true] at h
    rw [everywhereItems, Bool.and_eq_true] at hy ⊢
    exact ⟨everywhere_of_same hp v w h.1 hy.1, everywhereItems_of_same hp xs ys h.2 hy.2⟩
  | _ :: _, [] => cases h

theorem everywhereEntries_of_same (hp : ∀ v w : Value, v.same w = true → q w = true → p v = true)
    (xs ys : List (String × Value)) (h : sameEntries xs ys = true)
    (hy : everywhereEntries q ys = true) : everywhereEntries p xs = true := by
  match xs with
  | [] => rfl
  | (name, v) :: xs =>
    obtain ⟨w, hw, hvw⟩ := (sameEntries_iff _ _).1 h _ List.mem_cons_self
    rw [everywhereEntries, Bool.and_eq_true]
    refine ⟨everywhere_of_same hp v w hvw ((everywhereEntries_iff _).1 hy _ (mem_of_get? hw)),
      everywhereEntries_of_same hp xs ys ?_ hy⟩
    rw [sameEntries, Bool.and_eq_true] at h
    exact h.2

end

mutual

theorem everywhere_true (v : Value) : everywhere (fun _ => true) v = true := by
  cases v with
  | list items => rw [everywhere, everywhereItems_true items]; rfl
  | object entries => rw [everywhere, everywhereEntries_true entries]; rfl
  | _ => rfl

theorem everywhereItems_true (items : List Value) :
    everywhereItems (fun _ => true) items = true := by
  cases items with
  | nil => rfl
  | cons v rest => rw [everywhereItems, everywhere_true v, everywhereItems_true rest]; rfl

theorem everywhereEntries_true (entries : List (String × Value)) :
    everywhereEntries (fun _ => true) entries = true := by
  match entries with
  | [] => rfl
  | (name, v) :: rest => rw [everywhereEntries, everywhere_true v, everywhereEntries_true rest]; rfl

end

/-- Whatever is the same as something holds no number that is none. -/
theorem nanFree_of_same {v w : Value} (h : v.same w = true) : v.nanFree = true := by
  refine everywhere_of_same (q := fun _ => true) (fun v w h _ => ?_) v w h (everywhere_true w)
  cases v with
  | float x =>
    cases x with
    | nan => cases w <;> simp [same, sameAsInt, Double.sameNumber, Double.toInt?] at h
    | _ => rfl
  | _ => rfl

/-! ## Truth values apart from numbers -/

mutual

/-- The value with its truth values told from the numbers 0 and 1, by bytes that no document has. -/
def told : Value → Value
  | .bool b => .bytes [if b then 1 else 0]
  | .list items => .list (toldItems items)
  | .object entries => .object (toldEntries entries)
  | v => v

def toldItems : List Value → List Value
  | [] => []
  | v :: rest => told v :: toldItems rest

def toldEntries : List (String × Value) → List (String × Value)
  | [] => []
  | (name, v) :: rest => (name, told v) :: toldEntries rest

end

/-- Whether two values are the same and have their truth values in the same places. -/
def agrees (v w : Value) : Bool := v.told.same w.told

theorem toldItems_eq (items : List Value) : toldItems items = items.map told := by
  induction items with
  | nil => rfl
  | cons v rest ih => rw [toldItems, ih, List.map_cons]

theorem toldEntries_eq (entries : List (String × Value)) :
    toldEntries entries = entries.map fun x => (x.1, told x.2) := by
  induction entries with
  | nil => rfl
  | cons x rest ih => rw [toldEntries, ih, List.map_cons]

theorem map_fst_toldEntries (entries : List (String × Value)) :
    (toldEntries entries).map (·.1) = entries.map (·.1) := by
  rw [toldEntries_eq, List.map_map]
  rfl

mutual

theorem everywhere_told (hp : ∀ v : Value, p v = true → p v.told = true) (v : Value)
    (h : everywhere p v = true) : everywhere p v.told = true := by
  cases v with
  | list items =>
    rw [everywhere, Bool.and_eq_true] at h
    rw [told, everywhere, Bool.and_eq_true]
    exact ⟨hp _ h.1, everywhereItems_told hp items h.2⟩
  | object entries =>
    rw [everywhere, Bool.and_eq_true] at h
    rw [told, everywhere, Bool.and_eq_true]
    exact ⟨hp _ h.1, everywhereEntries_told hp entries h.2⟩
  | _ => exact hp _ h

theorem everywhereItems_told (hp : ∀ v : Value, p v = true → p v.told = true)
    (items : List Value) (h : everywhereItems p items = true) :
    everywhereItems p (toldItems items) = true := by
  cases items with
  | nil => rfl
  | cons v rest =>
    rw [everywhereItems, Bool.and_eq_true] at h
    rw [toldItems, everywhereItems, Bool.and_eq_true]
    exact ⟨everywhere_told hp v h.1, everywhereItems_told hp rest h.2⟩

theorem everywhereEntries_told (hp : ∀ v : Value, p v = true → p v.told = true)
    (entries : List (String × Value)) (h : everywhereEntries p entries = true) :
    everywhereEntries p (toldEntries entries) = true := by
  match entries with
  | [] => rfl
  | (name, v) :: rest =>
    rw [everywhereEntries, Bool.and_eq_true] at h
    rw [toldEntries, everywhereEntries, Bool.and_eq_true]
    exact ⟨everywhere_told hp v h.1, everywhereEntries_told hp rest h.2⟩

end

theorem wellFormed_told {v : Value} (h : v.wellFormed = true) : v.told.wellFormed = true := by
  refine everywhere_told (fun v hv => ?_) v h
  cases v with
  | object entries => rwa [told, namesOnce, map_fst_toldEntries]
  | _ => rfl

theorem nanFree_told {v : Value} (h : v.nanFree = true) : v.told.nanFree = true := by
  refine everywhere_told (fun v hv => ?_) v h
  cases v with
  | float x => exact hv
  | _ => rfl

theorem agrees_trans {u v w : Value} (h : u.agrees v = true) (h' : v.agrees w = true) :
    u.agrees w = true := same_trans _ _ _ h h'

theorem agrees_symm {v w : Value} (hv : v.wellFormed = true) (hw : w.wellFormed = true)
    (h : v.agrees w = true) : w.agrees v = true :=
  same_symm _ _ (wellFormed_told hv) (wellFormed_told hw) h

theorem agrees_self {v : Value} (hn : v.nanFree = true) (hw : v.wellFormed = true) :
    v.agrees v = true := same_self _ (nanFree_told hn) (wellFormed_told hw)

/-! ## Entries in order -/

/-- Entries in the order of their names. -/
def arrange {α : Type} (entries : List (String × α)) : List (String × α) :=
  entries.mergeSort fun a b => decide (a.1 ≤ b.1)

mutual

/-- The value with the entries of its objects in order. -/
def ordered : Value → Value
  | .list items => .list (orderedItems items)
  | .object entries => .object (arrange (orderedEntries entries))
  | v => v

def orderedItems : List Value → List Value
  | [] => []
  | v :: rest => ordered v :: orderedItems rest

def orderedEntries : List (String × Value) → List (String × Value)
  | [] => []
  | (name, v) :: rest => (name, ordered v) :: orderedEntries rest

end

theorem orderedItems_eq (items : List Value) : orderedItems items = items.map ordered := by
  induction items with
  | nil => rfl
  | cons v rest ih => rw [orderedItems, ih, List.map_cons]

theorem orderedEntries_eq (entries : List (String × Value)) :
    orderedEntries entries = entries.map fun x => (x.1, ordered x.2) := by
  induction entries with
  | nil => rfl
  | cons x rest ih => rw [orderedEntries, ih, List.map_cons]

theorem mem_arrange {entries : List (String × Value)} {x : String × Value} :
    x ∈ arrange entries ↔ x ∈ entries := (List.mergeSort_perm _ _).mem_iff

theorem nodup_arrange {entries : List (String × Value)} :
    ((arrange entries).map (·.1)).Nodup ↔ (entries.map (·.1)).Nodup :=
  ((List.mergeSort_perm _ _).map _).nodup_iff

theorem map_fst_orderedEntries (entries : List (String × Value)) :
    (orderedEntries entries).map (·.1) = entries.map (·.1) := by
  rw [orderedEntries_eq, List.map_map]
  rfl

/-- Contents may be replaced before or after entries are put in order. -/
theorem arrange_map {α β : Type} (f : α → β) (entries : List (String × α)) :
    (arrange entries).map (fun x => (x.1, f x.2)) = arrange (entries.map fun x => (x.1, f x.2)) :=
  List.map_mergeSort fun _ _ _ _ => rfl

mutual

theorem everywhere_ordered (hp : ∀ v : Value, p v = true → p v.ordered = true) (v : Value)
    (h : everywhere p v = true) : everywhere p v.ordered = true := by
  cases v with
  | list items =>
    rw [everywhere, Bool.and_eq_true] at h
    rw [ordered, everywhere, Bool.and_eq_true]
    refine ⟨hp _ h.1, (everywhereItems_iff _).2 ?_⟩
    rw [orderedItems_eq]
    exact List.forall_mem_map.2 (everywhere_orderedItems hp items h.2)
  | object entries =>
    rw [everywhere, Bool.and_eq_true] at h
    rw [ordered, everywhere, Bool.and_eq_true]
    refine ⟨hp _ h.1, (everywhereEntries_iff _).2 fun x hx => ?_⟩
    rw [mem_arrange, orderedEntries_eq] at hx
    obtain ⟨y, hy, rfl⟩ := List.mem_map.1 hx
    exact everywhere_orderedEntries hp entries h.2 y hy
  | _ => exact hp _ h

theorem everywhere_orderedItems (hp : ∀ v : Value, p v = true → p v.ordered = true)
    (items : List Value) (h : everywhereItems p items = true) :
    ∀ v ∈ items, everywhere p v.ordered = true := by
  match items with
  | [] => simp
  | v :: rest =>
    rw [everywhereItems, Bool.and_eq_true] at h
    exact List.forall_mem_cons.2
      ⟨everywhere_ordered hp v h.1, everywhere_orderedItems hp rest h.2⟩

theorem everywhere_orderedEntries (hp : ∀ v : Value, p v = true → p v.ordered = true)
    (entries : List (String × Value)) (h : everywhereEntries p entries = true) :
    ∀ x ∈ entries, everywhere p x.2.ordered = true := by
  match entries with
  | [] => simp
  | (name, v) :: rest =>
    rw [everywhereEntries, Bool.and_eq_true] at h
    exact List.forall_mem_cons.2
      ⟨everywhere_ordered hp v h.1, everywhere_orderedEntries hp rest h.2⟩

end

theorem wellFormed_ordered {v : Value} (h : v.wellFormed = true) : v.ordered.wellFormed = true := by
  refine everywhere_ordered (fun v hv => ?_) v h
  cases v with
  | object entries =>
    rw [namesOnce, decide_eq_true_eq] at hv
    rwa [ordered, namesOnce, decide_eq_true_eq, nodup_arrange, map_fst_orderedEntries]
  | _ => rfl

mutual

theorem told_ordered (v : Value) : v.ordered.told = v.told.ordered := by
  cases v with
  | list items =>
    rw [ordered, told, told, ordered, orderedItems_eq, toldItems_eq, toldItems_eq, orderedItems_eq,
      List.map_map, List.map_map]
    exact congrArg Value.list (List.map_congr_left (told_orderedItems items))
  | object entries =>
    rw [ordered, told, told, ordered, toldEntries_eq, arrange_map, orderedEntries_eq, toldEntries_eq,
      orderedEntries_eq, List.map_map, List.map_map]
    refine congrArg (fun es => Value.object (arrange es)) (List.map_congr_left fun x hx => ?_)
    exact congrArg (x.1, ·) (told_orderedEntries entries x hx)
  | _ => rfl

theorem told_orderedItems (items : List Value) : ∀ v ∈ items, v.ordered.told = v.told.ordered := by
  match items with
  | [] => simp
  | v :: rest => exact List.forall_mem_cons.2 ⟨told_ordered v, told_orderedItems rest⟩

theorem told_orderedEntries (entries : List (String × Value)) :
    ∀ x ∈ entries, x.2.ordered.told = x.2.told.ordered := by
  match entries with
  | [] => simp
  | (name, v) :: rest => exact List.forall_mem_cons.2 ⟨told_ordered v, told_orderedEntries rest⟩

end

mutual

/-- Putting entries in order does not change a value. -/
theorem same_ordered (v : Value) (hn : v.nanFree = true) (hw : v.wellFormed = true) :
    v.ordered.same v = true := by
  cases v with
  | list items =>
    simp only [nanFree, wellFormed, everywhere, Bool.and_eq_true] at hn hw
    rw [ordered, same]
    exact same_orderedItems items hn.2 hw.2
  | object entries =>
    simp only [nanFree, wellFormed, everywhere, Bool.and_eq_true] at hn hw
    rw [ordered, same, Bool.and_eq_true, decide_eq_true_eq]
    refine ⟨?_, (sameEntries_iff _ _).2 fun x hx => ?_⟩
    · rw [arrange, List.length_mergeSort, orderedEntries_eq, List.length_map]
    · rw [mem_arrange, orderedEntries_eq] at hx
      obtain ⟨y, hy, rfl⟩ := List.mem_map.1 hx
      exact ⟨y.2, Entries.get?_of_mem (of_decide_eq_true hw.1) hy, same_orderedEntries entries hn.2 hw.2 y hy⟩
  | _ => exact same_self _ hn hw

theorem same_orderedItems (items : List Value) (hn : everywhereItems (!isNan ·) items = true)
    (hw : everywhereItems namesOnce items = true) : sameItems (orderedItems items) items = true := by
  match items with
  | [] => rfl
  | v :: rest =>
    rw [everywhereItems, Bool.and_eq_true] at hn hw
    rw [orderedItems, sameItems, Bool.and_eq_true]
    exact ⟨same_ordered v hn.1 hw.1, same_orderedItems rest hn.2 hw.2⟩

theorem same_orderedEntries (entries : List (String × Value))
    (hn : everywhereEntries (!isNan ·) entries = true)
    (hw : everywhereEntries namesOnce entries = true) :
    ∀ x ∈ entries, x.2.ordered.same x.2 = true := by
  match entries with
  | [] => simp
  | (name, v) :: rest =>
    rw [everywhereEntries, Bool.and_eq_true] at hn hw
    exact List.forall_mem_cons.2
      ⟨same_ordered v hn.1 hw.1, same_orderedEntries rest hn.2 hw.2⟩

end

theorem agrees_ordered {v : Value} (hn : v.nanFree = true) (hw : v.wellFormed = true) :
    v.ordered.agrees v = true := by
  rw [agrees, told_ordered]
  exact same_ordered _ (nanFree_told hn) (wellFormed_told hw)

end Value

end SchemaLedger
