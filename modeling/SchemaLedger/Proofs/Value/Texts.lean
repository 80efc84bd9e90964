import Mathlib.Data.Finset.Max
import SchemaLedger.Proofs.Value.Agreement

set_option autoImplicit false

/-!
# Texts and names in a value

Values that are the same hold the same texts and names. So if all of them are replaced by a function
that never gains weight, and the value stays the same, none of them was changed.
-/
namespace SchemaLedger

namespace Value

mutual

/-- The texts in a value and the names of its entries. -/
def texts : Value → List String
  | .text s => [s]
  | .list items => textsItems items
  | .object entries => textsEntries entries
  | _ => []

def textsItems : List Value → List String
  | [] => []
  | v :: rest => texts v ++ textsItems rest

def textsEntries : List (String × Value) → List String
  | [] => []
  | (name, v) :: rest => name :: (texts v ++ textsEntries rest)

end

theorem textsEntries_eq (entries : List (String × Value)) :
    textsEntries entries = entries.flatMap fun x => x.1 :: texts x.2 := by
  induction entries with
  | nil => rfl
  | cons x rest ih => rw [textsEntries, ih, List.flatMap_cons, List.cons_append]

mutual

theorem texts_told (v : Value) : texts v.told = texts v := by
  cases v with
  | list items => exact texts_toldItems items
  | object entries => exact texts_toldEntries entries
  | _ => rfl

theorem texts_toldItems (items : List Value) : textsItems (toldItems items) = textsItems items := by
  match items with
  | [] => rfl
  | v :: rest => rw [toldItems, textsItems, textsItems, texts_told v, texts_toldItems rest]

theorem texts_toldEntries (entries : List (String × Value)) :
    textsEntries (toldEntries entries) = textsEntries entries := by
  match entries with
  | [] => rfl
  | (name, v) :: rest =>
    rw [toldEntries, textsEntries, textsEntries, texts_told v, texts_toldEntries rest]

end

theorem append_subset {α : Type} {xs ys xs' ys' : List α} (hx : xs ⊆ xs') (hy : ys ⊆ ys') :
    xs ++ ys ⊆ xs' ++ ys' :=
  List.append_subset.2 ⟨List.subset_append_of_subset_left _ hx, List.subset_append_of_subset_right _ hy⟩

mutual

theorem texts_of_same (v w : Value) (h : v.same w = true) : texts v ⊆ texts w := by
  cases v with
  | text s =>
    cases w with
    | text s' =>
      obtain rfl : s = s' := by simpa [same] using h
      exact List.Subset.refl _
    | _ => simp [same] at h
  | list items =>
    cases w with
    | list items' =>
      rw [same] at h
      exact textsItems_of_same items items' h
    | _ => simp [same] at h
  | object entries =>
    cases w with
    | object entries' =>
      rw [same, Bool.and_eq_true] at h
      exact textsEntries_of_same entries entries' h.2
    | _ => simp [same] at h
  | _ => exact List.nil_subset _

theorem textsItems_of_same (xs ys : List Value) (h : sameItems xs ys = true) :
    textsItems xs ⊆ textsItems ys := by
  match xs, ys with
  | [], _ => exact List.nil_subset _
  | v :: xs, w :: ys =>
    rw [sameItems, Bool.and_eq_true] at h
    rw [textsItems, textsItems]
    exact append_subset (texts_of_same v w h.1) (textsItems_of_same xs ys h.2)
  | _ :: _, [] => cases h

theorem textsEntries_of_same (xs ys : List (String × Value)) (h : sameEntries xs ys = true) :
    textsEntries xs ⊆ textsEntries ys := by
  match xs with
  | [] => exact List.nil_subset _
  | (name, v) :: xs =>
    obtain ⟨w, hw, hvw⟩ := (sameEntries_iff _ _).1 h _ List.mem_cons_self
    have hentry : name :: texts w ⊆ textsEntries ys := by
      rw [textsEntries_eq]
      exact fun s hs => List.mem_flatMap.2 ⟨_, mem_of_get? hw, hs⟩
    rw [textsEntries]
    rw [sameEntries, Bool.and_eq_true] at h
    exact List.cons_subset.2 ⟨hentry List.mem_cons_self, List.append_subset.2
      ⟨List.Subset.trans (texts_of_same v w hvw) (List.cons_subset.1 hentry).2,
        textsEntries_of_same xs ys h.2⟩⟩

end

/-- Values that agree hold the same texts. -/
theorem texts_of_agrees {v w : Value} (h : v.agrees w = true) : texts v ⊆ texts w := by
  have hsubset := texts_of_same v.told w.told h
  rwa [texts_told, texts_told] at hsubset

/-! ## Texts replaced -/

variable {g : String → String}

mutual

/-- The value with its texts and names replaced. -/
def mapTexts (g : String → String) : Value → Value
  | .text s => .text (g s)
  | .list items => .list (mapTextsItems g items)
  | .object entries => .object (mapTextsEntries g entries)
  | v => v

def mapTextsItems (g : String → String) : List Value → List Value
  | [] => []
  | v :: rest => mapTexts g v :: mapTextsItems g rest

def mapTextsEntries (g : String → String) : List (String × Value) → List (String × Value)
  | [] => []
  | (name, v) :: rest => (g name, mapTexts g v) :: mapTextsEntries g rest

end

mutual

theorem texts_mapTexts (v : Value) : texts (mapTexts g v) = (texts v).map g := by
  cases v with
  | list items => exact texts_mapTextsItems items
  | object entries => exact texts_mapTextsEntries entries
  | _ => rfl

theorem texts_mapTextsItems (items : List Value) :
    textsItems (mapTextsItems g items) = (textsItems items).map g := by
  match items with
  | [] => rfl
  | v :: rest =>
    rw [mapTextsItems, textsItems, textsItems, List.map_append, texts_mapTexts v,
      texts_mapTextsItems rest]

theorem texts_mapTextsEntries (entries : List (String × Value)) :
    textsEntries (mapTextsEntries g entries) = (textsEntries entries).map g := by
  match entries with
  | [] => rfl
  | (name, v) :: rest =>
    rw [mapTextsEntries, textsEntries, textsEntries, List.map_cons, List.map_append,
      texts_mapTexts v, texts_mapTextsEntries rest]

end

mutual

theorem mapTexts_self (v : Value) (h : ∀ s ∈ texts v, g s = s) : mapTexts g v = v := by
  cases v with
  | text s => exact congrArg Value.text (h s (List.mem_singleton_self s))
  | list items => exact congrArg Value.list (mapTextsItems_self items h)
  | object entries => exact congrArg Value.object (mapTextsEntries_self entries h)
  | _ => rfl

theorem mapTextsItems_self (items : List Value) (h : ∀ s ∈ textsItems items, g s = s) :
    mapTextsItems g items = items := by
  match items with
  | [] => rfl
  | v :: rest =>
    rw [textsItems, List.forall_mem_append] at h
    rw [mapTextsItems, mapTexts_self v h.1, mapTextsItems_self rest h.2]

theorem mapTextsEntries_self (entries : List (String × Value))
    (h : ∀ s ∈ textsEntries entries, g s = s) : mapTextsEntries g entries = entries := by
  match entries with
  | [] => rfl
  | (name, v) :: rest =>
    rw [textsEntries, List.forall_mem_cons, List.forall_mem_append] at h
    rw [mapTextsEntries, h.1, mapTexts_self v h.2.1, mapTextsEntries_self rest h.2.2]

end

mutual

theorem everywhere_mapTexts {p : Value → Bool} (hp : ∀ v : Value, p v = true → p (mapTexts g v) = true)
    (v : Value) (h : everywhere p v = true) : everywhere p (mapTexts g v) = true := by
  cases v with
  | list items =>
    rw [everywhere, Bool.and_eq_true] at h
    rw [mapTexts, everywhere, Bool.and_eq_true]
    exact ⟨hp _ h.1, everywhereItems_mapTexts hp items h.2⟩
  | object entries =>
    rw [everywhere, Bool.and_eq_true] at h
    rw [mapTexts, everywhere, Bool.and_eq_true]
    exact ⟨hp _ h.1, everywhereEntries_mapTexts hp entries h.2⟩
  | _ => exact hp _ h

theorem everywhereItems_mapTexts {p : Value → Bool}
    (hp : ∀ v : Value, p v = true → p (mapTexts g v) = true) (items : List Value)
    (h : everywhereItems p items = true) : everywhereItems p (mapTextsItems g items) = true := by
  match items with
  | [] => rfl
  | v :: rest =>
    rw [everywhereItems, Bool.and_eq_true] at h
    rw [mapTextsItems, everywhereItems, Bool.and_eq_true]
    exact ⟨everywhere_mapTexts hp v h.1, everywhereItems_mapTexts hp rest h.2⟩

theorem everywhereEntries_mapTexts {p : Value → Bool}
    (hp : ∀ v : Value, p v = true → p (mapTexts g v) = true) (entries : List (String × Value))
    (h : everywhereEntries p entries = true) :
    everywhereEntries p (mapTextsEntries g entries) = true := by
  match entries with
  | [] => rfl
  | (name, v) :: rest =>
    rw [everywhereEntries, Bool.and_eq_true] at h
    rw [mapTextsEntries, everywhereEntries, Bool.and_eq_true]
    exact ⟨everywhere_mapTexts hp v h.1, everywhereEntries_mapTexts hp rest h.2⟩

end

/-! ## Functions that never gain weight -/

/-- If all elements of a list come from elements of it, and whatever is changed gets lighter, nothing
is changed: the heaviest element that is would come from a heavier one. -/
theorem fixed_of_subset_map {α β : Type} [LinearOrder β] (weight : α → β) (g : α → α)
    (hg : ∀ a, g a = a ∨ weight (g a) < weight a) {xs : List α} (h : xs ⊆ xs.map g) :
    ∀ a ∈ xs, g a = a := by
  classical
  by_contra hex
  push Not at hex
  have hne : (xs.toFinset.filter fun a => g a ≠ a).Nonempty := by
    obtain ⟨a, ha, hchanged⟩ := hex
    exact ⟨a, Finset.mem_filter.2 ⟨List.mem_toFinset.2 ha, hchanged⟩⟩
  obtain ⟨a, ha, hmax⟩ := Finset.exists_max_image _ weight hne
  rw [Finset.mem_filter, List.mem_toFinset] at ha
  obtain ⟨b, hb, hab⟩ := List.mem_map.1 (h ha.1)
  have hchanged : g b ≠ b := fun hsame => ha.2 (by rw [← hab, hsame, hsame])
  have hheavier : weight a < weight b := hab ▸ (hg b).resolve_left hchanged
  exact absurd (hmax b (Finset.mem_filter.2 ⟨List.mem_toFinset.2 hb, hchanged⟩))
    (not_le.2 hheavier)

end Value

end SchemaLedger
