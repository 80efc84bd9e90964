import Mathlib.Data.List.Nodup
import Mathlib.Data.List.Perm.Basic

set_option autoImplicit false

/-!
# Lists keyed by names

Lists in which no name stands twice, as lookups by name see them.
-/
namespace SchemaLedger.Keyed

variable {α : Type} {name : α → String} {xs ys : List α}

theorem find?_eq_some (hd : (xs.map name).Nodup) (n : String) (x : α) :
    xs.find? (fun y => name y = n) = some x ↔ x ∈ xs ∧ name x = n := by
  constructor
  · intro h
    exact ⟨List.mem_of_find?_eq_some h, by simpa using List.find?_some h⟩
  · rintro ⟨hx, hn⟩
    cases hf : xs.find? (fun y => name y = n) with
    | none => exact absurd (List.find?_eq_none.1 hf x hx) (by simp [hn])
    | some y =>
      have hy : name y = n := by simpa using List.find?_some hf
      rw [List.inj_on_of_nodup_map hd (List.mem_of_find?_eq_some hf) hx (hy.trans hn.symm)]

theorem find?_eq_none (n : String) :
    xs.find? (fun y => name y = n) = none ↔ ∀ x ∈ xs, name x ≠ n := by
  simp

theorem length_eq (hx : (xs.map name).Nodup) (hy : (ys.map name).Nodup)
    (h : ∀ n, (∃ x ∈ xs, name x = n) ↔ ∃ y ∈ ys, name y = n) : xs.length = ys.length := by
  have hperm : (xs.map name).Perm (ys.map name) := by
    rw [List.perm_ext_iff_of_nodup hx hy]
    simpa using h
  simpa using hperm.length_eq

/-- If each element on the left has a partner of its name on the right, and no more stand there, then
each on the right is the partner of one on the left. -/
theorem exists_partner {P : α → α → Prop} (hx : (xs.map name).Nodup) (hy : (ys.map name).Nodup)
    (hl : ys.length ≤ xs.length) (h : ∀ x ∈ xs, ∃ y ∈ ys, name y = name x ∧ P x y) :
    ∀ y ∈ ys, ∃ x ∈ xs, name x = name y ∧ P x y := by
  have hsub : xs.map name ⊆ ys.map name := by
    intro n hn
    obtain ⟨x, hin, rfl⟩ := List.mem_map.1 hn
    obtain ⟨y, hy, hname, -⟩ := h x hin
    exact List.mem_map.2 ⟨y, hy, hname⟩
  have hperm := (List.subperm_of_subset hx hsub).perm_of_length_le (by simpa using hl)
  intro y hin
  obtain ⟨x, hxin, hname⟩ := List.mem_map.1 (hperm.symm.subset (List.mem_map_of_mem hin))
  obtain ⟨z, hz, hzname, hP⟩ := h x hxin
  obtain rfl := List.inj_on_of_nodup_map hy hz hin (hzname.trans hname)
  exact ⟨x, hxin, hname, hP⟩

/-- An element and all that are not of its name. -/
theorem perm_cons_filter (hd : (xs.map name).Nodup) {x : α} (hx : x ∈ xs) :
    xs.Perm (x :: xs.filter (name · ≠ name x)) := by
  induction xs with
  | nil => cases hx
  | cons y rest ih =>
    obtain ⟨hy, hrest⟩ := List.nodup_cons.1 hd
    rcases List.mem_cons.1 hx with rfl | hx
    · have hkeep : rest.filter (name · ≠ name x) = rest := by
        refine List.filter_eq_self.2 fun z hz => decide_eq_true fun hn => hy ?_
        exact hn ▸ List.mem_map_of_mem hz
      rw [List.filter_cons, if_neg (by simp), hkeep]
    · have hne : name y ≠ name x := fun hn => hy (hn ▸ List.mem_map_of_mem hx)
      rw [List.filter_cons, if_pos (by simpa using hne)]
      exact ((ih hrest hx).cons y).trans (.swap _ _ _)

/-- An element that took the place of another is found in its own name, and gives the place back. -/
theorem map_replace_back {x y : α} (hx : x ∈ xs) (z : α)
    (hd : ((xs.map fun u => if name u = name x then y else u).map name).Nodup) :
    (xs.map fun u => if name u = name x then y else u).map
        (fun u => if name u = name y then z else u) =
      xs.map fun u => if name u = name x then z else u := by
  rw [List.map_map] at hd ⊢
  refine List.map_congr_left fun u hu => ?_
  by_cases hn : name u = name x
  · simp [hn]
  · have hne : name u ≠ name y := by
      intro hy
      have hux : u = x := List.inj_on_of_nodup_map hd hu hx (by
        rw [Function.comp, Function.comp, if_neg hn, if_pos rfl, hy])
      exact hn (hux ▸ rfl)
    simp [hn, hne]

end SchemaLedger.Keyed
