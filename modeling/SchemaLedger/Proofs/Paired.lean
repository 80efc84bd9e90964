import Mathlib.Data.List.Forall2
import Mathlib.Data.Option.Basic
import SchemaLedger.Proofs.Keyed
import SchemaLedger.Proofs.Outcome

set_option autoImplicit false

/-!
# Lists and computations in pairs

Two lists whose elements can be paired, each with one of the other list, and two computations that
both fail or have related results. A traversal of paired lists by related computations has paired
results, whatever the order.
-/
namespace SchemaLedger

variable {α β γ δ : Type} {R : α → β → Prop} {S : γ → δ → Prop}

theorem map_eq_map_of_forall₂ {f : α → γ} {g : β → γ} {xs : List α} {ys : List β}
    (h : List.Forall₂ (fun x y => f x = g y) xs ys) : xs.map f = ys.map g := by
  have hmaps := List.forall₂_map_left_iff.2 (List.forall₂_map_right_iff.2 h)
  rwa [List.forall₂_eq_eq_eq] at hmaps

/-- Whether the elements of two lists can be put in pairs that are related. -/
def Paired (R : α → β → Prop) (xs : List α) (ys : List β) : Prop :=
  ∃ zs, List.Forall₂ R xs zs ∧ zs.Perm ys

namespace Paired

variable {xs : List α} {ys : List β}

theorem of_perm {zs : List α} (h : xs.Perm zs) : Paired (· = ·) xs zs :=
  ⟨xs, List.forall₂_eq_eq_eq ▸ rfl, h⟩

theorem perm {zs : List α} (h : Paired (· = ·) xs zs) : xs.Perm zs := by
  obtain ⟨us, hus, hperm⟩ := h
  rw [List.forall₂_eq_eq_eq] at hus
  exact hus ▸ hperm

theorem mono {T : α → β → Prop} (h : Paired R xs ys)
    (hRT : ∀ x ∈ xs, ∀ y ∈ ys, R x y → T x y) : Paired T xs ys := by
  obtain ⟨zs, hzs, hperm⟩ := h
  refine ⟨zs, List.forall₂_iff_zip.2 ⟨hzs.length_eq, fun {x z} hin => ?_⟩, hperm⟩
  obtain ⟨hx, hz⟩ := List.of_mem_zip hin
  exact hRT x hx z (hperm.subset hz) ((List.forall₂_iff_zip.1 hzs).2 hin)

theorem refl {P : α → α → Prop} (hP : ∀ x, P x x) (xs : List α) : Paired P xs xs :=
  ⟨xs, List.forall₂_same.2 fun x _ => hP x, .refl xs⟩

theorem perm_left {us : List α} (hu : us.Perm xs) (h : Paired R xs ys) : Paired R us ys := by
  obtain ⟨zs, hzs, hperm⟩ := h
  obtain ⟨vs, hvs, hv⟩ := List.perm_comp_forall₂ hu hzs
  exact ⟨vs, hvs, hv.trans hperm⟩

theorem perm_right {vs : List β} (h : Paired R xs ys) (hv : ys.Perm vs) : Paired R xs vs := by
  obtain ⟨zs, hzs, hperm⟩ := h
  exact ⟨zs, hzs, hperm.trans hv⟩

theorem symm {T : β → α → Prop} (h : Paired R xs ys) (hRT : ∀ x y, R x y → T y x) :
    Paired T ys xs := by
  obtain ⟨zs, hzs, hperm⟩ := h
  have hback : List.Forall₂ T zs xs := (hzs.imp hRT).flip
  exact perm_left hperm.symm ⟨xs, hback, .refl xs⟩

theorem cons {x : α} {y : β} (hxy : R x y) (h : Paired R xs ys) : Paired R (x :: xs) (y :: ys) := by
  obtain ⟨zs, hzs, hperm⟩ := h
  exact ⟨y :: zs, .cons hxy hzs, hperm.cons y⟩

theorem nil : Paired R [] [] := ⟨[], .nil, .refl []⟩

theorem exists_right (h : Paired R xs ys) {x : α} (hx : x ∈ xs) : ∃ y ∈ ys, R x y := by
  obtain ⟨zs, hzs, hperm⟩ := h
  obtain ⟨i, hi, rfl⟩ := List.getElem_of_mem hx
  have hi' : i < zs.length := hzs.length_eq ▸ hi
  exact ⟨zs[i], hperm.subset (List.getElem_mem hi'), List.forall₂_iff_get.1 hzs |>.2 i hi hi'⟩

theorem exists_left (h : Paired R xs ys) {y : β} (hy : y ∈ ys) : ∃ x ∈ xs, R x y := by
  obtain ⟨zs, hzs, hperm⟩ := h
  obtain ⟨i, hi', rfl⟩ := List.getElem_of_mem (hperm.symm.subset hy)
  have hi : i < xs.length := hzs.length_eq ▸ hi'
  exact ⟨xs[i], List.getElem_mem hi, List.forall₂_iff_get.1 hzs |>.2 i hi hi'⟩

theorem map {f : α → γ} {g : β → δ} (h : Paired R xs ys) (hfg : ∀ x y, R x y → S (f x) (g y)) :
    Paired S (xs.map f) (ys.map g) := by
  obtain ⟨zs, hzs, hperm⟩ := h
  exact ⟨zs.map g, List.rel_map (fun x y hxy => hfg x y hxy) hzs, hperm.map g⟩

theorem append {xs' : List α} {ys' : List β} (h : Paired R xs ys) (h' : Paired R xs' ys') :
    Paired R (xs ++ xs') (ys ++ ys') := by
  obtain ⟨zs, hzs, hperm⟩ := h
  obtain ⟨zs', hzs', hperm'⟩ := h'
  exact ⟨zs ++ zs', List.rel_append hzs hzs', hperm.append hperm'⟩

theorem filter {p : α → Bool} {q : β → Bool} (h : Paired R xs ys)
    (hpq : ∀ x y, R x y → p x = q y) : Paired R (xs.filter p) (ys.filter q) := by
  obtain ⟨zs, hzs, hperm⟩ := h
  exact ⟨zs.filter q, List.rel_filter (fun x y hxy => by simp [hpq x y hxy]) hzs, hperm.filter q⟩

theorem filterMap {f : α → Option γ} {g : β → Option δ} (h : Paired R xs ys)
    (hfg : ∀ x y, R x y → Option.Rel S (f x) (g y)) :
    Paired S (xs.filterMap f) (ys.filterMap g) := by
  obtain ⟨zs, hzs, hperm⟩ := h
  exact ⟨zs.filterMap g, List.rel_filterMap (fun x y hxy => hfg x y hxy) hzs, hperm.filterMap g⟩

theorem flatMap {f : α → List γ} {g : β → List δ} (h : Paired R xs ys)
    (hfg : ∀ x y, R x y → Paired S (f x) (g y)) : Paired S (xs.flatMap f) (ys.flatMap g) := by
  obtain ⟨zs, hzs, hperm⟩ := h
  have hleft : Paired S (xs.flatMap f) (zs.flatMap g) := by
    clear hperm
    induction hzs with
    | nil => exact ⟨[], .nil, .refl _⟩
    | cons hxy _ ih => exact (hfg _ _ hxy).append ih
  obtain ⟨us, hus, hperm'⟩ := hleft
  exact ⟨us, hus, hperm'.trans (hperm.flatMap_right g)⟩

/-- Lists keyed by names are paired if each element on the left has a partner of its name on the
right, and no more stand there. -/
theorem of_keyed {name : α → String} {P : α → α → Prop} {us vs : List α}
    (hu : (us.map name).Nodup) (hl : vs.length ≤ us.length)
    (h : ∀ u ∈ us, ∃ v ∈ vs, name v = name u ∧ P u v) : Paired P us vs := by
  choose partner hin hname hP using h
  refine ⟨us.attach.map fun u => partner u.1 u.2, ?_, ?_⟩
  · rw [List.forall₂_map_right_iff]
    conv in us => rw [← List.attach_map_subtype_val us]
    rw [List.forall₂_map_left_iff, List.forall₂_same]
    exact fun u _ => hP u.1 u.2
  · have hnames : (us.attach.map fun u => partner u.1 u.2).map name = us.map name := by
      rw [List.map_map]
      calc us.attach.map (name ∘ fun u => partner u.1 u.2)
          = us.attach.map (fun u => name u.1) :=
            List.map_congr_left fun u _ => hname u.1 u.2
        _ = us.map name := List.attach_map_val
    refine (List.subperm_of_subset (List.Nodup.of_map name (hnames ▸ hu)) ?_).perm_of_length_le
      (by simpa using hl)
    intro v hmem
    obtain ⟨u, -, rfl⟩ := List.mem_map.1 hmem
    exact hin u.1 u.2

/-- Lookups by names in paired lists. -/
theorem find? (name : α → String) {P : α → α → Prop} {us vs : List α} (h : Paired P us vs)
    (hname : ∀ u v, P u v → name u = name v) (hu : (us.map name).Nodup) (n : String) :
    Option.Rel P (us.find? fun u => name u = n) (vs.find? fun v => name v = n) := by
  have hv : (vs.map name).Nodup :=
    (h.map (S := (· = ·)) (f := name) (g := name) hname).perm.nodup_iff.1 hu
  cases hfind : us.find? fun u => name u = n with
  | none =>
    have hnone : (vs.find? fun v => name v = n) = none := by
      rw [Keyed.find?_eq_none] at hfind ⊢
      intro v hmem
      obtain ⟨u, hum, huv⟩ := h.exists_left hmem
      exact hname u v huv ▸ hfind u hum
    rw [hnone]
    exact .none
  | some u =>
    obtain ⟨hum, hun⟩ := (Keyed.find?_eq_some hu n u).1 hfind
    obtain ⟨v, hvm, huv⟩ := h.exists_right hum
    rw [(Keyed.find?_eq_some hv n v).2 ⟨hvm, (hname u v huv).symm.trans hun⟩]
    exact .some huv

end Paired

namespace Outcome

variable {ε ε' : Type}

/-- Both fail, or both succeed and the results are related. -/
def Both (R : α → β → Prop) : Except ε α → Except ε' β → Prop
  | .ok a, .ok b => R a b
  | .error _, .error _ => True
  | _, _ => False

namespace Both

variable {x : Except ε α} {y : Except ε' β}

theorem refl {P : α → α → Prop} (x : Except ε α) (h : ∀ a, x = .ok a → P a a) : Both P x x := by
  cases x with
  | ok a => exact h a rfl
  | error e => trivial

theorem mono {T : α → β → Prop} (h : Both R x y) (hRT : ∀ a b, R a b → T a b) : Both T x y := by
  cases x <;> cases y <;> first | exact hRT _ _ h | exact h

theorem imp {T : α → β → Prop} (h : Both R x y)
    (hRT : ∀ a b, x = .ok a → R a b → T a b) : Both T x y := by
  cases x <;> cases y <;> first | exact hRT _ _ rfl h | exact h

theorem trans {ε'' : Type} {T : β → γ → Prop} {z : Except ε'' γ} (h : Both R x y)
    (h' : Both T y z) : Both (Relation.Comp R T) x z := by
  revert h h'
  cases x <;> cases y <;> cases z <;> first
    | exact fun h h' => ⟨_, h, h'⟩
    | exact fun _ _ => trivial
    | exact fun h _ => h.elim
    | exact fun _ h => h.elim

/-- Two computations with one possible result each. -/
theorem of_iff {P Q : Prop} {a : α} {b : β} (hx : ∀ a', x = .ok a' ↔ a' = a ∧ P)
    (hy : ∀ b', y = .ok b' ↔ b' = b ∧ Q) (hPQ : P ↔ Q) (h : P → R a b) : Both R x y := by
  cases x with
  | ok a' =>
    obtain ⟨rfl, hP⟩ := (hx a').1 rfl
    rw [(hy b).2 ⟨rfl, hPQ.1 hP⟩]
    exact h hP
  | error e =>
    cases y with
    | ok b' =>
      have hQ := ((hy b').1 rfl).2
      cases (hx a).2 ⟨rfl, hPQ.2 hQ⟩
    | error e' => trivial

theorem exists_ok (h : Both R x y) {a : α} (hx : x = .ok a) : ∃ b, y = .ok b ∧ R a b := by
  subst hx
  cases y with
  | ok b => exact ⟨b, rfl, h⟩
  | error e => cases h

theorem bind {f : α → Except ε γ} {g : β → Except ε' δ} (h : Both R x y)
    (hfg : ∀ a b, x = .ok a → y = .ok b → R a b → Both S (f a) (g b)) :
    Both S (x >>= f) (y >>= g) := by
  cases x with
  | ok a =>
    cases y with
    | ok b => exact hfg a b rfl rfl h
    | error e => cases h
  | error e =>
    cases y with
    | ok b => cases h
    | error e' => trivial

theorem mapM_forall₂ {f : α → Except ε γ} {g : β → Except ε' δ} {xs : List α} {ys : List β}
    (h : List.Forall₂ R xs ys) (hfg : ∀ a b, R a b → Both S (f a) (g b)) :
    Both (List.Forall₂ S) (xs.mapM f) (ys.mapM g) := by
  induction h with
  | nil => exact .nil
  | cons hab _ ih =>
    rw [List.mapM_cons, List.mapM_cons]
    refine (hfg _ _ hab).bind fun c d _ _ hcd => ih.bind fun cs ds _ _ hrest => ?_
    exact .cons hcd hrest

theorem mapM_perm {g : β → Except ε' δ} {ys zs : List β} (h : ys.Perm zs) :
    Both List.Perm (ys.mapM g) (zs.mapM g) := by
  induction h with
  | nil => exact .nil
  | cons b _ ih =>
    rw [List.mapM_cons, List.mapM_cons]
    refine (refl (P := (· = ·)) _ fun _ _ => rfl).bind fun c _ _ _ hc => ih.bind fun cs ds _ _ h => ?_
    exact hc ▸ h.cons c
  | swap a b zs =>
    simp only [List.mapM_cons]
    cases g a <;> cases g b <;> cases zs.mapM g <;> first | exact .swap _ _ _ | trivial
  | trans _ _ ih ih' => exact (ih.trans ih').mono fun _ _ ⟨_, h, h'⟩ => h.trans h'

/-- Traversals of paired lists have paired results. -/
theorem mapM {f : α → Except ε γ} {g : β → Except ε' δ} {xs : List α} {ys : List β}
    (h : Paired R xs ys) (hfg : ∀ a b, R a b → Both S (f a) (g b)) :
    Both (Paired S) (xs.mapM f) (ys.mapM g) := by
  obtain ⟨zs, hzs, hperm⟩ := h
  exact (mapM_forall₂ hzs hfg).trans (mapM_perm hperm)

end Both

end Outcome

end SchemaLedger
