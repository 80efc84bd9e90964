import Mathlib.Data.List.Nodup

set_option autoImplicit false

/-!
# Outcomes

When a computation that may fail succeeds: one lemma for each way of putting two of them together.
-/
namespace SchemaLedger.Outcome

variable {ε δ α β γ : Type}

instance decidableOk (x : Except ε Unit) : Decidable (x = .ok ()) :=
  match x with
  | .ok () => isTrue rfl
  | .error _ => isFalse nofun

theorem exists_ok {x : Except ε α} (h : x.isOk = true) : ∃ a, x = .ok a := by
  cases x with
  | error _ => cases h
  | ok a => exact ⟨a, rfl⟩

theorem bind_eq_ok (x : Except ε α) (f : α → Except ε β) (b : β) :
    x >>= f = .ok b ↔ ∃ a, x = .ok a ∧ f a = .ok b := by
  cases x with
  | error _ => simp [bind, Except.bind]
  | ok a => simp [bind, Except.bind]

theorem exists_bind_iff (x : Except ε α) (f : α → Except ε β) :
    (∃ b, x >>= f = .ok b) ↔ ∃ a, x = .ok a ∧ ∃ b, f a = .ok b := by
  simp only [bind_eq_ok]
  exact ⟨fun ⟨b, a, ha, hb⟩ => ⟨a, ha, b, hb⟩, fun ⟨a, ha, b, hb⟩ => ⟨b, a, ha, hb⟩⟩

/-- What follows a computation fails nowhere, so only the computation itself does. -/
theorem exists_bind_total_iff {x : Except ε α} {f : α → Except ε β} (h : ∀ a, ∃ b, f a = .ok b) :
    (∃ b, x >>= f = .ok b) ↔ ∃ a, x = .ok a := by
  rw [exists_bind_iff]
  exact exists_congr fun a => and_iff_left (h a)

theorem exists_map_iff (x : Except ε α) (f : α → β) :
    (∃ b, x.map f = .ok b) ↔ ∃ a, x = .ok a := by
  cases x with
  | error _ => simp [Except.map]
  | ok a => simp [Except.map]

theorem bind_eq_error (x : Except ε α) (f : α → Except ε β) (e : ε) :
    x >>= f = .error e ↔ x = .error e ∨ ∃ a, x = .ok a ∧ f a = .error e := by
  cases x with
  | error _ => simp [bind, Except.bind]
  | ok a => simp [bind, Except.bind]

theorem map_eq_ok (x : Except ε α) (f : α → β) (b : β) :
    x.map f = .ok b ↔ ∃ a, x = .ok a ∧ f a = b := by
  cases x with
  | error _ => simp [Except.map]
  | ok a => simp [Except.map]

theorem map_eq_error (x : Except ε α) (f : α → β) (e : ε) :
    x.map f = .error e ↔ x = .error e := by
  cases x with
  | error _ => simp [Except.map]
  | ok _ => simp [Except.map]

theorem mapError_eq_ok (x : Except ε α) (f : ε → δ) (a : α) :
    x.mapError f = .ok a ↔ x = .ok a := by
  cases x with
  | error _ => simp [Except.mapError]
  | ok _ => simp [Except.mapError]

theorem forM_eq_ok (f : α → Except ε Unit) (xs : List α) :
    xs.forM f = .ok () ↔ ∀ x ∈ xs, f x = .ok () := by
  induction xs with
  | nil => simp [pure, Except.pure]
  | cons x rest ih =>
    rw [List.forM_eq_forM] at ih
    rw [List.forM_eq_forM, List.forM_cons, bind_eq_ok, ih]
    constructor
    · rintro ⟨⟨⟩, hx, hr⟩
      exact List.forall_mem_cons.2 ⟨hx, hr⟩
    · intro h
      exact ⟨(), h x List.mem_cons_self, fun y hy => h y (List.mem_cons_of_mem x hy)⟩

theorem foldlM_append_eq_ok (f : β → α → Except ε β) (b d : β) (xs ys : List α) :
    (xs ++ ys).foldlM f b = .ok d ↔ ∃ c, xs.foldlM f b = .ok c ∧ ys.foldlM f c = .ok d := by
  rw [List.foldlM_append, bind_eq_ok]

theorem mapM_cons_eq_ok {f : α → Except ε β} {x : α} {rest : List α} {ys : List β} :
    (x :: rest).mapM f = .ok ys ↔
      ∃ y others, f x = .ok y ∧ rest.mapM f = .ok others ∧ ys = y :: others := by
  rw [List.mapM_cons, bind_eq_ok]
  refine exists_congr fun y => ?_
  rw [bind_eq_ok]
  constructor
  · rintro ⟨hy, others, hothers, hys⟩
    exact ⟨others, hy, hothers, (Except.ok.inj hys).symm⟩
  · rintro ⟨others, hy, hothers, rfl⟩
    exact ⟨hy, others, hothers, rfl⟩

/-- A traversal of steps that each are `g` wherever they do not fail. -/
theorem mapM_eq_ok {f : α → Except ε β} {P : α → Prop} {g : α → β}
    (h : ∀ x b, f x = .ok b ↔ P x ∧ b = g x) (xs : List α) (ys : List β) :
    xs.mapM f = .ok ys ↔ (∀ x ∈ xs, P x) ∧ ys = xs.map g := by
  induction xs generalizing ys with
  | nil => simp [pure, Except.pure, eq_comm]
  | cons x rest ih =>
    simp only [mapM_cons_eq_ok, h, ih]
    constructor
    · rintro ⟨_, _, ⟨hx, rfl⟩, ⟨hr, rfl⟩, rfl⟩
      exact ⟨List.forall_mem_cons.2 ⟨hx, hr⟩, rfl⟩
    · rintro ⟨hall, rfl⟩
      obtain ⟨hx, hr⟩ := List.forall_mem_cons.1 hall
      exact ⟨_, _, ⟨hx, rfl⟩, ⟨hr, rfl⟩, rfl⟩

theorem forall_of_mapM {f : α → Except ε β} {P : β → Prop} (h : ∀ x y, f x = .ok y → P y)
    {xs : List α} {ys : List β} (hs : xs.mapM f = .ok ys) : ∀ y ∈ ys, P y := by
  induction xs generalizing ys with
  | nil =>
    cases hs
    nofun
  | cons x rest ih =>
    obtain ⟨y, others, hy, hothers, rfl⟩ := mapM_cons_eq_ok.1 hs
    exact List.forall_mem_cons.2 ⟨h x y hy, ih hothers⟩

/-- The results of a traversal are those of its elements, and it has one for each of them. -/
theorem mem_of_mapM {f : α → Except ε β} {xs : List α} {ys : List β} (hs : xs.mapM f = .ok ys) :
    (∀ x ∈ xs, ∃ y, f x = .ok y) ∧ ∀ y, y ∈ ys ↔ ∃ x ∈ xs, f x = .ok y := by
  induction xs generalizing ys with
  | nil =>
    cases hs
    simp
  | cons x rest ih =>
    obtain ⟨y, others, hy, hothers, rfl⟩ := mapM_cons_eq_ok.1 hs
    obtain ⟨hall, hmem⟩ := ih hothers
    refine ⟨List.forall_mem_cons.2 ⟨⟨y, hy⟩, hall⟩, fun z => ?_⟩
    simp only [List.mem_cons, exists_eq_or_imp, hmem, hy, Except.ok.injEq, @eq_comm _ z]

theorem getElem?_of_mapM {f : α → Except ε β} {xs : List α} {ys : List β}
    (h : xs.mapM f = .ok ys) {n : Nat} {x : α} (hx : xs[n]? = some x) :
    ∃ y, ys[n]? = some y ∧ f x = .ok y := by
  induction xs generalizing ys n with
  | nil => cases hx
  | cons z rest ih =>
    obtain ⟨y, others, hy, hothers, rfl⟩ := mapM_cons_eq_ok.1 h
    cases n with
    | zero =>
      cases hx
      exact ⟨y, rfl, hy⟩
    | succ n => exact ih hothers hx

theorem exists_mapM {f : α → Except ε β} {xs : List α} (h : ∀ x ∈ xs, ∃ y, f x = .ok y) :
    ∃ ys, xs.mapM f = .ok ys := by
  induction xs with
  | nil => exact ⟨[], rfl⟩
  | cons x rest ih =>
    obtain ⟨y, hy⟩ := h x List.mem_cons_self
    obtain ⟨ys, hys⟩ := ih fun z hz => h z (List.mem_cons_of_mem x hz)
    exact ⟨y :: ys, mapM_cons_eq_ok.2 ⟨y, ys, hy, hys, rfl⟩⟩

theorem exists_mapM_iff {f : α → Except ε β} {xs : List α} :
    (∃ ys, xs.mapM f = .ok ys) ↔ ∀ x ∈ xs, ∃ y, f x = .ok y :=
  ⟨fun ⟨_, hs⟩ => (mem_of_mapM hs).1, exists_mapM⟩

/-- The same with a property of the results. -/
theorem exists_mapM_forall_iff {f : α → Except ε β} {P : β → Prop} {xs : List α} :
    (∃ ys, xs.mapM f = .ok ys ∧ ∀ y ∈ ys, P y) ↔ ∀ x ∈ xs, ∃ y, f x = .ok y ∧ P y := by
  constructor
  · rintro ⟨ys, hys, hall⟩ x hx
    obtain ⟨hok, hmem⟩ := mem_of_mapM hys
    obtain ⟨y, hy⟩ := hok x hx
    exact ⟨y, hy, hall y ((hmem y).2 ⟨x, hx, hy⟩)⟩
  · intro h
    obtain ⟨ys, hys⟩ := exists_mapM fun x hx => (h x hx).imp fun _ => And.left
    refine ⟨ys, hys, fun y hy => ?_⟩
    obtain ⟨x, hx, hxy⟩ := ((mem_of_mapM hys).2 y).1 hy
    obtain ⟨y', hy', hP⟩ := h x hx
    exact Except.ok.inj (hxy.symm.trans hy') ▸ hP

theorem mapM_of_ok {f : α → Except ε β} {g : α → β} {xs : List α} (h : ∀ x ∈ xs, f x = .ok (g x)) :
    xs.mapM f = .ok (xs.map g) := by
  induction xs with
  | nil => rfl
  | cons x rest ih =>
    exact mapM_cons_eq_ok.2 ⟨_, _, h x List.mem_cons_self,
      ih fun y hy => h y (List.mem_cons_of_mem x hy), rfl⟩

theorem map_of_mapM {f : α → Except ε β} {g : β → γ} {k : α → γ}
    (h : ∀ x y, f x = .ok y → g y = k x) {xs : List α} {ys : List β} (hs : xs.mapM f = .ok ys) :
    ys.map g = xs.map k := by
  induction xs generalizing ys with
  | nil =>
    cases hs
    rfl
  | cons x rest ih =>
    obtain ⟨y, others, hy, hothers, rfl⟩ := mapM_cons_eq_ok.1 hs
    rw [List.map_cons, List.map_cons, h x y hy, ih hothers]

theorem mapM_error {f : α → Except ε β} {P : ε → Prop} {xs : List α}
    (h : ∀ x ∈ xs, ∀ e, f x = .error e → P e) {e : ε} (he : xs.mapM f = .error e) : P e := by
  induction xs with
  | nil => cases he
  | cons x rest ih =>
    rw [List.mapM_cons, bind_eq_error] at he
    rcases he with hx | ⟨y, -, hr⟩
    · exact h x List.mem_cons_self e hx
    · rw [bind_eq_error] at hr
      rcases hr with hr | ⟨ys, -, hys⟩
      · exact ih (fun z hz => h z (List.mem_cons_of_mem x hz)) hr
      · cases hys

/-- Where a run fails, with what holds at its beginning and is kept by its steps. -/
theorem foldlM_error {f : β → α → Except ε β} {P : β → Prop}
    (hstep : ∀ b x c, P b → f b x = .ok c → P c) {xs : List α} {b : β} {e : ε} (hb : P b)
    (h : xs.foldlM f b = .error e) : ∃ x ∈ xs, ∃ c, P c ∧ f c x = .error e := by
  induction xs generalizing b with
  | nil => cases h
  | cons x rest ih =>
    rw [List.foldlM_cons, bind_eq_error] at h
    rcases h with h | ⟨c, hc, h⟩
    · exact ⟨x, List.mem_cons_self, b, hb, h⟩
    · obtain ⟨y, hy, d, hd, hfail⟩ := ih (hstep b x c hb hc) h
      exact ⟨y, List.mem_cons_of_mem x hy, d, hd, hfail⟩

/-- The results of a traversal stand to its elements as each result stands to its element. -/
theorem forall₂_of_mapM {f : α → Except ε β} {R : α → β → Prop} {xs : List α} {ys : List β}
    (h : ∀ x ∈ xs, ∀ y, f x = .ok y → R x y) (hs : xs.mapM f = .ok ys) : List.Forall₂ R xs ys := by
  induction xs generalizing ys with
  | nil =>
    cases hs
    exact .nil
  | cons x rest ih =>
    obtain ⟨y, others, hy, hothers, rfl⟩ := mapM_cons_eq_ok.1 hs
    exact .cons (h x List.mem_cons_self y hy)
      (ih (fun z hz => h z (List.mem_cons_of_mem x hz)) hothers)

/-! ## Two computations -/

/-- Both fail, or both succeed and the second result is the image of the first. -/
def Follows (f : α → β) : Except ε α → Except δ β → Prop
  | .ok a, .ok b => b = f a
  | .error _, .error _ => True
  | _, _ => False

theorem Follows.refl (x : Except ε α) : Follows id x x := by
  cases x with
  | ok a => exact rfl
  | error e => trivial

theorem Follows.bind {α' β' : Type} {f : α → α'} {g : β → β'} {x : Except ε α} {y : Except ε α'}
    {k : α → Except ε β} {k' : α' → Except ε β'} (hx : Follows f x y)
    (hk : ∀ a, Follows g (k a) (k' (f a))) : Follows g (x >>= k) (y >>= k') := by
  cases x with
  | ok a =>
    cases y with
    | ok b =>
      obtain rfl : b = f a := hx
      exact hk a
    | error _ => cases hx
  | error _ =>
    cases y with
    | ok b => cases hx
    | error _ => trivial

/-- The same computation first, on both sides. -/
theorem Follows.bind_same {α' : Type} {f : β → α'} {x : Except ε α} {k : α → Except ε β}
    {k' : α → Except ε α'} (hk : ∀ a, Follows f (k a) (k' a)) :
    Follows f (x >>= k) (x >>= k') :=
  (Follows.refl x).bind hk

theorem Follows.eq_ok {f : α → β} {x : Except ε α} {y : Except δ β} (h : Follows f x y) {a : α}
    (hx : x = .ok a) : y = .ok (f a) := by
  subst hx
  cases y with
  | ok b => exact congrArg Except.ok h
  | error _ => cases h

theorem Follows.eq_error {f : α → β} {x : Except ε α} {y : Except δ β} (h : Follows f x y) {e : ε}
    (hx : x = .error e) : ∃ e', y = .error e' := by
  subst hx
  cases y with
  | ok b => cases h
  | error e' => exact ⟨e', rfl⟩

end SchemaLedger.Outcome
