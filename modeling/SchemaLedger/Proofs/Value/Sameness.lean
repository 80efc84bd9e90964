import Mathlib.Data.Nat.Cast.Field
import SchemaLedger.Proofs.Decimal.Shortest
import SchemaLedger.Proofs.Entries

set_option autoImplicit false

/-!
# Equality of values

`Value.same` compares numbers of different kinds by what they denote. Brought to one form, numbers and
other single values are the same exactly if they are equal, so `Value.same` can be chained and, between
objects in which each name stands once, turned around. It is not reflexive: a NaN differs from itself,
and an object in which a name stands twice is not looked up entry by entry. Without the two it is.
-/
namespace SchemaLedger

/-! ## Values equal to themselves -/

namespace Value

theorem isNull_iff {v : Value} : v.isNull = true ↔ v = .null := by
  cases v <;> simp [isNull]

mutual

/-- Whether a value and all values in it satisfy `p`. -/
def everywhere (p : Value → Bool) : Value → Bool
  | .list items => p (.list items) && everywhereItems p items
  | .object entries => p (.object entries) && everywhereEntries p entries
  | v => p v

def everywhereItems (p : Value → Bool) : List Value → Bool
  | [] => true
  | v :: rest => everywhere p v && everywhereItems p rest

def everywhereEntries (p : Value → Bool) : List (String × Value) → Bool
  | [] => true
  | (_, v) :: rest => everywhere p v && everywhereEntries p rest

end

mutual

theorem everywhere_mono {p q : Value → Bool} (h : ∀ v, p v = true → q v = true) (v : Value)
    (hv : everywhere p v = true) : everywhere q v = true := by
  cases v with
  | list items =>
    simp only [everywhere, Bool.and_eq_true] at hv ⊢
    exact ⟨h _ hv.1, everywhereItems_mono h items hv.2⟩
  | object entries =>
    simp only [everywhere, Bool.and_eq_true] at hv ⊢
    exact ⟨h _ hv.1, everywhereEntries_mono h entries hv.2⟩
  | _ => exact h _ hv

theorem everywhereItems_mono {p q : Value → Bool} (h : ∀ v, p v = true → q v = true)
    (items : List Value) (hv : everywhereItems p items = true) :
    everywhereItems q items = true := by
  cases items with
  | nil => rfl
  | cons v rest =>
    simp only [everywhereItems, Bool.and_eq_true] at hv ⊢
    exact ⟨everywhere_mono h v hv.1, everywhereItems_mono h rest hv.2⟩

theorem everywhereEntries_mono {p q : Value → Bool} (h : ∀ v, p v = true → q v = true)
    (entries : List (String × Value)) (hv : everywhereEntries p entries = true) :
    everywhereEntries q entries = true := by
  match entries with
  | [] => rfl
  | (_, v) :: rest =>
    simp only [everywhereEntries, Bool.and_eq_true] at hv ⊢
    exact ⟨everywhere_mono h v hv.1, everywhereEntries_mono h rest hv.2⟩

end

def isNan : Value → Bool
  | .float .nan => true
  | _ => false

def nanFree : Value → Bool := everywhere (!isNan ·)

def namesOnce : Value → Bool
  | .object entries => decide (entries.map (·.1)).Nodup
  | _ => true

/-- Whether each name stands once in every object, as in a dictionary. -/
def wellFormed : Value → Bool := everywhere namesOnce

theorem sameEntries_of_subset {entries : List (String × Value)}
    (hd : (entries.map (·.1)).Nodup) (hs : ∀ x ∈ entries, same x.2 x.2 = true)
    {part : List (String × Value)} (hp : part ⊆ entries) : sameEntries part entries = true := by
  induction part with
  | nil => rfl
  | cons x rest ih =>
    have hx := hp List.mem_cons_self
    rw [sameEntries, Entries.get?_of_mem hd hx, ih fun y hy => hp (List.mem_cons_of_mem x hy)]
    simp [hs x hx]

mutual

theorem same_self (v : Value) (hn : v.nanFree = true) (hw : v.wellFormed = true) :
    v.same v = true := by
  cases v with
  | float x =>
    cases x with
    | nan => cases hn
    | infinity s => simp [same, Double.sameNumber]
    | finite s m => simp [same, Double.sameNumber]
  | list items =>
    simp only [nanFree, wellFormed, everywhere, Bool.and_eq_true] at hn hw
    rw [same]
    exact same_self_items items hn.2 hw.2
  | object entries =>
    simp only [nanFree, wellFormed, everywhere, Bool.and_eq_true] at hn hw
    rw [same, Bool.and_eq_true]
    refine ⟨decide_eq_true rfl, ?_⟩
    exact sameEntries_of_subset (of_decide_eq_true hw.1) (same_self_entries entries hn.2 hw.2)
      (List.Subset.refl _)
  | _ => simp [same]

theorem same_self_items (items : List Value) (hn : everywhereItems (!isNan ·) items = true)
    (hw : everywhereItems namesOnce items = true) : sameItems items items = true := by
  cases items with
  | nil => rfl
  | cons v rest =>
    simp only [everywhereItems, Bool.and_eq_true] at hn hw
    rw [sameItems, same_self v hn.1 hw.1, same_self_items rest hn.2 hw.2]
    rfl

theorem same_self_entries (entries : List (String × Value))
    (hn : everywhereEntries (!isNan ·) entries = true)
    (hw : everywhereEntries namesOnce entries = true) : ∀ x ∈ entries, same x.2 x.2 = true := by
  cases entries with
  | nil => simp
  | cons x rest =>
    obtain ⟨name, v⟩ := x
    simp only [everywhereEntries, Bool.and_eq_true] at hn hw
    exact List.forall_mem_cons.2
      ⟨same_self v hn.1 hw.1, same_self_entries rest hn.2 hw.2⟩

end

end Value

/-! ## Doubles without a fraction -/

namespace Magnitude

theorem value_eq_zero {m : Magnitude} : m.value = 0 ↔ m.isZero = true := by
  simp [value, isZero, (zpow_ne_zero m.exponent (two_ne_zero (α := ℚ)))]

theorem value_of_toNat? {m : Magnitude} {n : ℕ} (h : m.toNat? = some n) : m.value = n := by
  obtain ⟨hden, hvalue⟩ := m.ratio_value
  have hq : (m.ratio.2 : ℚ) ≠ 0 := by exact_mod_cast hden.ne'
  simp only [toNat?] at h
  split at h
  case isTrue hdvd =>
    rw [Option.some.injEq] at h
    rw [← hvalue, ← h, Nat.cast_div (Nat.dvd_of_mod_eq_zero hdvd) hq]
  case isFalse => cases h

theorem toNat?_of_isZero {m : Magnitude} (h : m.isZero = true) : m.toNat? = some 0 := by
  obtain ⟨hden, hvalue⟩ := m.ratio_value
  have hq : (m.ratio.2 : ℚ) ≠ 0 := by exact_mod_cast hden.ne'
  rw [value_eq_zero.2 h, div_eq_zero_iff, or_iff_left hq, Nat.cast_eq_zero] at hvalue
  simp [toNat?, hvalue]

/-- Of two magnitudes with one value none has the lower exponent: the other one, being above the least
place, would not fit. -/
theorem not_exponent_lt {m k : Magnitude} (h : m.value = k.value) : ¬m.exponent < k.exponent := by
  intro hlt
  have hfull : leastFull ≤ k.significand := by
    refine k.canonical.2.2.2.resolve_right fun he => ?_
    have := m.canonical.2.1
    omega
  obtain ⟨d, hd⟩ : ∃ d : ℕ, k.exponent = (d + 1 : ℕ) + m.exponent :=
    ⟨(k.exponent - m.exponent - 1).toNat, by omega⟩
  have hpow : (2 : ℚ) ^ m.exponent ≠ 0 := zpow_ne_zero _ two_ne_zero
  rw [value, value, hd, zpow_add₀ two_ne_zero, zpow_natCast, ← mul_assoc] at h
  have hs : m.significand = k.significand * 2 ^ (d + 1) := by
    exact_mod_cast mul_right_cancel₀ hpow h
  have hbound := m.canonical.1
  have htwo : k.significand * 2 ≤ k.significand * 2 ^ (d + 1) :=
    Nat.mul_le_mul_left _ (Nat.le_self_pow (Nat.succ_ne_zero d) 2)
  omega

theorem eq_of_value {m k : Magnitude} (h : m.value = k.value) : m = k := by
  have he : m.exponent = k.exponent :=
    le_antisymm (not_lt.1 (not_exponent_lt h.symm)) (not_lt.1 (not_exponent_lt h))
  have hpow : (2 : ℚ) ^ k.exponent ≠ 0 := zpow_ne_zero _ two_ne_zero
  rw [value, value, he] at h
  have hs : m.significand = k.significand := by exact_mod_cast mul_right_cancel₀ hpow h
  cases m
  cases k
  simp only at hs he
  subst hs he
  rfl

end Magnitude

namespace Double

theorem toInt?_finite (negative : Bool) (m : Magnitude) : (finite negative m).toInt? =
    m.toNat?.map fun n : ℕ => if negative then -(n : ℤ) else (n : ℤ) := by
  rw [toInt?]
  cases m.toNat? <;> rfl

/-- Two doubles are the same number if they are the same integer, or equal and no integer. -/
theorem sameNumber_iff (x y : Double) : x.sameNumber y = true ↔ x ≠ .nan ∧
    ((∃ n, x.toInt? = some n ∧ y.toInt? = some n) ∨ (x.toInt? = none ∧ x = y)) := by
  cases x with
  | nan => simp [sameNumber]
  | infinity a =>
    cases y <;> simp [sameNumber, toInt?]
  | finite a m =>
    cases y with
    | nan => simp [sameNumber, toInt?]
    | infinity b => simp [sameNumber, toInt?]
    | finite b k =>
      simp only [sameNumber, Bool.and_eq_true, Bool.or_eq_true, decide_eq_true_eq, toInt?_finite,
        ne_eq, reduceCtorEq, not_false_eq_true, true_and, finite.injEq]
      constructor
      · rintro ⟨rfl, hsign⟩
        cases hm : m.toNat? with
        | none =>
          refine Or.inr ⟨rfl, ?_, rfl⟩
          rcases hsign with hsign | hzero
          · exact hsign
          · rw [Magnitude.toNat?_of_isZero hzero] at hm
            cases hm
        | some n =>
          refine Or.inl ⟨_, rfl, ?_⟩
          rcases hsign with rfl | hzero
          · rfl
          · rw [Magnitude.toNat?_of_isZero hzero, Option.some.injEq] at hm
            simp [← hm]
      · rintro (⟨n, hx, hy⟩ | ⟨-, rfl, rfl⟩)
        · obtain ⟨p, hp, hpn⟩ := Option.map_eq_some_iff.1 hx
          obtain ⟨q, hq, hqn⟩ := Option.map_eq_some_iff.1 hy
          have hpq : p = q := by
            cases a <;> cases b <;> simp at hpn hqn <;> omega
          subst hpq
          have hmk : m = k := Magnitude.eq_of_value
            ((Magnitude.value_of_toNat? hp).trans (Magnitude.value_of_toNat? hq).symm)
          refine ⟨hmk, ?_⟩
          by_cases hz : p = 0
          · right
            rw [← Magnitude.value_eq_zero, Magnitude.value_of_toNat? hp, hz, Nat.cast_zero]
          · left
            cases a <;> cases b <;> simp at hpn hqn <;> first | rfl | omega
        · exact ⟨rfl, Or.inl rfl⟩

end Double

namespace Value

/-! ## Single values -/

/-- Numbers without a fraction as integers, other values as they are. -/
def leveled : Value → Value
  | .bool b => .int (if b then 1 else 0)
  | .float x =>
    match x.toInt? with
    | some n => .int n
    | none => .float x
  | v => v

def isSingle : Value → Bool
  | .list _ => false
  | .object _ => false
  | _ => true

theorem leveled_float_eq_int (x : Double) (n : ℤ) :
    (Value.float x).leveled = .int n ↔ x.toInt? = some n := by
  rw [leveled]
  cases x.toInt? <;> simp

theorem leveled_float_eq_float (x y : Double) : (Value.float x).leveled = (Value.float y).leveled ↔
    (∃ n, x.toInt? = some n ∧ y.toInt? = some n) ∨ (x.toInt? = none ∧ x = y) := by
  rw [leveled, leveled]
  cases hx : x.toInt? with
  | none =>
    cases hy : y.toInt? with
    | none => simp
    | some m =>
      have hne : x ≠ y := by
        rintro rfl
        rw [hx] at hy
        cases hy
      simp [hne]
  | some n => cases hy : y.toInt? <;> simp [eq_comm]

theorem isNan_float (x : Double) : (Value.float x).isNan = false ↔ x ≠ .nan := by
  cases x <;> simp [isNan]

theorem isNan_of_toInt? {x : Double} {n : ℤ} (h : x.toInt? = some n) :
    (Value.float x).isNan = false := by
  rw [isNan_float]
  rintro rfl
  cases h

theorem leveled_float {x : Double} {v : Value} (h : (Value.float x).leveled = v) :
    (∃ n, v = .int n) ∨ v = .float x := by
  subst h
  rw [leveled]
  cases x.toInt? with
  | none => exact Or.inr rfl
  | some n => exact Or.inl ⟨n, rfl⟩

theorem int_of_bool_inj {b c : Bool} :
    ((if b then 1 else 0 : ℤ) = if c then 1 else 0) ↔ b = c := by
  cases b <;> cases c <;> simp

/-- Single values are the same if they are equal once numbers are brought to one form. -/
theorem same_single {v w : Value} (hv : v.isSingle = true) (hw : w.isSingle = true) :
    v.same w = true ↔ v.leveled = w.leveled ∧ v.isNan = false := by
  have hint : ∀ x n, (Value.float x).leveled = .int n ↔
      (Value.float x).leveled = .int n ∧ (Value.float x).isNan = false := fun x n =>
    ⟨fun h => ⟨h, isNan_of_toInt? ((leveled_float_eq_int x n).1 h)⟩, And.left⟩
  cases v with
  | list items => cases hv
  | object entries => cases hv
  | float x =>
    cases w with
    | list items => cases hw
    | object entries => cases hw
    | float y => rw [same, Double.sameNumber_iff, leveled_float_eq_float, isNan_float, and_comm]
    | int n =>
      rw [same, sameAsInt, decide_eq_true_eq, ← leveled_float_eq_int]
      exact hint x n
    | bool b =>
      rw [same, sameAsInt, decide_eq_true_eq, ← leveled_float_eq_int]
      exact hint x _
    | _ =>
      refine ⟨fun h => by simp [same] at h, fun h => ?_⟩
      rcases leveled_float h.1 with ⟨_, h⟩ | h <;> cases h
  | int n =>
    cases w with
    | list items => cases hw
    | object entries => cases hw
    | float y =>
      rw [same, sameAsInt, decide_eq_true_eq, ← leveled_float_eq_int]
      exact ⟨fun h => ⟨h.symm, rfl⟩, fun h => h.1.symm⟩
    | _ => simp [same, leveled, isNan]
  | bool b =>
    cases w with
    | list items => cases hw
    | object entries => cases hw
    | float y =>
      rw [same, sameAsInt, decide_eq_true_eq, ← leveled_float_eq_int]
      exact ⟨fun h => ⟨h.symm, rfl⟩, fun h => h.1.symm⟩
    | bool c => simp [same, leveled, isNan, int_of_bool_inj]
    | _ => simp [same, leveled, isNan]
  | _ =>
    cases w with
    | list items => cases hw
    | object entries => cases hw
    | float y =>
      refine ⟨fun h => by simp [same] at h, fun h => ?_⟩
      rcases leveled_float h.1.symm with ⟨_, h⟩ | h <;> cases h
    | _ => simp [same, leveled, isNan]

theorem isNan_of_leveled {v w : Value} (h : v.leveled = w.leveled) (hv : v.isNan = false) :
    w.isNan = false := by
  cases w with
  | float y =>
    rw [isNan_float]
    rintro rfl
    have hnan : v.leveled = .float .nan := h
    cases v with
    | float x =>
      rcases leveled_float hnan with ⟨_, hx⟩ | hx
      · cases hx
      · cases hx
        cases hv
    | _ => cases hnan
  | _ => rfl

/-! ## Values in values -/

theorem isSingle_of_same {v w : Value} (h : v.same w = true) : v.isSingle = w.isSingle := by
  cases v <;> cases w <;> first | rfl | simp [same] at h

theorem mem_of_get? {name : String} {v : Value} {entries : List (String × Value)}
    (h : Entries.get? name entries = some v) : (name, v) ∈ entries := by
  obtain ⟨x, hx, rfl⟩ := Option.map_eq_some_iff.1 h
  have hname : x.1 = name := by simpa using List.find?_some hx
  rw [← hname]
  exact List.mem_of_find?_eq_some hx

theorem sameEntries_iff (xs ys : List (String × Value)) : sameEntries xs ys = true ↔
    ∀ x ∈ xs, ∃ w, Entries.get? x.1 ys = some w ∧ x.2.same w = true := by
  induction xs with
  | nil => simp [sameEntries]
  | cons x rest ih =>
    obtain ⟨name, v⟩ := x
    rw [sameEntries, Bool.and_eq_true, ih, List.forall_mem_cons]
    cases Entries.get? name ys <;> simp

mutual

theorem same_trans (u v w : Value) (h : u.same v = true) (h' : v.same w = true) :
    u.same w = true := by
  cases hu : u.isSingle with
  | true =>
    have hv := (isSingle_of_same h).symm.trans hu
    have hw := (isSingle_of_same h').symm.trans hv
    rw [same_single hu hv] at h
    rw [same_single hv hw] at h'
    exact (same_single hu hw).2 ⟨h.1.trans h'.1, h.2⟩
  | false =>
    cases u with
    | list xs =>
      cases v with
      | list ys =>
        cases w with
        | list zs =>
          rw [same] at h h' ⊢
          exact sameItems_trans xs ys zs h h'
        | _ => simp [same] at h'
      | _ => simp [same] at h
    | object xs =>
      cases v with
      | object ys =>
        cases w with
        | object zs =>
          rw [same, Bool.and_eq_true, decide_eq_true_eq] at h h' ⊢
          exact ⟨h.1.trans h'.1, sameEntries_trans xs ys zs h.2 h'.2⟩
        | _ => simp [same] at h'
      | _ => simp [same] at h
    | _ => cases hu

theorem sameItems_trans (xs ys zs : List Value) (h : sameItems xs ys = true)
    (h' : sameItems ys zs = true) : sameItems xs zs = true := by
  match xs, ys, zs with
  | [], [], [] => rfl
  | u :: xs, v :: ys, w :: zs =>
    rw [sameItems, Bool.and_eq_true] at h h' ⊢
    exact ⟨same_trans u v w h.1 h'.1, sameItems_trans xs ys zs h.2 h'.2⟩
  | [], _ :: _, _ => cases h
  | _ :: _, [], _ => cases h
  | _, [], _ :: _ => cases h'
  | _, _ :: _, [] => cases h'

theorem sameEntries_trans (xs ys zs : List (String × Value)) (h : sameEntries xs ys = true)
    (h' : sameEntries ys zs = true) : sameEntries xs zs = true := by
  match xs with
  | [] => rfl
  | (name, u) :: xs =>
    obtain ⟨v, hv, huv⟩ := (sameEntries_iff _ _).1 h _ List.mem_cons_self
    obtain ⟨w, hw, hvw⟩ := (sameEntries_iff _ _).1 h' _ (mem_of_get? hv)
    rw [sameEntries, Bool.and_eq_true] at h ⊢
    rw [hw]
    exact ⟨same_trans u v w huv hvw, sameEntries_trans xs ys zs h.2 h'⟩

end

/-- Objects of one size in which each name stands once have the same names if one has those of the
other. -/
theorem sameEntries_swap {xs ys : List (String × Value)} (hx : (xs.map (·.1)).Nodup)
    (hy : (ys.map (·.1)).Nodup) (hl : xs.length = ys.length) (h : sameEntries xs ys = true)
    (hsymm : ∀ x ∈ xs, ∀ y ∈ ys, x.2.same y.2 = true → y.2.same x.2 = true) :
    sameEntries ys xs = true := by
  rw [sameEntries_iff] at h ⊢
  have hpartner : ∀ x ∈ xs, ∃ y ∈ ys, y.1 = x.1 ∧ x.2.same y.2 = true := by
    intro x hxin
    obtain ⟨w, hw, hxw⟩ := h x hxin
    exact ⟨(x.1, w), mem_of_get? hw, rfl, hxw⟩
  intro y hin
  obtain ⟨x, hxin, hname, hxy⟩ := Keyed.exists_partner hx hy hl.ge hpartner y hin
  exact ⟨x.2, hname ▸ Entries.get?_of_mem hx hxin, hsymm x hxin y hin hxy⟩

theorem wellFormed_of_mem {entries : List (String × Value)}
    (h : everywhereEntries namesOnce entries = true) : ∀ x ∈ entries, x.2.wellFormed = true := by
  induction entries with
  | nil => simp
  | cons x rest ih =>
    obtain ⟨name, v⟩ := x
    rw [everywhereEntries, Bool.and_eq_true] at h
    exact List.forall_mem_cons.2 ⟨h.1, ih h.2⟩

theorem same_symm_single {v w : Value} (hv : v.isSingle = true) (h : v.same w = true) :
    w.same v = true := by
  have hw := (isSingle_of_same h).symm.trans hv
  rw [same_single hv hw] at h
  exact (same_single hw hv).2 ⟨h.1.symm, isNan_of_leveled h.1 h.2⟩

mutual

theorem same_symm (v w : Value) (hv : v.wellFormed = true) (hw : w.wellFormed = true)
    (h : v.same w = true) : w.same v = true := by
  cases hs : v.isSingle with
  | true => exact same_symm_single hs h
  | false =>
    cases v with
    | list xs =>
      cases w with
      | list ys =>
        simp only [wellFormed, everywhere, Bool.and_eq_true] at hv hw
        rw [same] at h ⊢
        exact sameItems_symm xs ys hv.2 hw.2 h
      | _ => simp [same] at h
    | object xs =>
      cases w with
      | object ys =>
        simp only [wellFormed, everywhere, Bool.and_eq_true, namesOnce, decide_eq_true_eq] at hv hw
        rw [same, Bool.and_eq_true, decide_eq_true_eq] at h ⊢
        refine ⟨h.1.symm, sameEntries_swap hv.1 hw.1 h.1 h.2 fun x hx y hy => ?_⟩
        exact same_symm_entries xs hv.2 x hx y.2 (wellFormed_of_mem hw.2 y hy)
      | _ => simp [same] at h
    | _ => cases hs

theorem sameItems_symm (xs ys : List Value) (hx : everywhereItems namesOnce xs = true)
    (hy : everywhereItems namesOnce ys = true) (h : sameItems xs ys = true) :
    sameItems ys xs = true := by
  match xs, ys with
  | [], [] => rfl
  | v :: xs, w :: ys =>
    rw [everywhereItems, Bool.and_eq_true] at hx hy
    rw [sameItems, Bool.and_eq_true] at h ⊢
    exact ⟨same_symm v w hx.1 hy.1 h.1, sameItems_symm xs ys hx.2 hy.2 h.2⟩
  | [], _ :: _ => cases h
  | _ :: _, [] => cases h

theorem same_symm_entries (xs : List (String × Value))
    (hx : everywhereEntries namesOnce xs = true) :
    ∀ x ∈ xs, ∀ w : Value, w.wellFormed = true → x.2.same w = true → w.same x.2 = true := by
  match xs with
  | [] => simp
  | (name, v) :: rest =>
    rw [everywhereEntries, Bool.and_eq_true] at hx
    exact List.forall_mem_cons.2
      ⟨fun w hw h => same_symm v w hx.1 hw h, same_symm_entries rest hx.2⟩

end

end Value

end SchemaLedger
