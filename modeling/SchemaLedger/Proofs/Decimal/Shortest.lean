import Mathlib.Tactic.LinearCombination
import SchemaLedger.Proofs.Decimal.Rounding

set_option autoImplicit false

/-!
# The shortest decimal rounds back

On the grid of seventeen digits the point nearest to a magnitude is rounded to it, so the search for a
coarser one never runs out.
-/
namespace SchemaLedger

theorem ten_zpow_neg {p : ℤ} (hp : p < 0) : (10 : ℚ) ^ p * 10 ^ (-p).toNat = 1 := by
  rw [← zpow_natCast, Int.toNat_of_nonneg (by omega), ← zpow_add₀ (by norm_num)]
  simp

theorem ten_zpow_nonneg {p : ℤ} (hp : ¬p < 0) : (10 : ℚ) ^ p = 10 ^ p.toNat := by
  rw [← zpow_natCast, Int.toNat_of_nonneg (by omega)]

namespace Decimal

variable {num den : ℕ}

def value (d : Decimal) : ℚ := d.digits * 10 ^ d.power

/-- A comparison with a quotient compares two naturals, the sides of it over a common denominator. -/
theorem compareRatio_scaled (d : Decimal) (num : ℕ) (hd : 0 < den) : ∃ a b : ℕ, ∃ c : ℚ,
    d.compareRatio num den = compare a b ∧ 0 < c ∧ (a : ℚ) = d.value * c ∧
      (b : ℚ) = num / den * c := by
  have hq : (0 : ℚ) < den := by exact_mod_cast hd
  by_cases hp : d.power < 0
  · refine ⟨_, _, den * 10 ^ (-d.power).toNat, if_pos hp, by positivity, ?_, ?_⟩
    · rw [value]
      push_cast
      linear_combination (-(d.digits * den : ℚ)) * ten_zpow_neg hp
    · simp only [Nat.pow_eq]
      push_cast
      field_simp
  · refine ⟨_, _, den, if_neg hp, hq, ?_, ?_⟩
    · simp only [value, ten_zpow_nonneg hp, Nat.pow_eq]
      push_cast
      ring
    · field_simp

theorem compareRatio_eq_lt (d : Decimal) (num : ℕ) (hd : 0 < den) :
    d.compareRatio num den = .lt ↔ d.value < num / den := by
  obtain ⟨a, b, c, h, hc, ha, hb⟩ := d.compareRatio_scaled num hd
  rw [h, Nat.compare_eq_lt, ← mul_lt_mul_iff_left₀ hc, ← ha, ← hb, Nat.cast_lt]

theorem compareRatio_eq_gt (d : Decimal) (num : ℕ) (hd : 0 < den) :
    d.compareRatio num den = .gt ↔ (num : ℚ) / den < d.value := by
  obtain ⟨a, b, c, h, hc, ha, hb⟩ := d.compareRatio_scaled num hd
  rw [h, Nat.compare_eq_gt, ← mul_lt_mul_iff_left₀ hc, ← ha, ← hb, Nat.cast_lt]

theorem stripped_go (n : ℕ) (d : Decimal) :
    (stripped.go n d).value = d.value ∧ d.power ≤ (stripped.go n d).power := by
  induction n generalizing d with
  | zero => exact ⟨rfl, le_rfl⟩
  | succ n ih =>
    rw [stripped.go]
    split_ifs with h
    · obtain ⟨hv, hp⟩ := ih ⟨d.digits / 10, d.power + 1⟩
      refine ⟨hv.trans ?_, by simp only at hp; omega⟩
      have hten : d.digits = 10 * (d.digits / 10) := by omega
      have hcast : (d.digits : ℚ) = 10 * (d.digits / 10 : ℕ) := by exact_mod_cast hten
      rw [value, value, zpow_add_one₀ (by norm_num), hcast]
      ring
    · exact ⟨rfl, le_rfl⟩

theorem stripped_value (d : Decimal) : d.stripped.value = d.value := (stripped_go _ d).1

theorem power_le_stripped (d : Decimal) : d.power ≤ d.stripped.power := (stripped_go _ d).2

end Decimal

namespace Magnitude

variable {num den : ℕ} {m : Magnitude} {d : Decimal}

def value (m : Magnitude) : ℚ := m.significand * 2 ^ m.exponent

theorem ratio_value (m : Magnitude) :
    0 < m.ratio.2 ∧ (m.ratio.1 : ℚ) / m.ratio.2 = m.value := by
  simp only [ratio, value]
  split_ifs with he
  · refine ⟨by rw [Nat.shiftLeft_eq]; positivity, ?_⟩
    rw [shift_denominator (by omega), Nat.cast_one, div_one, zpow_neg, div_inv_eq_mul]
  · refine ⟨one_pos, ?_⟩
    have h := @shift_numerator m.significand 1 (-m.exponent) (by omega)
    rw [neg_neg, Nat.cast_one, div_one, zpow_neg, div_inv_eq_mul, div_one] at h
    rw [Nat.cast_one, div_one, h]

theorem interval_value (m : Magnitude) : 0 < m.interval.2.2 ∧
    (m.interval.1 : ℚ) / m.interval.2.2 = m.lowEnd / 4 * 2 ^ m.exponent ∧
      (m.interval.2.1 : ℚ) / m.interval.2.2 =
        (4 * m.significand + 2 : ℕ) / 4 * 2 ^ m.exponent := by
  by_cases he : m.exponent < 0
  · have hi : m.interval =
        (m.lowEnd, 4 * m.significand + 2, 4 <<< (-m.exponent).toNat) := if_pos he
    have h := fun n => @shift_denominator n 4 (-m.exponent) (by omega)
    simp only [zpow_neg, div_inv_eq_mul] at h
    rw [hi]
    exact ⟨by rw [Nat.shiftLeft_eq]; positivity, h _, h _⟩
  · have hi : m.interval = (m.lowEnd <<< m.exponent.toNat,
        (4 * m.significand + 2) <<< m.exponent.toNat, 4) := if_neg he
    have h := fun n => @shift_numerator n 4 (-m.exponent) (by omega)
    simp only [neg_neg, zpow_neg, div_inv_eq_mul] at h
    rw [hi]
    exact ⟨four_pos, h _, h _⟩

theorem readsBack_iff : m.readsBack d = true ↔ m.Rounds d.value := by
  obtain ⟨hden, hlow, hhigh⟩ := m.interval_value
  have hl := d.compareRatio_eq_lt m.interval.1 hden
  have hg := d.compareRatio_eq_gt m.interval.1 hden
  have hl' := d.compareRatio_eq_lt m.interval.2.1 hden
  have hg' := d.compareRatio_eq_gt m.interval.2.1 hden
  rw [hlow] at hl hg
  rw [hhigh] at hl' hg'
  simp only [readsBack, Rounds, Around]
  split_ifs with heven
  · rw [decide_eq_true_eq, Ne, Ne, hl, hg', not_lt, not_lt]
    constructor
    · exact fun h => ⟨h.1, h.2, fun hodd => absurd heven (by omega)⟩
    · exact fun h => ⟨h.1, h.2.1⟩
  · rw [decide_eq_true_eq, hg, hl']
    constructor
    · exact fun h => ⟨h.1.le, h.2.le, fun _ => h⟩
    · exact fun h => h.2.2 (by omega)

theorem digits_bounds {n : ℕ} (hn : 0 < n) :
    10 ^ ((Nat.toDigits 10 n).length - 1) ≤ n ∧ n < 10 ^ (Nat.toDigits 10 n).length := by
  have hpos := @Nat.length_toDigits_pos 10 n
  refine ⟨?_, (Nat.length_toDigits_le_iff (by decide) hpos).1 le_rfl⟩
  by_contra hlt
  rw [not_le] at hlt
  rcases Nat.eq_zero_or_pos ((Nat.toDigits 10 n).length - 1) with h0 | hk
  · rw [h0] at hlt
    omega
  · have := (Nat.length_toDigits_le_iff (by decide) hk).2 hlt
    omega

theorem decade_bounds (hn : 0 < num) (hd : 0 < den) :
    (10 : ℚ) ^ decade num den ≤ num / den ∧ (num : ℚ) / den < 10 ^ (decade num den + 1) := by
  have hq : (0 : ℚ) < den := by exact_mod_cast hd
  have hp : (0 : ℚ) < num := by exact_mod_cast hn
  have hmod := Nat.div_add_mod num den
  have hr := Nat.mod_lt num hd
  by_cases hle : den ≤ num
  · obtain ⟨hl, hh⟩ := digits_bounds (Nat.div_pos hle hd)
    have hpos := @Nat.length_toDigits_pos 10 (num / den)
    rw [decade, if_pos hle]
    generalize (Nat.toDigits 10 (num / den)).length = k at hl hh hpos ⊢
    have hlow : 10 ^ (k - 1) * den ≤ num := by
      have := Nat.mul_le_mul_right den hl
      rw [Nat.mul_comm (num / den)] at this
      omega
    have hhigh : num < 10 ^ k * den := by
      have := Nat.mul_le_mul_right den hh
      rw [Nat.succ_mul, Nat.mul_comm (num / den)] at this
      omega
    rw [show (k : ℤ) - 1 = ((k - 1 : ℕ) : ℤ) by omega,
      show (((k - 1 : ℕ) : ℤ) + 1) = (k : ℤ) by omega, zpow_natCast, zpow_natCast,
      le_div_iff₀ hq, div_lt_iff₀ hq]
    exact ⟨by exact_mod_cast hlow, by exact_mod_cast hhigh⟩
  · -- Below one the places are counted by the reciprocal, rounded up.
    have hinv := Nat.div_add_mod (den + num - 1) num
    have hrest := Nat.mod_lt (den + num - 1) hn
    rw [decade, if_neg hle]
    simp only
    generalize (den + num - 1) / num = q at hinv ⊢
    have htwo : 1 < q := by
      by_contra h1
      have := Nat.mul_le_mul_left num (show q ≤ 1 by omega)
      omega
    obtain ⟨hl, hh⟩ := digits_bounds (show 0 < q - 1 by omega)
    have hpos := @Nat.length_toDigits_pos 10 (q - 1)
    generalize (Nat.toDigits 10 (q - 1)).length = k at hl hh hpos ⊢
    have hlow : den ≤ num * 10 ^ k := by
      have := Nat.mul_le_mul_left num (show q ≤ 10 ^ k by omega)
      omega
    have hhigh : num * 10 ^ (k - 1) < den := by
      have := Nat.mul_le_mul_left num (show 10 ^ (k - 1) + 1 ≤ q by omega)
      rw [Nat.mul_add, Nat.mul_one] at this
      omega
    have hneg : Int.negOfNat k = -(k : ℤ) := Int.negOfNat_eq
    rw [hneg, show -(k : ℤ) + 1 = -((k - 1 : ℕ) : ℤ) by omega, zpow_neg, zpow_neg, zpow_natCast,
      zpow_natCast, le_div_iff₀ hq, div_lt_iff₀ hq, inv_mul_le_iff₀ (by positivity),
      lt_inv_mul_iff₀ (by positivity), mul_comm _ (num : ℚ), mul_comm _ (num : ℚ)]
    exact ⟨by exact_mod_cast hlow, by exact_mod_cast hhigh⟩

/-- On the grid of the naturals the nearer neighbour is off by a half at most. -/
theorem nearer_natural (num : ℕ) (hd : 0 < den) :
    |((if 2 * (num % den) < den ∨ 2 * (num % den) = den ∧ num / den % 2 = 0
      then num / den else num / den + 1 : ℕ) : ℚ) - num / den| ≤ 1 / 2 := by
  have hq : (0 : ℚ) < den := by exact_mod_cast hd
  have hmod := Nat.div_add_mod num den
  have hrest := Nat.mod_lt num hd
  have hnum : (num : ℚ) / den = (num / den : ℕ) + (num % den : ℕ) / den := by
    rw [div_eq_iff hq.ne', add_mul, div_mul_cancel₀ _ hq.ne', mul_comm]
    exact_mod_cast hmod.symm
  rw [hnum]
  generalize num / den = q at *
  generalize num % den = r at *
  have hpos : (0 : ℚ) ≤ r / den := by positivity
  split_ifs with hnear
  · have hle : (r : ℚ) / den ≤ 1 / 2 := by
      rw [div_le_div_iff₀ hq two_pos]
      have : r * 2 ≤ 1 * den := by omega
      exact_mod_cast this
    rw [abs_le]
    constructor <;> linarith
  · have hle : (1 : ℚ) / 2 ≤ r / den := by
      rw [div_le_div_iff₀ two_pos hq]
      have : 1 * den ≤ r * 2 := by omega
      exact_mod_cast this
    have hlt : (r : ℚ) / den ≤ 1 := by
      rw [div_le_one hq]
      exact_mod_cast hrest.le
    push_cast
    rw [abs_le]
    constructor <;> linarith

/-- Half the mesh of the grid bounds how far its nearer neighbour is off. -/
theorem neighbours_near (m : Magnitude) (p : ℤ) : (m.neighbours p).1.power = p ∧
    (m.neighbours p).2.power = p ∧ |(m.neighbours p).1.value - m.value| ≤ 1 / 2 * 10 ^ p := by
  obtain ⟨hden, hval⟩ := m.ratio_value
  have hpow : (0 : ℚ) < 10 ^ p := by positivity
  generalize hnum : (if p < 0 then m.ratio.1 * Nat.pow 10 (-p).toNat else m.ratio.1) = num
  generalize hd : (if p < 0 then m.ratio.2 else m.ratio.2 * Nat.pow 10 p.toNat) = den
  have hpos : 0 < den := by
    rw [← hd]
    split_ifs
    · exact hden
    · exact Nat.mul_pos hden (Nat.pow_pos (by decide))
  have hscaled : (num : ℚ) / den * 10 ^ p = m.value := by
    have hq : (0 : ℚ) < m.ratio.2 := by exact_mod_cast hden
    rw [← hval, ← hnum, ← hd]
    split_ifs with hp
    · simp only [Nat.pow_eq]
      push_cast
      rw [div_mul_eq_mul_div]
      congr 1
      linear_combination (m.ratio.1 : ℚ) * ten_zpow_neg hp
    · simp only [Nat.pow_eq]
      push_cast
      rw [ten_zpow_nonneg hp]
      field_simp
  have hpair : m.neighbours p =
      if 2 * (num % den) < den ∨ 2 * (num % den) = den ∧ num / den % 2 = 0
        then (⟨num / den, p⟩, ⟨num / den + 1, p⟩) else (⟨num / den + 1, p⟩, ⟨num / den, p⟩) := by
    rw [← hnum, ← hd]
    rfl
  have hnear := nearer_natural num hpos
  rw [hpair, ← hscaled]
  split_ifs at hnear ⊢
  all_goals
    refine ⟨rfl, rfl, ?_⟩
    rw [Decimal.value, ← sub_mul, abs_mul, abs_of_pos hpow]
    exact mul_le_mul_of_nonneg_right hnear hpow.le

/-- Seventeen digits are enough: the mesh is less than the least half-width of an interval. -/
theorem rounds_of_near (hs : m.significand ≠ 0) {p : ℤ} (hp : (10 : ℚ) ^ (p + 16) ≤ m.value)
    (hd : |d.value - m.value| ≤ 1 / 2 * 10 ^ p) : m.Rounds d.value := by
  obtain ⟨hbound, -, -, -⟩ := m.canonical
  have hpos : (0 : ℚ) < 2 ^ m.exponent := by positivity
  have hsig : (m.significand : ℚ) ≤ 9007199254740992 := by exact_mod_cast hbound.le
  rw [zpow_add₀ (by norm_num), value] at hp
  norm_num at hp
  rw [abs_le, value] at hd
  have hlow : (m.lowEnd : ℚ) / 4 + m.significand / 20000000000000000 < m.significand := by
    have hone : (1 : ℚ) ≤ m.significand := by exact_mod_cast Nat.one_le_iff_ne_zero.2 hs
    unfold lowEnd
    split_ifs with h
    · rw [h.1]
      norm_num [leastFull]
    · rw [Nat.cast_sub (by omega)]
      push_cast
      linarith
  refine Around.of_lt ?_ ?_
  · nlinarith [mul_lt_mul_of_pos_right hlow hpos]
  · push_cast
    nlinarith

theorem shortest_go (hs : m.significand ≠ 0) {decade : ℤ} (hd : (10 : ℚ) ^ decade ≤ m.value)
    {tries n : ℕ} (ht : 0 < tries) (hn : tries + n = 18) :
    ∃ d : Decimal, shortest.go m decade tries n = d.stripped ∧ m.Rounds d.value ∧ decade - 16 ≤ d.power := by
  induction tries generalizing n with
  | zero => omega
  | succ k ih =>
    obtain ⟨hnear, hfar, hdist⟩ := m.neighbours_near (decade + 1 - n)
    rw [shortest.go]
    simp only
    split_ifs with h1 h2
    · exact ⟨_, rfl, readsBack_iff.1 h1, by omega⟩
    · exact ⟨_, rfl, readsBack_iff.1 h2, by omega⟩
    · rcases Nat.eq_zero_or_pos k with rfl | hk
      · -- With seventeen digits the near neighbour always reads back, so the test was not reached.
        refine absurd (readsBack_iff.2 (rounds_of_near hs ?_ hdist)) h1
        rwa [show decade + 1 - (n : ℤ) + 16 = decade by omega]
      · exact ih hk (by omega)

theorem value_pos (hs : m.significand ≠ 0) : 0 < m.value := by
  have hone : (0 : ℚ) < m.significand := by exact_mod_cast Nat.pos_of_ne_zero hs
  rw [value]
  positivity

theorem low_pos (hs : m.significand ≠ 0) : (0 : ℚ) < m.lowEnd / 4 * 2 ^ m.exponent := by
  have : 0 < m.lowEnd := by
    unfold lowEnd
    split_ifs <;> omega
  positivity

theorem num_pos (hs : m.significand ≠ 0) : 0 < m.ratio.1 := by
  refine Nat.pos_of_ne_zero fun h0 => ?_
  have hv := m.value_pos hs
  rw [← m.ratio_value.2, h0, Nat.cast_zero, zero_div] at hv
  exact lt_irrefl _ hv

theorem decade_ge (hs : m.significand ≠ 0) : -324 ≤ decade m.ratio.1 m.ratio.2 := by
  obtain ⟨hden, hval⟩ := m.ratio_value
  have hone : (1 : ℚ) ≤ m.significand := by exact_mod_cast Nat.one_le_iff_ne_zero.2 hs
  have hlt := (decade_bounds (m.num_pos hs) hden).2
  rw [hval] at hlt
  have hleast : (2 : ℚ) ^ (-1074 : ℤ) ≤ m.value := by
    rw [value, ← one_mul ((2 : ℚ) ^ (-1074 : ℤ))]
    exact mul_le_mul hone (zpow_le_zpow_right₀ one_le_two m.canonical.2.1) (by positivity)
      (by positivity)
  have hten : (10 : ℚ) ^ (-324 : ℤ) ≤ 2 ^ (-1074 : ℤ) := by
    rw [zpow_neg, zpow_neg, zpow_ofNat, zpow_ofNat]
    have hnat : 2 ^ 1074 ≤ 10 ^ 324 := by decide +kernel
    exact inv_anti₀ (by positivity) (by exact_mod_cast hnat)
  have := (zpow_lt_zpow_iff_right₀ (show (1 : ℚ) < 10 by norm_num)).1
    ((hten.trans hleast).trans_lt hlt)
  omega

theorem shortest_rounds (hs : m.significand ≠ 0) :
    m.Rounds m.shortest.value ∧ -800 ≤ m.shortest.power := by
  obtain ⟨hden, hval⟩ := m.ratio_value
  have hge := m.decade_ge hs
  have hlow : (10 : ℚ) ^ decade m.ratio.1 m.ratio.2 ≤ m.value := by
    rw [← hval]
    exact (decade_bounds (m.num_pos hs) hden).1
  have htries : 0 < 17 := by decide
  obtain ⟨d, hgo, hrounds, hp⟩ := shortest_go (n := 1) hs hlow htries rfl
  have hshort : m.shortest = d.stripped := by
    rw [shortest, if_neg hs]
    exact hgo
  rw [hshort, d.stripped_value]
  exact ⟨hrounds, by have := d.power_le_stripped; omega⟩

theorem shortest_zero (hs : m.significand = 0) : m.shortest = ⟨0, 0⟩ := by
  rw [shortest, if_pos hs]

theorem eq_zero (hs : m.significand = 0) : m = zero := by
  obtain ⟨s, e, hc⟩ := m
  obtain rfl : s = 0 := hs
  obtain ⟨-, -, -, hfull⟩ := hc
  obtain rfl : e = -1074 := by
    rcases hfull with h | h
    · exact absurd h (by decide)
    · exact h
  rfl

end Magnitude

namespace Double

open Magnitude

variable {m : Magnitude}

theorem ten_pow_le {n : ℕ} (hn : n ≠ 0) : 10 ^ (n.log2 * 3 / 10) ≤ n := by
  refine le_trans ?_ (Nat.log2_self_le hn)
  generalize n.log2 = k
  refine le_of_pow_le_pow_left₀ (n := 10) (by decide) (Nat.zero_le _) ?_
  calc (10 ^ (k * 3 / 10)) ^ 10 = 10 ^ (k * 3 / 10 * 10) := (pow_mul _ _ _).symm
    _ ≤ 10 ^ (3 * k) := Nat.pow_le_pow_right (by decide) (by omega)
    _ = 1000 ^ k := by rw [pow_mul]; norm_num
    _ ≤ 1024 ^ k := Nat.pow_le_pow_left (by decide) k
    _ = (2 ^ k) ^ 10 := by rw [← pow_mul, mul_comm, pow_mul]; norm_num

/-- Whichever digits and power of ten stand for a number that rounds to a magnitude, they are read as
that magnitude. -/
theorem ofScientific_eq (negative : Bool) (hs : m.significand ≠ 0) {n : ℕ} {p : ℤ} (hp : -800 ≤ p)
    (h : m.Rounds (n * 10 ^ p)) : ofScientific negative n p = .finite negative m := by
  have hn : n ≠ 0 := by
    rintro rfl
    have hlow := h.1
    rw [Nat.cast_zero, zero_mul] at hlow
    exact absurd hlow (not_le.2 (m.low_pos hs))
  have hsize : ¬((n.log2 * 3 / 10 : ℕ) : ℤ) + p > 400 := by
    intro hgt
    have hten : (10 : ℚ) ^ (401 : ℤ) ≤ n * 10 ^ p := by
      calc (10 : ℚ) ^ (401 : ℤ) ≤ 10 ^ (((n.log2 * 3 / 10 : ℕ) : ℤ) + p) :=
            zpow_le_zpow_right₀ (by norm_num) (by omega)
        _ = 10 ^ (n.log2 * 3 / 10) * 10 ^ p := by rw [zpow_add₀ (by norm_num), zpow_natCast]
        _ ≤ n * 10 ^ p := by
            refine mul_le_mul_of_nonneg_right ?_ (by positivity)
            exact_mod_cast ten_pow_le hn
    have hhigh : (n * 10 ^ p : ℚ) ≤ 2 ^ 54 * 2 ^ (971 : ℤ) := by
      refine h.2.1.trans (mul_le_mul ?_ (zpow_le_zpow_right₀ one_le_two m.canonical.2.2.1)
        (by positivity) (by positivity))
      have := m.canonical.1
      have : (m.significand : ℚ) ≤ 9007199254740992 := by exact_mod_cast this.le
      push_cast
      linarith
    have hlt : 2 ^ 54 * 2 ^ 971 < 10 ^ 401 := by decide +kernel
    have hcontra := hten.trans hhigh
    rw [zpow_ofNat, zpow_ofNat] at hcontra
    exact absurd (by exact_mod_cast hcontra) (not_le.2 hlt)
  simp only [ofScientific]
  rw [if_neg hn, if_neg hsize, if_neg (by omega)]
  split_ifs with hneg
  · have hval : (n : ℚ) / (Nat.pow 10 (-p).toNat : ℕ) = n * 10 ^ p := by
      simp only [Nat.pow_eq]
      push_cast
      rw [div_eq_iff (by positivity)]
      linear_combination (-(n : ℚ)) * ten_zpow_neg hneg
    have hden : 0 < Nat.pow 10 (-p).toNat := Nat.pow_pos (by decide)
    rw [ofRatio, ofRatio?_eq hs hden (hval ▸ h)]
  · have hval : ((n * Nat.pow 10 p.toNat : ℕ) : ℚ) / (1 : ℕ) = n * 10 ^ p := by
      simp only [Nat.pow_eq]
      push_cast
      rw [ten_zpow_nonneg hneg, div_one]
    rw [ofRatio, ofRatio?_eq hs one_pos (hval ▸ h)]

/-- The shortest decimal of a magnitude, with zeros moved from the power to the digits, is read as the
magnitude. -/
theorem ofScientific_shortest (negative : Bool) (m : Magnitude) {n : ℕ} {p : ℤ} (hp : -800 ≤ p)
    (h : (n : ℚ) * 10 ^ p = m.shortest.value) :
    ofScientific negative n p = .finite negative m := by
  by_cases hs : m.significand = 0
  · rw [m.shortest_zero hs, Decimal.value, Nat.cast_zero, zero_mul, mul_eq_zero] at h
    have hn : n = 0 := by
      rcases h with h | h
      · exact_mod_cast h
      · exact absurd h (by positivity)
    rw [ofScientific, if_pos hn, m.eq_zero hs]
  · exact ofScientific_eq negative hs hp (h ▸ (m.shortest_rounds hs).1)

end Double

end SchemaLedger
