import Mathlib.Algebra.Order.Field.Power
import Mathlib.Algebra.Order.Field.Rat
import Mathlib.Tactic.FieldSimp
import Mathlib.Tactic.Linarith
import Mathlib.Tactic.Positivity
import Mathlib.Tactic.Ring
import SchemaLedger.Decimal.Shortest

set_option autoImplicit false

/-!
# Rounding a quotient

Which quotients are rounded to a given magnitude: those between the two points halfway to its
neighbours, the points themselves exactly if the significand is even. A quotient has a nearest double
exactly if it stays below the point halfway between the greatest double and the power of two that would
come next.
-/
namespace SchemaLedger

/-- `x` lies between `low` and `high`, or on one of them if `n` is even. -/
def Around (n : ℕ) (low high x : ℚ) : Prop :=
  low ≤ x ∧ x ≤ high ∧ (n % 2 = 1 → low < x ∧ x < high)

theorem Around.mul {n : ℕ} {low high x c : ℚ} (h : Around n low high x) (hc : 0 < c) :
    Around n (low * c) (high * c) (x * c) := by
  obtain ⟨hl, hh, hodd⟩ := h
  refine ⟨mul_le_mul_of_nonneg_right hl hc.le, mul_le_mul_of_nonneg_right hh hc.le, fun hn => ?_⟩
  exact ⟨mul_lt_mul_of_pos_right (hodd hn).1 hc, mul_lt_mul_of_pos_right (hodd hn).2 hc⟩

theorem Around.of_lt {n : ℕ} {low high x : ℚ} (hl : low < x) (hh : x < high) :
    Around n low high x :=
  ⟨hl.le, hh.le, fun _ => ⟨hl, hh⟩⟩

theorem roundHalfEven_eq {num den n : ℕ} (hd : 0 < den)
    (h : Around n (n - 1 / 2) (n + 1 / 2) (num / den)) : roundHalfEven num den = n := by
  have hq : (0 : ℚ) < den := by exact_mod_cast hd
  obtain ⟨hl, hh, hodd⟩ := h
  rw [le_div_iff₀ hq] at hl
  rw [div_le_iff₀ hq] at hh
  rw [lt_div_iff₀ hq, div_lt_iff₀ hq] at hodd
  have hl' : 2 * (n * den) ≤ 2 * num + den := by
    have : (2 : ℚ) * (n * den) ≤ 2 * num + den := by linarith
    exact_mod_cast this
  have hh' : 2 * num ≤ 2 * (n * den) + den := by
    have : (2 : ℚ) * num ≤ 2 * (n * den) + den := by linarith
    exact_mod_cast this
  have hodd' : n % 2 = 1 → 2 * (n * den) < 2 * num + den ∧ 2 * num < 2 * (n * den) + den := by
    intro hn
    have hlt : (2 : ℚ) * (n * den) < 2 * num + den := by linarith [(hodd hn).1]
    have hgt : (2 : ℚ) * num < 2 * (n * den) + den := by linarith [(hodd hn).2]
    exact ⟨by exact_mod_cast hlt, by exact_mod_cast hgt⟩
  rw [Nat.mul_comm n den] at hl' hh' hodd'
  have hnum := Nat.div_add_mod num den
  have hr := Nat.mod_lt num hd
  simp only [roundHalfEven]
  generalize num / den = q at hnum ⊢
  generalize num % den = r at hnum hr ⊢
  have hqn : q ≤ n := by
    by_contra hlt
    have := Nat.mul_le_mul_left den (show n + 1 ≤ q by omega)
    rw [Nat.mul_add] at this
    omega
  have hnq : n ≤ q + 1 := by
    by_contra hlt
    have := Nat.mul_le_mul_left den (show q + 2 ≤ n by omega)
    rw [Nat.mul_add] at this
    omega
  rcases show n = q ∨ n = q + 1 by omega with rfl | rfl
  · generalize den * n = p at *
    split_ifs <;> omega
  · rw [Nat.mul_add, Nat.mul_one] at hl' hh' hodd'
    generalize den * q = p at *
    split_ifs <;> omega

namespace Magnitude

variable {num den : ℕ}

/-- `2 ^ e` as the factor that a shift of numerator or denominator stands for. -/
theorem shift_numerator {e : ℤ} (he : e ≤ 0) :
    ((num <<< (-e).toNat : ℕ) : ℚ) / den = num / den / 2 ^ e := by
  have hp : (2 : ℚ) ^ e = ((2 : ℚ) ^ (-e).toNat)⁻¹ := by
    rw [← zpow_natCast, ← zpow_neg, Int.toNat_of_nonneg (by omega), neg_neg]
  rw [Nat.shiftLeft_eq, hp]
  push_cast
  field_simp

theorem shift_denominator {e : ℤ} (he : 0 ≤ e) :
    (num : ℚ) / ((den <<< e.toNat : ℕ) : ℚ) = num / den / 2 ^ e := by
  have hp : (2 : ℚ) ^ e = (2 : ℚ) ^ e.toNat := by
    rw [← zpow_natCast, Int.toNat_of_nonneg (by omega)]
  rw [Nat.shiftLeft_eq, hp]
  push_cast
  field_simp

theorem roundAt_eq (hd : 0 < den) {e : ℤ} {n : ℕ}
    (h : Around n ((n - 1 / 2) * 2 ^ e) ((n + 1 / 2) * 2 ^ e) (num / den)) :
    roundAt num den e = n := by
  have hpow : (0 : ℚ) < 2 ^ e := by positivity
  have hx := h.mul (inv_pos.2 hpow)
  rw [mul_inv_cancel_right₀ hpow.ne', mul_inv_cancel_right₀ hpow.ne', ← div_eq_mul_inv] at hx
  simp only [roundAt]
  split_ifs with he
  · rw [← shift_numerator he.le] at hx
    exact roundHalfEven_eq hd hx
  · rw [← shift_denominator (not_lt.1 he)] at hx
    refine roundHalfEven_eq ?_ hx
    rw [Nat.shiftLeft_eq]
    positivity

theorem below_iff (hd : 0 < den) (p : ℤ) :
    below num den p = true ↔ (num : ℚ) / den < 2 ^ p := by
  have hpow : (0 : ℚ) < 2 ^ p := by positivity
  have hq : (0 : ℚ) < den := by exact_mod_cast hd
  rw [← div_lt_one hpow]
  simp only [below]
  split_ifs with hp
  · rw [← shift_numerator hp.le, div_lt_one hq, decide_eq_true_eq]
    norm_cast
  · have hs : (0 : ℚ) < ((den <<< p.toNat : ℕ) : ℚ) := by
      rw [Nat.shiftLeft_eq]
      positivity
    rw [← shift_denominator (not_lt.1 hp), div_lt_one hs, decide_eq_true_eq]
    norm_cast

theorem log2_bounds {n : ℕ} (hn : 0 < n) :
    (2 : ℚ) ^ (n.log2 : ℤ) ≤ n ∧ (n : ℚ) < 2 ^ ((n.log2 : ℤ) + 1) := by
  have hl := Nat.log2_self_le hn.ne'
  have hh := @Nat.lt_log2_self n
  constructor
  · rw [zpow_natCast]
    exact_mod_cast hl
  · rw [show ((n.log2 : ℤ) + 1) = ((n.log2 + 1 : ℕ) : ℤ) by push_cast; rfl, zpow_natCast]
    exact_mod_cast hh

/-- The place is the one at which 53 bits are kept, unless it is below the least place there is. -/
theorem exists_place (hn : 0 < num) (hd : 0 < den) : ∃ e : ℤ,
    (2 : ℚ) ^ (e + 52) ≤ num / den ∧ (num : ℚ) / den < 2 ^ (e + 53) ∧
      place num den = max e (-1074) := by
  have hq : (0 : ℚ) < den := by exact_mod_cast hd
  obtain ⟨hnl, hnh⟩ := log2_bounds hn
  obtain ⟨hdl, hdh⟩ := log2_bounds hd
  generalize hg : (num.log2 : ℤ) - den.log2 - 52 = guess
  have hlow : (2 : ℚ) ^ (guess + 51) ≤ num / den := by
    rw [le_div_iff₀ hq]
    have hp : (2 : ℚ) ^ (guess + 51) * 2 ^ ((den.log2 : ℤ) + 1) = 2 ^ (num.log2 : ℤ) := by
      rw [← zpow_add₀ two_ne_zero]
      congr 1
      omega
    have := mul_le_mul_of_nonneg_left hdh.le (show (0 : ℚ) ≤ 2 ^ (guess + 51) by positivity)
    linarith
  have hhigh : (num : ℚ) / den < 2 ^ (guess + 53) := by
    rw [div_lt_iff₀ hq]
    have hp : (2 : ℚ) ^ (guess + 53) * 2 ^ (den.log2 : ℤ) = 2 ^ ((num.log2 : ℤ) + 1) := by
      rw [← zpow_add₀ two_ne_zero]
      congr 1
      omega
    have := mul_le_mul_of_nonneg_left hdl (show (0 : ℚ) ≤ 2 ^ (guess + 53) by positivity)
    linarith
  simp only [place, hg]
  by_cases hb : below num den (guess + 52) = true
  · rw [if_pos hb]
    rw [below_iff hd] at hb
    refine ⟨guess - 1, ?_, ?_, rfl⟩
    · rw [show guess - 1 + 52 = guess + 51 by ring]
      exact hlow
    · rw [show guess - 1 + 53 = guess + 52 by ring]
      exact hb
  · rw [if_neg hb]
    rw [below_iff hd, not_lt] at hb
    exact ⟨guess, hb, hhigh, rfl⟩

theorem lt_of_zpow_lt {a b : ℤ} (h : (2 : ℚ) ^ a < 2 ^ b) : a < b :=
  (zpow_lt_zpow_iff_right₀ one_lt_two).1 h

theorem place_eq (hn : 0 < num) (hd : 0 < den) {e : ℤ} (he : -1074 ≤ e)
    (hl : (2 : ℚ) ^ (e + 52) ≤ num / den) (hh : (num : ℚ) / den < 2 ^ (e + 53)) :
    place num den = e := by
  obtain ⟨p, hpl, hph, hp⟩ := exists_place hn hd
  have hep := lt_of_zpow_lt (hl.trans_lt hph)
  have hpe := lt_of_zpow_lt (hpl.trans_lt hh)
  omega

theorem place_eq_least (hn : 0 < num) (hd : 0 < den)
    (hh : (num : ℚ) / den < 2 ^ (-1074 + 53 : ℤ)) : place num den = -1074 := by
  obtain ⟨p, hpl, -, hp⟩ := exists_place hn hd
  have hpe := lt_of_zpow_lt (hpl.trans_lt hh)
  omega

/-- Four times the value of the significand halfway to the next lower magnitude. -/
def lowEnd (m : Magnitude) : ℕ :=
  4 * m.significand - (if m.significand = leastFull ∧ m.exponent ≠ -1074 then 1 else 2)

/-- The quotients that are rounded to a magnitude. -/
def Rounds (m : Magnitude) (x : ℚ) : Prop :=
  Around m.significand (m.lowEnd / 4 * 2 ^ m.exponent)
    ((4 * m.significand + 2 : ℕ) / 4 * 2 ^ m.exponent) x

variable {m : Magnitude}

theorem make?_self (m : Magnitude) : make? m.significand m.exponent = some m := by
  rw [make?, dif_pos m.canonical]

theorem ofRatio?_of_place (hn : 0 < num) (hd : 0 < den) (hp : place num den = m.exponent)
    (h : Around m.significand ((m.significand - 1 / 2) * 2 ^ m.exponent)
      ((m.significand + 1 / 2) * 2 ^ m.exponent) (num / den)) :
    ofRatio? num den = some m := by
  have hr := roundAt_eq hd h
  have hs := m.canonical.1
  simp only [ofRatio?, hp, hr]
  rw [if_neg hn.ne', if_neg (by omega), make?_self]

/-- Just below a power of two the place is one lower, and rounding reaches the power from there. -/
theorem ofRatio?_of_narrow (hn : 0 < num) (hd : 0 < den) (hs : m.significand = leastFull)
    (he : m.exponent ≠ -1074) (hl : (leastFull - 1 / 4 : ℚ) * 2 ^ m.exponent ≤ num / den)
    (hh : (num : ℚ) / den < leastFull * 2 ^ m.exponent) : ofRatio? num den = some m := by
  have hleast := m.canonical.2.1
  have hpow : (2 : ℚ) ^ m.exponent = 2 * 2 ^ (m.exponent - 1) := by
    rw [mul_comm, ← zpow_add_one₀ two_ne_zero, sub_add_cancel]
  have hpos : (0 : ℚ) < 2 ^ (m.exponent - 1) := by positivity
  rw [hpow] at hl hh
  have hp : place num den = m.exponent - 1 := by
    refine place_eq hn hd (by omega) (le_trans ?_ hl) (hh.trans_le ?_)
    · rw [zpow_add₀ two_ne_zero]
      norm_num [leastFull]
      linarith
    · rw [zpow_add₀ two_ne_zero]
      norm_num [leastFull]
      linarith
  have hr : roundAt num den (m.exponent - 1) = 2 * leastFull := by
    refine roundAt_eq hd ⟨le_trans ?_ hl, hh.le.trans ?_, fun h => absurd h (by decide)⟩
    · push_cast
      nlinarith
    · push_cast
      nlinarith
  simp only [ofRatio?, hp, hr]
  rw [if_neg hn.ne', if_pos trivial, sub_add_cancel, ← hs, make?_self]

theorem ofRatio?_eq (hs : m.significand ≠ 0) (hd : 0 < den) (h : m.Rounds (num / den)) :
    ofRatio? num den = some m := by
  obtain ⟨hbound, hleast, -, hfull⟩ := m.canonical
  obtain ⟨hl, hh, hodd⟩ := h
  have hpos : (0 : ℚ) < 2 ^ m.exponent := by positivity
  have hsig : (m.significand : ℚ) + 1 ≤ 2 * leastFull := by exact_mod_cast hbound
  have hhigh : ((4 * m.significand + 2 : ℕ) : ℚ) / 4 = m.significand + 1 / 2 := by
    push_cast
    ring
  rw [hhigh] at hh hodd
  have hlow : (m.significand : ℚ) - 1 / 2 ≤ m.lowEnd / 4 := by
    have : 4 * m.significand ≤ m.lowEnd + 2 := by
      unfold lowEnd
      split_ifs <;> omega
    have : (4 * m.significand : ℚ) ≤ m.lowEnd + 2 := by exact_mod_cast this
    linarith
  have haround : Around m.significand ((m.significand - 1 / 2) * 2 ^ m.exponent)
      ((m.significand + 1 / 2) * 2 ^ m.exponent) (num / den) := by
    have hle := mul_le_mul_of_nonneg_right hlow hpos.le
    exact ⟨hle.trans hl, hh, fun hn => ⟨hle.trans_lt (hodd hn).1, (hodd hn).2⟩⟩
  have hn : 0 < num := by
    have hone : (1 : ℚ) ≤ m.significand := by exact_mod_cast Nat.one_le_iff_ne_zero.2 hs
    have hx : (0 : ℚ) < num / den := by nlinarith [haround.1]
    refine Nat.pos_of_ne_zero fun h0 => ?_
    rw [h0, Nat.cast_zero, zero_div] at hx
    exact lt_irrefl _ hx
  by_cases hx : (leastFull : ℚ) * 2 ^ m.exponent ≤ num / den
  · refine ofRatio?_of_place hn hd (place_eq hn hd hleast ?_ ?_) haround
    · rw [zpow_add₀ two_ne_zero]
      norm_num [leastFull] at hx ⊢
      linarith
    · rw [zpow_add₀ two_ne_zero]
      norm_num [leastFull] at hsig ⊢
      nlinarith
  · rw [not_le] at hx
    by_cases he : m.exponent = -1074
    · refine ofRatio?_of_place hn hd ?_ haround
      rw [he]
      refine place_eq_least hn hd (hx.trans_le ?_)
      rw [he, zpow_add₀ two_ne_zero, mul_comm]
      norm_num [leastFull]
    · -- a full significand whose interval reaches below the least one is the least one
      have hleastSig : m.significand = leastFull := by
        have hle : (m.significand : ℚ) - 1 / 2 < leastFull := by
          by_contra hge
          nlinarith [haround.1]
        have : (m.significand : ℚ) < (leastFull + 1 : ℕ) := by
          push_cast
          linarith
        have : m.significand < leastFull + 1 := by exact_mod_cast this
        omega
      refine ofRatio?_of_narrow hn hd hleastSig he (le_trans (le_of_eq ?_) hl) hx
      rw [lowEnd, if_pos ⟨hleastSig, he⟩, hleastSig]
      norm_num [leastFull]

end Magnitude

/-! ## Numbers beyond every double -/

variable {num den : ℕ}

/-- Below an even natural are rounded the quotients that are more than a half away from it. -/
theorem roundHalfEven_lt_iff (hd : 0 < den) {b : ℕ} (hb : b % 2 = 0) :
    roundHalfEven num den < b ↔ (num : ℚ) / den < b - 1 / 2 := by
  have hq : (0 : ℚ) < den := by exact_mod_cast hd
  have hscaled : (num : ℚ) / den < b - 1 / 2 ↔ 2 * num + den < 2 * (den * b) := by
    rw [div_lt_iff₀ hq, ← Nat.cast_lt (α := ℚ)]
    push_cast
    constructor <;> intro h <;> linarith
  have hnum := Nat.div_add_mod num den
  have hr := Nat.mod_lt num hd
  rw [hscaled, roundHalfEven]
  generalize num / den = q at hnum ⊢
  generalize num % den = r at hnum hr ⊢
  rcases Nat.lt_or_ge (q + 1) b with hlt | hge
  · have := Nat.mul_le_mul_left den (show q + 2 ≤ b by omega)
    rw [Nat.mul_add] at this
    split_ifs <;> omega
  · rcases Nat.lt_or_ge q b with hq | hge
    · obtain rfl : b = q + 1 := by omega
      rw [Nat.mul_add, Nat.mul_one]
      split_ifs <;> omega
    · have := Nat.mul_le_mul_left den hge
      split_ifs <;> omega

/-- A quotient that does not exceed a natural is not rounded to a greater one. -/
theorem roundHalfEven_le (hd : 0 < den) {b : ℕ} (h : (num : ℚ) / den ≤ b) :
    roundHalfEven num den ≤ b := by
  have hq : (0 : ℚ) < den := by exact_mod_cast hd
  rw [div_le_iff₀ hq] at h
  have hle : num ≤ b * den := by exact_mod_cast h
  have hnum := Nat.div_add_mod num den
  have hdiv : num / den ≤ b := Nat.div_le_of_le_mul (by rwa [Nat.mul_comm])
  rw [roundHalfEven]
  generalize num / den = q at *
  generalize num % den = r at *
  rcases Nat.lt_or_ge q b with hlt | hge
  · split_ifs <;> omega
  · obtain rfl : b = q := by omega
    have hr : r = 0 := by rw [Nat.mul_comm] at hle; omega
    split_ifs <;> omega

namespace Magnitude

theorem roundAt_lt_iff (hd : 0 < den) (e : ℤ) {b : ℕ} (hb : b % 2 = 0) :
    roundAt num den e < b ↔ (num : ℚ) / den < (b - 1 / 2) * 2 ^ e := by
  have hpow : (0 : ℚ) < 2 ^ e := by positivity
  rw [← div_lt_iff₀ hpow]
  simp only [roundAt]
  split_ifs with he
  · rw [roundHalfEven_lt_iff hd hb, shift_numerator he.le]
  · rw [roundHalfEven_lt_iff (by rw [Nat.shiftLeft_eq]; positivity) hb,
      shift_denominator (not_lt.1 he)]

theorem roundAt_le (hd : 0 < den) {e : ℤ} {b : ℕ} (h : (num : ℚ) / den ≤ b * 2 ^ e) :
    roundAt num den e ≤ b := by
  have hpow : (0 : ℚ) < 2 ^ e := by positivity
  rw [← div_le_iff₀ hpow] at h
  simp only [roundAt]
  split_ifs with he
  · exact roundHalfEven_le hd (by rwa [shift_numerator he.le])
  · exact roundHalfEven_le (by rw [Nat.shiftLeft_eq]; positivity)
      (by rwa [shift_denominator (not_lt.1 he)])

/-- The least number that is nearer to the power of two behind the greatest double than to it, a half
counted as nearer. -/
def limit : ℕ := 2 ^ 1024 - 2 ^ 970

theorem limit_eq : (limit : ℚ) = ((2 * leastFull : ℕ) - 1 / 2) * 2 ^ (971 : ℤ) := by
  have hlimit : limit = (4 * leastFull - 1) * 2 ^ 970 := by decide +kernel
  have hpow : (2 : ℚ) ^ (971 : ℤ) = (2 ^ 970 : ℕ) * 2 := by
    rw [show (971 : ℤ) = (970 : ℕ) + 1 by rfl, zpow_add_one₀ two_ne_zero, zpow_natCast, Nat.cast_pow,
      Nat.cast_ofNat]
  rw [hlimit, hpow, Nat.cast_mul]
  generalize ((2 ^ 970 : ℕ) : ℚ) = p
  norm_num [leastFull]
  ring

theorem limit_pos : 0 < limit := by decide +kernel

theorem make?_eq_none {m : ℕ} {e : ℤ} : make? m e = none ↔ ¬Canonical m e := by
  rw [make?]
  split_ifs with h <;> simp [h]

/-- There is no nearest double exactly if the quotient reaches the limit. -/
theorem ofRatio?_eq_none_iff (hd : 0 < den) :
    ofRatio? num den = none ↔ (limit : ℚ) ≤ num / den := by
  rcases Nat.eq_zero_or_pos num with rfl | hn
  · rw [Nat.cast_zero, zero_div, ofRatio?, if_pos rfl]
    exact iff_of_false (Option.some_ne_none _) (not_le.2 (Nat.cast_pos.2 limit_pos))
  obtain ⟨e, hl, hh, hp⟩ := exists_place hn hd
  have hhigh : (num : ℚ) / den < 2 ^ (53 + place num den) :=
    hh.trans_le (zpow_le_zpow_right₀ one_le_two (by omega))
  have hfit : (2 : ℚ) ^ (53 + place num den) = (2 * leastFull : ℕ) * 2 ^ place num den := by
    rw [zpow_add₀ two_ne_zero]
    norm_num [leastFull]
  have hle : roundAt num den (place num den) ≤ 2 * leastFull := roundAt_le hd (hfit ▸ hhigh.le)
  have hfull : place num den ≠ -1074 → leastFull ≤ roundAt num den (place num den) := by
    intro hne
    have hlow : (leastFull : ℚ) * 2 ^ place num den ≤ num / den := by
      refine le_trans (le_of_eq ?_) hl
      rw [show place num den = e by omega, add_comm, zpow_add₀ two_ne_zero]
      norm_num [leastFull]
    have hpow : (0 : ℚ) < 2 ^ place num den := by positivity
    rw [← not_lt, roundAt_lt_iff hd _ (by decide), not_lt]
    linarith
  have hround : roundAt num den (place num den) < 2 * leastFull ↔
      (num : ℚ) / den < ((2 * leastFull : ℕ) - 1 / 2) * 2 ^ place num den :=
    roundAt_lt_iff hd _ (by decide)
  have hnone : ofRatio? num den = none ↔
      971 < place num den ∨ place num den = 971 ∧ roundAt num den (place num den) = 2 * leastFull := by
    have hleast : -1074 ≤ place num den := by omega
    simp only [ofRatio?]
    rw [if_neg hn.ne']
    split_ifs with hm
    all_goals
      rw [make?_eq_none, Canonical]
      simp only [leastFull] at *
      omega
  rw [hnone, limit_eq]
  generalize place num den = p at *
  rcases lt_trichotomy p 971 with hlt | rfl | hgt
  · refine iff_of_false (by omega) (not_le.2 (hhigh.trans_le ?_))
    calc (2 : ℚ) ^ (53 + p) ≤ 2 ^ (52 + 971 : ℤ) := zpow_le_zpow_right₀ one_le_two (by omega)
      _ ≤ _ := by
          rw [zpow_add₀ two_ne_zero]
          exact mul_le_mul_of_nonneg_right (by norm_num [leastFull]) (by positivity)
  · rw [← not_lt, ← hround]
    omega
  · refine iff_of_true (Or.inl hgt) (le_trans ?_ hl)
    calc (((2 * leastFull : ℕ) : ℚ) - 1 / 2) * 2 ^ (971 : ℤ) ≤ 2 ^ (53 + 971 : ℤ) := by
          rw [zpow_add₀ two_ne_zero]
          exact mul_le_mul_of_nonneg_right (by norm_num [leastFull]) (by positivity)
      _ ≤ 2 ^ (e + 52) := zpow_le_zpow_right₀ one_le_two (by omega)

end Magnitude

namespace Double

/-- An integer has a nearest double exactly if it stays below the limit, on either side of zero. -/
theorem ofInt?_eq_none_iff (n : ℤ) : ofInt? n = none ↔ Magnitude.limit ≤ n.natAbs := by
  rw [ofInt?, Option.map_eq_none_iff, Magnitude.ofRatio?_eq_none_iff one_pos, Nat.cast_one, div_one,
    Nat.cast_le]

theorem isFinite_of_ofInt? {n : ℤ} {x : Double} (h : ofInt? n = some x) : x.isFinite = true := by
  rw [ofInt?, Option.map_eq_some_iff] at h
  obtain ⟨m, -, rfl⟩ := h
  rfl

end Double

end SchemaLedger
