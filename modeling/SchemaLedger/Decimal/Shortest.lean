import SchemaLedger.Decimal.Double

set_option autoImplicit false

/-!
# The shortest decimal that reads back

The reals that round to a magnitude form an interval: halfway to the neighbour on each side, ends
included exactly when the significand is even. `shortest` finds the coarsest decimal grid with a
point in that interval, and on it the point nearest to the value.
-/
namespace SchemaLedger

/-- `digits * 10 ^ power`. -/
structure Decimal where
  digits : Nat
  power : Int
  deriving DecidableEq, Repr

namespace Decimal

/-- The same number without trailing zero digits. -/
def stripped (d : Decimal) : Decimal := go (Nat.log2 d.digits) d
where
  go : Nat → Decimal → Decimal
    | 0, d => d
    | n + 1, d => if d.digits ≠ 0 ∧ d.digits % 10 = 0 then go n ⟨d.digits / 10, d.power + 1⟩ else d

def text (d : Decimal) : List Char := Nat.toDigits 10 d.digits

/-- Compares a decimal with the quotient `num / den`. -/
def compareRatio (d : Decimal) (num den : Nat) : Ordering :=
  if d.power < 0 then compare (d.digits * den) (num * Nat.pow 10 (-d.power).toNat)
  else compare (d.digits * Nat.pow 10 d.power.toNat * den) num

end Decimal

namespace Magnitude

/-- The ends of the interval that rounds to this magnitude, as `(low, high, den)`. -/
def interval (m : Magnitude) : Nat × Nat × Nat :=
  let narrow := m.significand = leastFull ∧ m.exponent ≠ -1074
  let low := 4 * m.significand - (if narrow then 1 else 2)
  let high := 4 * m.significand + 2
  if m.exponent < 0 then (low, high, 4 <<< (-m.exponent).toNat)
  else (low <<< m.exponent.toNat, high <<< m.exponent.toNat, 4)

/-- Whether a decimal rounds to this magnitude. -/
def readsBack (m : Magnitude) (d : Decimal) : Bool :=
  let (low, high, den) := m.interval
  if m.significand % 2 = 0 then
    d.compareRatio low den ≠ .lt ∧ d.compareRatio high den ≠ .gt
  else
    d.compareRatio low den = .gt ∧ d.compareRatio high den = .lt

/-- The largest `p` with `10 ^ p ≤ num / den`. -/
def decade (num den : Nat) : Int :=
  if den ≤ num then ((Nat.toDigits 10 (num / den)).length : Int) - 1
  else
    let inverse := (den + num - 1) / num
    Int.negOfNat (Nat.toDigits 10 (inverse - 1)).length

/-- The two neighbours of the value on the grid `10 ^ power`, the nearer one first. -/
def neighbours (m : Magnitude) (power : Int) : Decimal × Decimal :=
  let (num, den) := m.ratio
  let scaledNum := if power < 0 then num * Nat.pow 10 (-power).toNat else num
  let scaledDen := if power < 0 then den else den * Nat.pow 10 power.toNat
  let below := scaledNum / scaledDen
  let rest := scaledNum % scaledDen
  let down : Decimal := ⟨below, power⟩
  let up : Decimal := ⟨below + 1, power⟩
  if 2 * rest < scaledDen ∨ (2 * rest = scaledDen ∧ below % 2 = 0) then (down, up) else (up, down)

def shortest (m : Magnitude) : Decimal :=
  if m.significand = 0 then ⟨0, 0⟩
  else
    let (num, den) := m.ratio
    go m (decade num den) 17 1
where
  go (m : Magnitude) (decade : Int) : Nat → Nat → Decimal
    | 0, n => (m.neighbours (decade + 1 - n)).1.stripped
    | tries + 1, n =>
      let (near, far) := m.neighbours (decade + 1 - n)
      if m.readsBack near then near.stripped
      else if m.readsBack far then far.stripped
      else go m decade tries (n + 1)

end Magnitude

end SchemaLedger
