set_option autoImplicit false

/-!
# Double-precision numbers, exactly

A finite double is a sign and a magnitude `significand * 2 ^ exponent`. The bounds on the two parts
make the pair unique, so equality of magnitudes is equality of values. Only reading, comparing and
writing are needed here, and each is exact arithmetic on naturals.
-/
namespace SchemaLedger

/-- The least significand of 53 bits, `2 ^ 52`. -/
abbrev Magnitude.leastFull : Nat := 0x10000000000000

/-- The magnitudes a double can hold: 53 bits, and fewer only at the least exponent. -/
def Magnitude.Canonical (significand : Nat) (exponent : Int) : Prop :=
  significand < 2 * leastFull ∧ -1074 ≤ exponent ∧ exponent ≤ 971 ∧
    (leastFull ≤ significand ∨ exponent = -1074)

instance (m : Nat) (e : Int) : Decidable (Magnitude.Canonical m e) :=
  inferInstanceAs (Decidable (_ ∧ _ ∧ _ ∧ _))

structure Magnitude where
  significand : Nat
  exponent : Int
  canonical : Magnitude.Canonical significand exponent
  deriving DecidableEq

inductive Double where
  | nan
  | infinity (negative : Bool)
  | finite (negative : Bool) (magnitude : Magnitude)
  deriving DecidableEq

/-- A quotient rounded to the nearest natural, a half going to the even neighbour. -/
def roundHalfEven (num den : Nat) : Nat :=
  let q := num / den
  let r := num % den
  if 2 * r < den then q
  else if den < 2 * r then q + 1
  else if q % 2 = 0 then q else q + 1

namespace Magnitude

def zero : Magnitude := ⟨0, -1074, by decide⟩

def make? (significand : Nat) (exponent : Int) : Option Magnitude :=
  if h : Canonical significand exponent then some ⟨significand, exponent, h⟩ else none

/-- `num / den` rounded at the binary place `exponent`. -/
def roundAt (num den : Nat) (exponent : Int) : Nat :=
  if exponent < 0 then roundHalfEven (num <<< (-exponent).toNat) den
  else roundHalfEven num (den <<< exponent.toNat)

/-- Whether `num / den < 2 ^ power`. -/
def below (num den : Nat) (power : Int) : Bool :=
  if power < 0 then num <<< (-power).toNat < den else num < den <<< power.toNat

/-- The place at which `num / den` keeps 53 bits, or the least place there is. -/
def place (num den : Nat) : Int :=
  let guess : Int := (Nat.log2 num : Int) - (Nat.log2 den : Int) - 52
  let fitted := if below num den (guess + 52) then guess - 1 else guess
  max fitted (-1074)

/-- The magnitude nearest to `num / den`; none if it exceeds every double. -/
def ofRatio? (num den : Nat) : Option Magnitude :=
  if num = 0 then some zero
  else
    let e := place num den
    let m := roundAt num den e
    if m = 2 * leastFull then make? leastFull (e + 1) else make? m e

/-- The value as a quotient of naturals. -/
def ratio (m : Magnitude) : Nat × Nat :=
  if m.exponent < 0 then (m.significand, 1 <<< (-m.exponent).toNat)
  else (m.significand <<< m.exponent.toNat, 1)

def isZero (m : Magnitude) : Bool := m.significand = 0

/-- The natural number of this value, if it has no fraction. -/
def toNat? (m : Magnitude) : Option Nat :=
  let (num, den) := m.ratio
  if num % den = 0 then some (num / den) else none

end Magnitude

namespace Double

def zero : Double := .finite false .zero

def ofRatio (negative : Bool) (num den : Nat) : Double :=
  match Magnitude.ofRatio? num den with
  | some m => .finite negative m
  | none => .infinity negative

/-- `digits * 10 ^ power`, rounded. Far out of range the power is not computed. -/
def ofScientific (negative : Bool) (digits : Nat) (power : Int) : Double :=
  if digits = 0 then .finite negative .zero
  else
    let size : Int := ((Nat.log2 digits * 3 / 10 : Nat) : Int) + power
    if size > 400 then .infinity negative
    else if size < -800 then .finite negative .zero
    else if power < 0 then ofRatio negative digits (Nat.pow 10 (-power).toNat)
    else ofRatio negative (digits * Nat.pow 10 power.toNat) 1

/-- The nearest double; none if the integer exceeds every finite double. -/
def ofInt? (n : Int) : Option Double :=
  (Magnitude.ofRatio? n.natAbs 1).map (.finite (n < 0))

/-- The integer of this value, if it is finite and has no fraction. -/
def toInt? : Double → Option Int
  | .finite negative m => m.toNat?.map fun n => if negative then -(n : Int) else n
  | _ => none

def isFinite : Double → Bool
  | .finite .. => true
  | _ => false

def isZero : Double → Bool
  | .finite _ m => m.isZero
  | _ => false

/-- Equality as numbers: the two zeros are equal and not-a-number equals nothing. -/
def sameNumber : Double → Double → Bool
  | .nan, _ => false
  | _, .nan => false
  | .infinity a, .infinity b => a = b
  | .finite a m, .finite b n => m = n && (a = b || m.isZero)
  | _, _ => false

def isPositive : Double → Bool
  | .nan => false
  | .infinity negative => !negative
  | .finite negative m => !negative && !m.isZero

end Double

end SchemaLedger
