import SchemaLedger.Decimal.Shortest

set_option autoImplicit false

/-!
# Decimal text of doubles

A layout says from which power of ten a number is written with an exponent, and how wide that
exponent is. The digits themselves are always the shortest that read back.
-/
namespace SchemaLedger

/-- Numbers whose leading digit stands for `10 ^ p` are written positionally when `lowest ≤ p < 16`. -/
structure Decimal.Layout where
  lowest : Int
  exponentWidth : Nat

/-- The layout of numbers in messages, statements and indented documents. -/
def Decimal.Layout.plain : Decimal.Layout := ⟨-4, 2⟩

/-- The layout of numbers in compact documents. -/
def Decimal.Layout.compact : Decimal.Layout := ⟨-5, 1⟩

namespace Decimal

def padLeft (width : Nat) (cs : List Char) : List Char :=
  List.replicate (width - cs.length) '0' ++ cs

/-- Digits with a point after the first `p + 1` of them, and at least one digit on either side. -/
def positional (digits : List Char) (p : Int) : List Char :=
  if p < 0 then '0' :: '.' :: (List.replicate (-p - 1).toNat '0' ++ digits)
  else
    let whole := p.toNat + 1
    let left := digits.take whole ++ List.replicate (whole - digits.length) '0'
    let right := digits.drop whole
    left ++ '.' :: (if right.isEmpty then ['0'] else right)

def scientific (layout : Layout) (digits : List Char) (p : Int) : List Char :=
  let lead := digits.take 1
  let rest := digits.drop 1
  let mantissa := if rest.isEmpty then lead else lead ++ '.' :: rest
  let sign := if p < 0 then '-' else '+'
  mantissa ++ 'e' :: sign :: padLeft layout.exponentWidth (Nat.toDigits 10 p.natAbs)

def render (layout : Layout) (d : Decimal) : List Char :=
  let digits := d.text
  let p := (digits.length : Int) - 1 + d.power
  let p := if d.digits = 0 then 0 else p
  if layout.lowest ≤ p ∧ p < 16 then positional digits p else scientific layout digits p

end Decimal

namespace Double

def render (layout : Decimal.Layout) : Double → String
  | .nan => "nan"
  | .infinity negative => if negative then "-inf" else "inf"
  | .finite negative m =>
    String.ofList ((if negative then ['-'] else []) ++ m.shortest.render layout)

/-- The plain decimal text of a double. -/
def text (x : Double) : String := x.render .plain

/-- The digits at the front of a text, and what follows them. -/
def spanDigits (cs : List Char) : List Char × List Char :=
  (cs.takeWhile Char.isDigit, cs.dropWhile Char.isDigit)

def digitsValue (cs : List Char) : Nat :=
  cs.foldl (fun n c => 10 * n + (c.toNat - '0'.toNat)) 0

/-- An exponent such as `e-07`, if the text is nothing else; no text is exponent zero. -/
def readExponent? : List Char → Option Int
  | [] => some 0
  | c :: rest =>
    if c = 'e' ∨ c = 'E' then
      match rest with
      | '-' :: ds => if ds ≠ [] ∧ ds.all Char.isDigit then some (-(digitsValue ds : Int)) else none
      | '+' :: ds => if ds ≠ [] ∧ ds.all Char.isDigit then some (digitsValue ds) else none
      | ds => if ds ≠ [] ∧ ds.all Char.isDigit then some (digitsValue ds) else none
    else none

/-- An unsigned decimal with optional fraction and exponent; one digit at least. -/
def readUnsigned? (negative : Bool) (cs : List Char) : Option Double :=
  let (whole, rest) := spanDigits cs
  let (fraction, rest) :=
    match rest with
    | '.' :: more => spanDigits more
    | _ => ([], rest)
  if whole = [] ∧ fraction = [] then none
  else do
    let exponent ← readExponent? rest
    some (ofScientific negative (digitsValue (whole ++ fraction)) (exponent - fraction.length))

/-- Reads a signed decimal, `inf`, `infinity` or `nan`, the words in any case. -/
def ofText? (s : String) : Option Double :=
  let (negative, body) :=
    match s.toList with
    | '-' :: cs => (true, cs)
    | '+' :: cs => (false, cs)
    | cs => (false, cs)
  let word := String.ofList (body.map Char.toLower)
  if word = "inf" ∨ word = "infinity" then some (.infinity negative)
  else if word = "nan" then some .nan
  else readUnsigned? negative body

end Double

end SchemaLedger
