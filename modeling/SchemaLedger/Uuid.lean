import SchemaLedger.Text.Quoted

set_option autoImplicit false

/-!
# Universally unique identifiers

A 128-bit number with two written forms: 32 hexadecimal digits, and the same in five groups.
-/
namespace SchemaLedger

structure Uuid where
  bits : BitVec 128
  deriving DecidableEq

namespace Uuid

def zero : Uuid := ⟨0⟩

/-- The 32 hexadecimal digits. -/
def digits (u : Uuid) : List Char := Text.hex 32 u.bits.toNat

def compact (u : Uuid) : String := String.ofList u.digits

/-- The form with groups of 8, 4, 4, 4 and 12 digits. -/
def text (u : Uuid) : String :=
  let d := u.digits
  String.ofList (d.take 8 ++ '-' :: (d.drop 8).take 4 ++ '-' :: (d.drop 12).take 4 ++
    '-' :: (d.drop 16).take 4 ++ '-' :: d.drop 20)

def hexValue? (c : Char) : Option Nat :=
  if c.isDigit then some (c.toNat - '0'.toNat)
  else if 'a' ≤ c ∧ c ≤ 'f' then some (c.toNat - 'a'.toNat + 10)
  else if 'A' ≤ c ∧ c ≤ 'F' then some (c.toNat - 'A'.toNat + 10)
  else none

def ofDigits? (cs : List Char) : Option Uuid :=
  if cs.length = 32 then
    (cs.foldlM (fun n c => (hexValue? c).map (16 * n + ·)) 0).map fun n => ⟨BitVec.ofNat 128 n⟩
  else none

/-- The text without the occurrences of a word. `skip` characters still belong to the one before. -/
def dropWord (word : List Char) (skip : Nat) : List Char → List Char
  | [] => []
  | c :: rest =>
    match skip with
    | n + 1 => dropWord word n rest
    | 0 =>
      if word.isPrefixOf (c :: rest) then dropWord word (word.length - 1) rest
      else c :: dropWord word 0 rest

/-- Braces around the text and the words `urn:` and `uuid:` are dropped, and every hyphen. -/
def ofText? (s : String) : Option Uuid :=
  let bare := dropWord "uuid:".toList 0 (dropWord "urn:".toList 0 s.toList)
  let isBrace := fun c => c = '\x7b' || c = '\x7d'
  let cs := ((bare.dropWhile isBrace).reverse.dropWhile isBrace).reverse
  ofDigits? (cs.filter (· ≠ '-'))

end Uuid

end SchemaLedger
