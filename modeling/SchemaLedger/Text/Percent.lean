import SchemaLedger.Text.Parts
import SchemaLedger.Text.Quoted

set_option autoImplicit false

/-!
# Percent encoding

Text with the bytes of unsafe characters written as `%` and two digits. Reading replaces bytes that
form no character by the replacement character, one for each longest start of a character.
-/
namespace SchemaLedger.Text

/-! ## Bytes as characters -/

def replacement : Char := '\uFFFD'

/-- A character of which some bytes have been read. -/
structure Unfinished where
  /-- How many bytes are missing. -/
  missing : Nat
  /-- The least and the greatest value that the next byte may have. -/
  least : Nat
  greatest : Nat
  bits : Nat

/-- What the first byte of a character says: the character, or what has to follow. -/
def beginCharacter (b : Nat) : List Char × Option Unfinished :=
  if b < 0x80 then ([Char.ofNat b], none)
  else if b < 0xc2 then ([replacement], none)
  else if b < 0xe0 then ([], some ⟨1, 0x80, 0xbf, b - 0xc0⟩)
  else if b = 0xe0 then ([], some ⟨2, 0xa0, 0xbf, 0⟩)
  else if b = 0xed then ([], some ⟨2, 0x80, 0x9f, 0xd⟩)
  else if b < 0xf0 then ([], some ⟨2, 0x80, 0xbf, b - 0xe0⟩)
  else if b = 0xf0 then ([], some ⟨3, 0x90, 0xbf, 0⟩)
  else if b < 0xf4 then ([], some ⟨3, 0x80, 0xbf, b - 0xf0⟩)
  else if b = 0xf4 then ([], some ⟨3, 0x80, 0x8f, 4⟩)
  else ([replacement], none)

def nextByte (u : Option Unfinished) (b : Nat) : List Char × Option Unfinished :=
  match u with
  | none => beginCharacter b
  | some u =>
    if u.least ≤ b ∧ b ≤ u.greatest then
      let bits := u.bits * 64 + (b - 0x80)
      if u.missing ≤ 1 then ([Char.ofNat bits], none)
      else ([], some ⟨u.missing - 1, 0x80, 0xbf, bits⟩)
    else
      let (cs, u) := beginCharacter b
      (replacement :: cs, u)

def characters : Option Unfinished → List UInt8 → List Char
  | none, [] => []
  | some _, [] => [replacement]
  | u, b :: rest =>
    let (cs, u) := nextByte u b.toNat
    cs ++ characters u rest

/-! ## Percent signs -/

/-- The value of a hexadecimal digit. -/
def hexValue? (c : Char) : Option Nat :=
  if c.isDigit then some (c.toNat - '0'.toNat)
  else if 'a' ≤ c ∧ c ≤ 'f' then some (c.toNat - 'a'.toNat + 10)
  else if 'A' ≤ c ∧ c ≤ 'F' then some (c.toNat - 'A'.toNat + 10)
  else none

/-- The bytes of a text of plain characters with every escape replaced by its byte. -/
def unescapedBytes : List Char → List UInt8
  | [] => []
  | '%' :: a :: b :: rest =>
    match hexValue? a, hexValue? b with
    | some x, some y => UInt8.ofNat (16 * x + y) :: unescapedBytes rest
    | _, _ => 0x25 :: unescapedBytes (a :: b :: rest)
  | c :: rest => UInt8.ofNat c.toNat :: unescapedBytes rest

/-- The text behind an encoded one. A character beyond the plain ones ends a run of bytes. -/
def unescapeFrom : List Char → List Char → List Char
  | run, [] => characters none (unescapedBytes run.reverse)
  | run, c :: rest =>
    if c.toNat < 0x80 then unescapeFrom (c :: run) rest
    else characters none (unescapedBytes run.reverse) ++ c :: unescapeFrom [] rest

def percentDecoded (cs : List Char) : List Char := unescapeFrom [] cs

def isUnreserved (c : Char) : Bool := c.isAlphanum || c = '_' || c = '.' || c = '-' || c = '~'

def escapedByte (b : UInt8) : List Char := '%' :: (hex 2 b.toNat).map Char.toUpper

def percentEncoded (safe : Char → Bool) (cs : List Char) : List Char :=
  cs.flatMap fun c =>
    if isUnreserved c || safe c then [c] else (String.utf8EncodeChar c).flatMap escapedByte

/-! ## Forms -/

/-- In a form a blank is written as a plus sign. -/
def formEncoded (cs : List Char) : List Char :=
  (percentEncoded (· = ' ') cs).map fun c => if c = ' ' then '+' else c

def formDecoded (cs : List Char) : List Char :=
  percentDecoded (cs.map fun c => if c = '+' then ' ' else c)

/-- The named values of a form in order. An item without a value is left out. -/
def formItems (cs : List Char) : List (String × String) :=
  (splitAtChar '&' cs).filterMap fun item =>
    let value := (item.dropWhile (· ≠ '=')).drop 1
    if value.isEmpty then none
    else
      some (String.ofList (formDecoded (item.takeWhile (· ≠ '='))),
        String.ofList (formDecoded value))

end SchemaLedger.Text
