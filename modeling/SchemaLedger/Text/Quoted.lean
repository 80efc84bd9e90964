import SchemaLedger.Text.Printable

set_option autoImplicit false

/-!
# Quoted text

Text inside messages stands in single quotes, or in double quotes when it holds a single quote and
no double one. A backslash, the surrounding quote and every unprintable character are escaped.
-/
namespace SchemaLedger.Text

def hexDigit (n : Nat) : Char := Nat.digitChar (n % 16)

/-- The lower-case hexadecimal digits of `n`, at least `width` of them. -/
def hex (width n : Nat) : List Char :=
  let digits := Nat.toDigits 16 n
  List.replicate (width - digits.length) '0' ++ digits

def escapeChar (quote c : Char) : List Char :=
  if c = quote ∨ c = '\\' then ['\\', c]
  else if c = '\n' then ['\\', 'n']
  else if c = '\r' then ['\\', 'r']
  else if c = '\t' then ['\\', 't']
  else if isPrintable c then [c]
  else if c.toNat < 0x100 then '\\' :: 'x' :: hex 2 c.toNat
  else if c.toNat < 0x10000 then '\\' :: 'u' :: hex 4 c.toNat
  else '\\' :: 'U' :: hex 8 c.toNat

def quoteFor (s : String) : Char := if s.contains '\'' && !s.contains '"' then '"' else '\''

def quoted (s : String) : String :=
  let quote := quoteFor s
  String.ofList (quote :: (s.toList.flatMap (escapeChar quote) ++ [quote]))

end SchemaLedger.Text
