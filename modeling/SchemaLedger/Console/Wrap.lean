import SchemaLedger.Text.Parts

set_option autoImplicit false

/-!
# Wrapped text

Text broken into lines of a number of cells, between words where that is possible. The blanks after a
word belong to it and may be lost at the end of a line.
-/
namespace SchemaLedger.Console

/-! ## Cells

Marks that combine with the character before and controls take no cell, wide characters take two, and
all others take one. -/

def width : Nat := 80

def isWithin (ranges : List (Nat × Nat)) (c : Char) : Bool :=
  ranges.any fun r => decide (r.1 ≤ c.toNat ∧ c.toNat ≤ r.2)

def noCell : List (Nat × Nat) :=
  [(0x0, 0x1f), (0x7f, 0x9f), (0x300, 0x36f), (0x483, 0x489), (0x591, 0x5bd), (0x610, 0x61a),
    (0x64b, 0x65f), (0x200b, 0x200f), (0x2028, 0x202e), (0x2060, 0x2063), (0x20d0, 0x20f0),
    (0xfe00, 0xfe0f), (0xfe20, 0xfe2f)]

def twoCells : List (Nat × Nat) :=
  [(0x1100, 0x115f), (0x231a, 0x231b), (0x23e9, 0x23ec), (0x2e80, 0x303e), (0x3041, 0x33ff),
    (0x3400, 0x4dbf), (0x4e00, 0xa4c6), (0xa960, 0xa97c), (0xac00, 0xd7a3), (0xf900, 0xfaff),
    (0xfe10, 0xfe19), (0xfe30, 0xfe6b), (0xff01, 0xff60), (0xffe0, 0xffe6), (0x1f300, 0x1f320),
    (0x1f32d, 0x1f64f), (0x1f680, 0x1f6ff), (0x1f90c, 0x1f9ff), (0x1fa70, 0x1faff),
    (0x20000, 0x2fffd), (0x30000, 0x3fffd)]

def cellsOf (c : Char) : Nat :=
  if isWithin noCell c then 0 else if isWithin twoCells c then 2 else 1

def cells (cs : List Char) : Nat := cs.foldl (fun n c => n + cellsOf c) 0

def blanks (n : Nat) : List Char := List.replicate n ' '

/-- The text with blanks up to a number of cells. -/
def padded (n : Nat) (cs : List Char) : List Char := cs ++ blanks (n - cells cs)

/-- The longest front of a text that fits into a number of cells. -/
def fitting : Nat → List Char → List Char
  | _, [] => []
  | n, c :: rest => if cellsOf c ≤ n then c :: fitting (n - cellsOf c) rest else []

/-- The text cut to a number of cells; half a wide character becomes a blank. -/
def cut (n : Nat) (cs : List Char) : List Char := padded n (fitting n cs)

/-! ## Lines -/

/-- What becomes of a word that is longer than a line. -/
inductive Overflow where
  /-- It goes on in the next line. -/
  | fold
  /-- It is cut, with a mark at its end. -/
  | ellipsis
  deriving DecidableEq

/-- The text cut wherever a character follows a blank. -/
def pieces : List Char → List (List Char)
  | [] => []
  | c :: rest =>
    match pieces rest, rest with
    | piece :: more, next :: _ =>
      if Text.isBlank c && !Text.isBlank next then [c] :: piece :: more else (c :: piece) :: more
    | _, _ => [[c]]

/-- The words with the blanks after them; blanks at the start belong to the first word. -/
def words (cs : List Char) : List (List Char) :=
  match pieces cs with
  | start :: word :: more =>
    if start.all Text.isBlank then (start ++ word) :: more else start :: word :: more
  | other => other

def withoutEnd (cs : List Char) : List Char := (cs.reverse.dropWhile Text.isBlank).reverse

/-- A word in parts that fit into lines. -/
def chop (n : Nat) (word : List Char) : List (List Char) :=
  let step (parts : List (List Char)) (c : Char) : List (List Char) :=
    match parts with
    | part :: done => if cells part + cellsOf c ≤ n then (part ++ [c]) :: done else [c] :: part :: done
    | [] => [[c]]
  (word.foldl step []).reverse

/-- Lines that are full, and the line that is being filled. -/
structure Filling where
  full : List (List Char) := []
  line : List Char := []
  used : Nat := 0

namespace Filling

/-- Puts a part into a new line, unless the present one is empty. -/
def breakTo (f : Filling) (part : List Char) : Filling :=
  { full := if f.line.isEmpty then f.full else f.full ++ [f.line], line := part, used := cells part }

def put (overflow : Overflow) (n : Nat) (f : Filling) (word : List Char) : Filling :=
  let needed := cells (withoutEnd word)
  if f.used + needed ≤ n then { f with line := f.line ++ word, used := f.used + cells word }
  else if n < needed && overflow = .fold then (chop n word).foldl breakTo f
  else f.breakTo word

def lines (f : Filling) : List (List Char) := f.full ++ [f.line]

end Filling

/-- A line without the blanks that stand beyond its end. -/
def withoutExcess (n : Nat) (line : List Char) : List Char :=
  let blanks := line.length - (withoutEnd line).length
  line.take (line.length - min blanks (line.length - n))

def truncated (overflow : Overflow) (n : Nat) (line : List Char) : List Char :=
  if cells line ≤ n then line
  else
    match overflow with
    | .fold => cut n line
    | .ellipsis => cut (n - 1) line ++ ['…']

/-- A line with blanks for each tab, up to the next multiple of a width. -/
def expandTabs (stop : Nat) (line : List Char) : List Char :=
  line.foldl (fun done c =>
    if c = '\t' then done ++ blanks (stop - cells done % stop) else done ++ [c]) []

def wrapLine (overflow : Overflow) (n : Nat) (line : List Char) : List (List Char) :=
  let filled := (words (expandTabs 8 line)).foldl (Filling.put overflow n) {}
  filled.lines.map fun line => truncated overflow n (withoutExcess n line)

/-- The lines of a text, each of them wrapped. -/
def wrap (overflow : Overflow) (n : Nat) (cs : List Char) : List (List Char) :=
  (Text.splitAtChar '\n' cs).flatMap (wrapLine overflow n)

end SchemaLedger.Console
