import SchemaLedger.Console.Wrap
import SchemaLedger.Decimal.Double

set_option autoImplicit false

/-!
# Tables and panels on a console

A heavy frame around the header and a light one around the rows. A table that is wider than the
console gives way in its widest columns first; what does not fit is wrapped or cut.
-/
namespace SchemaLedger.Console

/-! ## Markup

A text in brackets that begins with a small letter, `#`, `/` or `@` is a style, and is not shown. A
backslash before it takes that meaning away. -/

def beginsStyle (c : Char) : Bool := ('a' ≤ c && c ≤ 'z') || c = '#' || c = '/' || c = '@'

/-- What follows the closing bracket of a style whose opening bracket was just read. -/
def afterStyle? : List Char → Option (List Char)
  | [] => none
  | ']' :: rest => some rest
  | '[' :: _ => none
  | _ :: rest => afterStyle? rest

/-- What follows a style at the front of a text. -/
def style? : List Char → Option (List Char)
  | '[' :: c :: rest => if beginsStyle c then afterStyle? rest else none
  | _ => none

/-- The text as it is shown; `slashes` counts the backslashes just before it. -/
def shownFrom (fuel slashes : Nat) (cs : List Char) : List Char :=
  match fuel, cs with
  | 0, _ => []
  | _, [] => List.replicate slashes '\\'
  | fuel + 1, '\\' :: rest => shownFrom fuel (slashes + 1) rest
  | fuel + 1, c :: rest =>
    match style? (c :: rest) with
    | none => List.replicate slashes '\\' ++ c :: shownFrom fuel 0 rest
    | some after =>
      let kept := List.replicate (slashes / 2) '\\'
      if slashes % 2 = 0 then kept ++ shownFrom fuel 0 after
      else kept ++ c :: shownFrom fuel 0 rest

def shown (s : String) : List Char := shownFrom (s.length + 1) 0 s.toList

/-! ## Tables -/

structure Table where
  title : Option String := none
  headers : List String
  rows : List (List String)

/-! ## Widths -/

/-- The width of all columns together. -/
def total (widths : List Nat) : Nat := widths.foldl (· + ·) 0

/-- Takes `excess` away from the chosen widths in even shares, from each no more than its limit. -/
def reduce : Nat → Nat → List (Bool × Nat × Nat) → List Nat
  | _, _, [] => []
  | excess, shares, (chosen, limit, width) :: rest =>
    if chosen && shares ≠ 0 then
      let share := min limit (roundHalfEven excess shares)
      (width - share) :: reduce (excess - share) (shares - 1) rest
    else width :: reduce excess shares rest

def reduceEvenly (excess : Nat) (columns : List (Bool × Nat × Nat)) : List Nat :=
  let columns := columns.map fun c => (c.1 && c.2.1 ≠ 0, c.2.1, c.2.2)
  reduce excess (columns.countP (·.1)) columns

/-- Takes the excess away from the widest columns, down to the next widest, at most `fuel` times. -/
def collapse (limit : Nat) : Nat → List Nat → List Nat
  | 0, widths => widths
  | fuel + 1, widths =>
    let excess := total widths - limit
    let widest := widths.foldl max 0
    let second := (widths.filter (· ≠ widest)).foldl max 0
    if excess = 0 || widest = second then widths
    else
      collapse limit fuel
        (reduceEvenly excess
          (widths.map fun w => (decide (w = widest), min excess (widest - second), w)))

/-- Widths that fit into a limit. -/
def fitted (limit : Nat) (widths : List Nat) : List Nat :=
  let widths := collapse limit (total widths) widths
  if total widths ≤ limit then widths
  else reduceEvenly (total widths - limit) (widths.map fun w => (true, w, w))

def cellWidth (content : List Char) : Nat :=
  ((Text.splitAtChar '\n' content).map cells).foldl max 0

namespace Table

/-- The contents of the columns, the headers first. -/
def columns (t : Table) : List (List (List Char)) :=
  (List.range t.headers.length).map fun i =>
    (t.headers :: t.rows).map fun row => shown (row.getD i "")

/-- The widths of the columns with a blank on each side. -/
def widths (t : Table) : List Nat :=
  let natural := t.columns.map fun column => (column.map cellWidth).foldl max 0 + 2
  fitted (width - (t.headers.length + 1)) natural

/-! ## Text -/

def rule (left line cross right : Char) (widths : List Nat) : List Char :=
  left :: [cross].intercalate (widths.map (List.replicate · line)) ++ [right]

/-- The lines of a row, as many as its highest cell has. -/
def rowLines (edge : Char) (widths : List Nat) (row : List String) : List (List Char) :=
  let contents := (widths.zip row).map fun (n, s) => (n, wrap .ellipsis (n - 2) (shown s))
  let height := (contents.map (·.2.length)).foldl max 1
  (List.range height).map fun i =>
    edge :: [edge].intercalate (contents.map fun (n, lines) =>
      ' ' :: padded (n - 2) (lines.getD i []) ++ [' ']) ++ [edge]

/-- The title in the middle above the table. -/
def titleLines (whole : Nat) (title : String) : List (List Char) :=
  (wrap .fold whole (shown title)).map fun line =>
    let line := withoutEnd line
    padded whole (blanks ((whole - cells line) / 2) ++ line)

def lines (t : Table) : List (List Char) :=
  let widths := t.widths
  let whole := total widths + t.headers.length + 1
  (t.title.map (titleLines whole)).getD [] ++
    [rule '┏' '━' '┳' '┓' widths] ++ rowLines '┃' widths t.headers ++
    [rule '┡' '━' '╇' '┩' widths] ++ t.rows.flatMap (rowLines '│' widths) ++
    [rule '└' '─' '┴' '┘' widths]

end Table

/-! ## Panels

A text in a rounded frame as wide as the console, with a title in its upper edge. -/

def repeated (n : Nat) (c : Char) : List Char := List.replicate n c

/-- A title in the middle of a rule of `n` cells. -/
def titled (n : Nat) (title : List Char) : List Char :=
  let title := truncated .fold n (' ' :: title ++ [' '])
  let excess := n - cells title
  repeated (excess / 2) '─' ++ title ++ repeated (excess - excess / 2) '─'

def panel (title text : String) : List (List Char) :=
  let inner := width - 4
  let upper := "╭─".toList ++ titled inner title.toList ++ "─╮".toList
  let lower := '╰' :: repeated (width - 2) '─' ++ ['╯']
  let body := (wrap .fold inner (shown text)).map fun line =>
    "│ ".toList ++ padded inner line ++ " │".toList
  upper :: body ++ [lower]

end SchemaLedger.Console
