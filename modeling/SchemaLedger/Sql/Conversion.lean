import SchemaLedger.Sql.Identifier
import SchemaLedger.Sql.Literal
import SchemaLedger.Sql.Type

set_option autoImplicit false

/-!
# Conversions

The expression that turns the stored values of a column into those of another type. SQLite converts
anything without complaint, so a conversion that may fail is guarded there: on a value outside its
domain it asks for a document that is none, which ends the statement.
-/
namespace SchemaLedger.Sql

/-- The part of the expression language that conversions need. -/
inductive Expr where
  | column (name : String)
  | text (s : String)
  | integer (n : Int)
  | literal (sql : String)
  | null
  | call (function : String) (arguments : List Expr)
  | cast (e : Expr) (type : String)
  | castTo (e : Expr) (type : String)
  | binary (operator : String) (left right : Expr)
  | isNull (e : Expr)
  | oneOf (e : Expr) (choices : List Expr)
  | between (e low high : Expr)
  | cases (branches : List (Expr × Expr)) (otherwise : Option Expr)
  | grouped (e : Expr)

namespace Expr

mutual

def render (d : Dialect) : Expr → String
  | .column name => quote d name
  | .text s => quoteLiteral s
  | .integer n => toString n
  | .literal sql => sql
  | .null => "NULL"
  | .call function arguments => function ++ "(" ++ commaList (renderAll d arguments) ++ ")"
  | .cast e type => "CAST(" ++ render d e ++ " AS " ++ type ++ ")"
  | .castTo e type => render d e ++ "::" ++ type
  | .binary operator left right => render d left ++ " " ++ operator ++ " " ++ render d right
  | .isNull e => render d e ++ " IS NULL"
  | .oneOf e choices => render d e ++ " IN (" ++ commaList (renderAll d choices) ++ ")"
  | .between e low high => render d e ++ " BETWEEN " ++ render d low ++ " AND " ++ render d high
  | .cases branches none => "CASE" ++ renderBranches d branches ++ " END"
  | .cases branches (some e) => "CASE" ++ renderBranches d branches ++ " ELSE " ++ render d e ++ " END"
  | .grouped e => "(" ++ render d e ++ ")"

def renderAll (d : Dialect) : List Expr → List String
  | [] => []
  | e :: rest => render d e :: renderAll d rest

def renderBranches (d : Dialect) : List (Expr × Expr) → String
  | [] => ""
  | (condition, e) :: rest =>
    " WHEN " ++ render d condition ++ " THEN " ++ render d e ++ renderBranches d rest

end

end Expr

namespace Conversion

open Sql.Expr

def concat (a b : Expr) : Expr := .binary "||" a b

/-- NULL for NULL, `converted` where `valid` holds, and an error for any other value. -/
def guarded (c valid converted : Expr) : Expr :=
  .cases [(.isNull c, .null), (valid, converted)]
    (some (.call "json" [concat (.text "cannot convert ") c]))

def leastInt32 : Int := -2147483648

def greatestInt32 : Int := 2147483647

def trimmed (c : Expr) : Expr := .call "trim" [c]

/-- The trimmed text without a sign before it. -/
def unsigned (c : Expr) : Expr :=
  .grouped (.cases
    [(.oneOf (.call "substr" [trimmed c, .integer 1, .integer 1]) [.text "+", .text "-"],
      .call "substr" [trimmed c, .integer 2])]
    (some (trimmed c)))

/-- Whether the text is an optional sign and at least one digit, and nothing else. -/
def isIntegerText (c : Expr) : Expr :=
  .binary "AND" (.binary "<>" (unsigned c) (.text ""))
    (.binary "NOT GLOB" (unsigned c) (.text "*[^0-9]*"))

def inInt32 (e : Expr) : Expr := .between e (.integer leastInt32) (.integer greatestInt32)

/-- The integer of the stored value before any test of its range; a real is rounded. -/
def integerOf (old : LogicalType) (c : Expr) : Expr :=
  match old with
  | .text => .cast (trimmed c) "INTEGER"
  | .real => .cast (.call "round" [c]) "INTEGER"
  | _ => .cast c "INTEGER"

def toInteger (old new : LogicalType) (c : Expr) : Expr :=
  let converted := integerOf old c
  let bounded := new = .int && old ≠ .bool
  match old, bounded with
  | .text, true => guarded c (.binary "AND" (isIntegerText c) (inInt32 converted)) converted
  | .text, false => guarded c (isIntegerText c) converted
  | _, true => guarded c (inInt32 converted) converted
  | _, false => converted

/-- The kind of number that a trimmed text denotes as a document, if it is one. -/
def numberKind (c : Expr) : Expr :=
  .grouped (.cases [(.call "json_valid" [trimmed c], .call "json_type" [trimmed c])] none)

def toReal (old : LogicalType) (c : Expr) : Expr :=
  match old with
  | .text =>
    guarded c (.oneOf (numberKind c) [.text "integer", .text "real"]) (.cast (trimmed c) "REAL")
  | _ => .cast c "REAL"

/-- The hyphenated lower-case form of 32 hexadecimal digits. -/
def uuidText (c : Expr) : Expr :=
  let piece := fun (start count : Int) => Expr.call "substr" [c, .integer start, .integer count]
  let hyphen := Expr.text "-"
  .call "lower" [concat (concat (concat (concat (concat (concat (concat (concat
    (piece 1 8) hyphen) (piece 9 4)) hyphen) (piece 13 4)) hyphen) (piece 17 4)) hyphen)
    (.call "substr" [c, .integer 21])]

def toText (old : LogicalType) (c : Expr) : Expr :=
  match old with
  | .bool => .cases [(.isNull c, .null), (c, .text "true")] (some (.text "false"))
  | .uuid => uuidText c
  | _ => .cast c "TEXT"

def sqlite (old new : LogicalType) (c : Expr) : Expr :=
  match new with
  | .bool => .grouped (.binary "!=" c (.integer 0))
  | .int => toInteger old new c
  | .bigint => toInteger old new c
  | .real => toReal old c
  | .json => .call "json" [c]
  | .date => .call "substr" [c, .integer 1, .integer 10]
  | .timestamp => concat c (.text " 00:00:00.000000")
  | _ => toText old c

/-- PostgreSQL casts, a truth value by way of an integer when it becomes a big one. -/
def postgres (old new : LogicalType) (c : Expr) : Expr :=
  if old = .bool ∧ new = .bigint then .castTo (.castTo c "integer") "bigint"
  else .castTo c (typeName .postgresql new)

/-- The conversion of column `name`. -/
def expression (d : Dialect) (name : String) (old new : LogicalType) : Expr :=
  match d with
  | .sqlite => sqlite old new (.column name)
  | .postgresql => postgres old new (.column name)

end Conversion

end SchemaLedger.Sql
