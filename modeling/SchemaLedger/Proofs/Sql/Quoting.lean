import SchemaLedger.Proofs.Sql.Literal
import SchemaLedger.Sql.Ddl

set_option autoImplicit false

/-!
# Literals in quotes

A text or a document that is declared as a default stands in quotes. Whatever it holds, a database
that reads the added column finds the end of the quoted text where it was written, and the default in
it.
-/
namespace SchemaLedger

namespace Field

/-- Whether the default is written in quotes: it is a text, or a document that equals itself. -/
def HasQuotedDefault (f : Field) : Prop :=
  match f.type with
  | .text => ∃ s, f.default = .text s
  | .json => f.default.isNull = false ∧ Json.isDocument f.default = true ∧
      f.default.nanFree = true ∧ f.default.wellFormed = true
  | _ => False

/-- Whether a text in quotes stands for the default: it is the text, or a document that is read as an
equal value with its truth values told from numbers. -/
def DefaultIsIn (f : Field) (content : String) : Prop :=
  match f.type with
  | .text => f.default = .text content
  | .json => ∃ v, Json.read content = .ok v ∧ v.same f.default = true ∧ v.agrees f.default = true
  | _ => False

end Field

namespace Sql

/-- The text in quotes at the front of a text, and what follows the closing quote. -/
def scanQuoted? (s : String) : Option (String × String) :=
  match s.toList with
  | '\'' :: cs => (unquote? cs).map fun r => (String.ofList r.1, String.ofList r.2)
  | _ => none

/-- What follows the closing quote of a literal. -/
def quotedEnding : Dialect → LogicalType → String
  | .postgresql, .json => "::jsonb"
  | _, _ => ""

/-- What follows the default of an added column. -/
def nullability (nullable : Bool) : String := if nullable then "" else " NOT NULL"

theorem scanQuoted?_quoteLiteral (s after : String) (ha : after.toList.head? ≠ some '\'') :
    scanQuoted? (quoteLiteral s ++ after) = some (s, after) := by
  have htext : (quoteLiteral s ++ after).toList =
      '\'' :: (s.toList.flatMap doubleQuote ++ '\'' :: after.toList) := by
    simp [quoteLiteral]
  rw [scanQuoted?, htext]
  simp [unquote?_quoted _ _ ha]

theorem head?_nullability (nullable : Bool) :
    (nullability nullable).toList.head? ≠ some '\'' := by
  cases nullable <;> decide

theorem head?_quotedEnding (d : Dialect) (type : LogicalType) {after : String}
    (ha : after.toList.head? ≠ some '\'') :
    (quotedEnding d type ++ after).toList.head? ≠ some '\'' := by
  unfold quotedEnding
  split
  · simp
  · rwa [String.empty_append]

theorem Column.addition_eq (d : Dialect) {c : Column} {literal : String}
    (h : c.default = some literal) :
    c.addition d = quote d c.name ++ " " ++ typeName d c.type ++ " DEFAULT " ++
      (literal ++ nullability c.nullable) := by
  have hclause : s!" DEFAULT {literal}" = " DEFAULT " ++ literal := rfl
  rw [addition, h]
  simp only [hclause, nullability, String.append_assoc]

/-- A default that is written in quotes is a quoted text with nothing or a cast after it. -/
theorem defaultLiteral_quoted (d : Dialect) {f : Field} (hf : f.HasQuotedDefault) :
    ∃ content, defaultLiteral d f = .ok (some (quoteLiteral content ++ quotedEnding d f.type)) ∧
      f.DefaultIsIn content := by
  unfold Field.HasQuotedDefault at hf
  unfold Field.DefaultIsIn
  split at hf
  case h_1 htype =>
    obtain ⟨s, hs⟩ := hf
    rw [defaultLiteral, htype, hs]
    exact ⟨s, by cases d <;> simp [Value.isNull, quotedEnding], rfl⟩
  case h_2 htype =>
    obtain ⟨hnull, hdoc, hnan, hwell⟩ := hf
    rw [defaultLiteral, htype, hnull]
    refine ⟨Json.render .sorted f.default, ?_, f.default.ordered,
      Json.read_render_sorted hdoc hwell, Value.same_ordered _ hnan hwell,
      Value.agrees_ordered hnan hwell⟩
    cases d <;> simp [hdoc, jsonLiteral, quotedEnding]
  case h_3 => exact hf.elim

/-- What holds of a default in quotes, of its literal, and of the column that is added with it. -/
structure StaysQuoted (d : Dialect) (f : Field) (literal content : String) (column : Column) :
    Prop where
  literal_eq : defaultLiteral d f = .ok (some literal)
  column_eq : Ddl.addedColumn d f = .ok column
  addition_eq : column.addition d = quote d f.name ++ " " ++ typeName d f.type ++ " DEFAULT " ++
    (literal ++ nullability f.nullable)
  ends : scanQuoted? (literal ++ nullability f.nullable) =
    some (content, quotedEnding d f.type ++ nullability f.nullable)
  /-- The same before any other text that does not go on with a quote. -/
  ends_before : ∀ after : String, after.toList.head? ≠ some '\'' →
    scanQuoted? (literal ++ after) = some (content, quotedEnding d f.type ++ after)
  content_eq : f.DefaultIsIn content

/-- Defaults do not break out of their quotes: a text or a document always has a literal, which ends
at its closing quote in the column that is added, and the default is what stands in the quotes. -/
theorem default_stays_quoted (d : Dialect) (f : Field) (hf : f.HasQuotedDefault) :
    ∃ literal content column, StaysQuoted d f literal content column := by
  obtain ⟨content, hliteral, hcontent⟩ := defaultLiteral_quoted d hf
  have hends : ∀ after : String, after.toList.head? ≠ some '\'' →
      scanQuoted? (quoteLiteral content ++ quotedEnding d f.type ++ after) =
        some (content, quotedEnding d f.type ++ after) := by
    intro after ha
    rw [String.append_assoc]
    exact scanQuoted?_quoteLiteral content _ (head?_quotedEnding d f.type ha)
  have hcolumn : Ddl.addedColumn d f = .ok { name := f.name, type := f.type, nullable := f.nullable
                                             default := some (quoteLiteral content ++
                                               quotedEnding d f.type) } := by
    rw [Ddl.addedColumn, hliteral]
    rfl
  exact ⟨_, content, _, hliteral, hcolumn, Column.addition_eq d rfl,
    hends _ (head?_nullability f.nullable), hends, hcontent⟩

/-- A text with quotes next to each other and at its ends. -/
def quotedNote : Field := { name := "note", default := .text "''; --'" }

/-- A document with quotes of both kinds. -/
def quotedTags : Field :=
  { name := "tags", type := .json, nullable := true
    default := .object [("it's", .list [.text "\"'", .int 1, .null])] }

theorem default_stays_quoted_tags :
    (quotedNote.HasQuotedDefault ∧ quotedTags.HasQuotedDefault) ∧
      (∃ literal content column, StaysQuoted .sqlite quotedNote literal content column) ∧
      ∃ literal content column, StaysQuoted .postgresql quotedTags literal content column :=
  have hnote : quotedNote.HasQuotedDefault := ⟨_, rfl⟩
  have htags : quotedTags.HasQuotedDefault := ⟨by decide, by decide, by decide, by decide⟩
  ⟨⟨hnote, htags⟩, default_stays_quoted .sqlite quotedNote hnote,
    default_stays_quoted .postgresql quotedTags htags⟩

end Sql

end SchemaLedger
