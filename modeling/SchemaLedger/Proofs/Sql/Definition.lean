import SchemaLedger.Proofs.Sql.Document
import SchemaLedger.Proofs.Sql.Quoting
import SchemaLedger.Proofs.Sql.Table

set_option autoImplicit false

/-!
# One column, defined twice

A column is defined inside CREATE TABLE, where its default is a template, and inside ALTER TABLE,
where the default is pasted in. The two definitions have the same type, default and nullability
exactly if the template stands for itself.
-/
namespace SchemaLedger.Sql

variable {d : Dialect} {f : Field} {literal : String}

/-! ## Defaults -/

theorem expandTemplate_eq_self_iff (d : Dialect) (s : String) :
    expandTemplate d s = s ↔ StandsForItself d s.toList := by
  rw [← expandChars_eq_self_iff, ← toList_expandTemplate, String.toList_inj]

theorem expandTemplate_of_inert (d : Dialect) {s : String} (h : ∀ c ∈ s.toList, Json.Inert c) :
    expandTemplate d s = s :=
  String.toList_inj.1 ((toList_expandTemplate d s).trans (expandChars_of_plain d h))

theorem expandTemplate_jsonLiteral (d : Dialect) (document : String) :
    expandTemplate d (jsonLiteral d document) = jsonLiteral d (expandTemplate d document) := by
  cases d with
  | sqlite =>
    have h := expandTemplate_quoteLiteral .sqlite document "" (by decide)
    rwa [String.append_empty, String.append_empty] at h
  | postgresql => exact expandTemplate_quoteLiteral .postgresql document "::jsonb" (by decide)

/-- A text that stands for an equal text stays as it is. -/
theorem expandTemplate_of_text (d : Dialect) (s : String)
    (h : DenoteSame .text (expandTemplate d (quoteLiteral s)) (quoteLiteral s)) :
    expandTemplate d (quoteLiteral s) = quoteLiteral s := by
  have hexpand := expandTemplate_quoteLiteral d s "" (by cases d <;> decide)
  rw [String.append_empty, String.append_empty] at hexpand
  rcases h with heq | ⟨u, u', hu, hu', hagree⟩
  · exact heq
  · rw [hexpand, quoteLiteral_value] at hu
    rw [quoteLiteral_value] at hu'
    obtain rfl := Option.some.inj hu
    obtain rfl := Option.some.inj hu'
    have hsame : expandTemplate d s = s := by
      simpa [Value.agrees, Value.told, Value.same] using hagree
    rw [hexpand, hsame]

/-- A document that stands for an equal document stays as it is. -/
theorem expandTemplate_of_document (d : Dialect) {v : Value} (hd : Json.isDocument v = true)
    (hw : v.wellFormed = true)
    (h : DenoteSame .json (expandTemplate d (jsonLiteral d (Json.render .sorted v)))
      (jsonLiteral d (Json.render .sorted v))) :
    expandTemplate d (jsonLiteral d (Json.render .sorted v)) =
      jsonLiteral d (Json.render .sorted v) := by
  have hsorted : Json.render .sorted v = Json.render .spaced v.ordered := Json.renderAt_sorted v 0
  rw [expandTemplate_jsonLiteral] at h ⊢
  rcases h with heq | ⟨u, u', hu, hu', hagree⟩
  · exact heq
  · rw [jsonLiteral_value] at hu hu'
    rw [Json.read_render_sorted hd hw] at hu'
    obtain rfl := Option.some.inj hu'
    rw [hsorted] at hu
    have hread : Json.read (expandTemplate d (Json.render .spaced v.ordered)) = .ok u := by
      cases hr : Json.read (expandTemplate d (Json.render .spaced v.ordered)) with
      | error _ =>
        rw [hr] at hu
        cases hu
      | ok w =>
        rw [hr] at hu
        exact congrArg Except.ok (Option.some.inj hu)
    have hkeeps : v.ordered.everywhere Json.Style.spaced.keeps = true :=
      Json.keeps_ordered hd
    rw [hsorted, expandTemplate_of_agrees d hkeeps (Value.wellFormed_ordered hw) hread hagree]

theorem expandTemplate_realText (d : Dialect) (x : Double) : expandTemplate d x.text = x.text := by
  refine expandTemplate_of_inert d ?_
  cases x with
  | nan => exact List.all_iff_forall_prop.1 (by decide)
  | infinity negative => cases negative <;> exact List.all_iff_forall_prop.1 (by decide)
  | finite negative m => exact inert_float (.finite negative m)

/-- Numbers and truth values are no templates for anything else. -/
theorem expandTemplate_of_plain (d : Dialect) (hf : f.Sound) (hj : f.type ≠ .json)
    (ht : f.type ≠ .text) (h : defaultLiteral d f = .ok (some literal)) :
    expandTemplate d literal = literal := by
  rw [defaultLiteral] at h
  split at h
  case isTrue => cases h
  case isFalse hnull =>
    have hfits := fits_of_check hf.default (Bool.eq_false_iff.2 hnull)
    rcases fits_cases hj hfits with ⟨htype, b, hv⟩ | ⟨htype, n, hv⟩ | ⟨htype, ⟨n, hv⟩ | ⟨x, hv⟩⟩ |
      ⟨htype, -⟩
    · rw [htype, hv] at h
      obtain rfl := Option.some.inj (Except.ok.inj h)
      refine expandTemplate_of_inert d (List.all_iff_forall_prop.1 ?_)
      cases d <;> cases b <;> decide
    · have hint : literal = toString n := by
        rcases htype with htype | htype <;> rw [htype, hv] at h <;>
          exact (Option.some.inj (Except.ok.inj h)).symm
      exact hint ▸ expandTemplate_of_inert d (inert_int n)
    · rw [htype, hv] at h
      obtain ⟨l, hl, heq⟩ := (Outcome.map_eq_ok _ _ _).1 h
      obtain rfl := Option.some.inj heq
      simp only [realLiteral, Value.asInt?] at hl
      split at hl
      · obtain rfl := Except.ok.inj hl
        exact expandTemplate_realText d _
      · cases hl
    · rw [htype, hv] at h
      obtain rfl := Option.some.inj (Except.ok.inj h)
      exact expandTemplate_realText d x
    · exact absurd htype ht

/-- The default of a column denotes the same value in both places exactly if its literal stands for
itself. -/
theorem denoteSame_expandTemplate_iff (d : Dialect) (hf : f.Sound)
    (hw : f.default.wellFormed = true) (h : defaultLiteral d f = .ok (some literal)) :
    DenoteSame f.type (expandTemplate d literal) literal ↔ StandsForItself d literal.toList := by
  rw [← expandTemplate_eq_self_iff]
  refine ⟨fun hsame => ?_, fun heq => heq.symm ▸ .refl _⟩
  by_cases hj : f.type = .json
  · rw [hj] at hsame
    rw [defaultLiteral, hj] at h
    split at h
    case isTrue => cases h
    case isFalse =>
      dsimp only at h
      split at h
      case isTrue hd =>
        obtain rfl := Option.some.inj (Except.ok.inj h)
        exact expandTemplate_of_document d hd hw hsame
      case isFalse => cases h
  · by_cases ht : f.type = .text
    · have hnull : f.default.isNull = false := by
        by_contra hnull
        rw [defaultLiteral, if_pos (by simpa using hnull)] at h
        cases h
      obtain ⟨s, hs⟩ : ∃ s, f.default = .text s := by
        rcases fits_cases hj (fits_of_check hf.default hnull) with ⟨htype, -⟩ | ⟨htype, -⟩ | ⟨htype, -⟩ |
          ⟨-, s, hs⟩
        · simp [ht] at htype
        · simp [ht] at htype
        · simp [ht] at htype
        · exact ⟨s, hs⟩
      rw [ht] at hsame
      rw [defaultLiteral, ht, hs] at h
      obtain rfl := Option.some.inj (Except.ok.inj h)
      exact expandTemplate_of_text d s hsame
    · exact expandTemplate_of_plain d hf hj ht h

/-! ## Definitions -/

/-- The default of a column as a part of its definition. -/
def defaultPart (enclosed : String → Bool) : Option String → String
  | none => ""
  | some literal => " DEFAULT " ++ if enclosed literal then "(" ++ literal ++ ")" else literal

/-- The definition of a column. -/
def columnText (d : Dialect) (name : String) (type : LogicalType) (default : String)
    (nullable : Bool) : String :=
  quote d name ++ " " ++ typeName d type ++ default ++ nullability nullable

/-- What the definitions of a field's column inside CREATE TABLE and ALTER TABLE have in common. The
first may put its default in parentheses. -/
structure DefinedAlike (d : Dialect) (f : Field) (created added : Column) : Prop where
  created_eq : created.definition d = columnText d f.name f.type
    (defaultPart (fun literal => d = .sqlite && needsParentheses literal)
      (added.default.map (expandTemplate d))) f.nullable
  added_eq : added.addition d =
    columnText d f.name f.type (defaultPart (fun _ => false) added.default) f.nullable
  /-- The defaults denote one value exactly if the literal stands for itself. -/
  default_iff : ∀ literal, added.default = some literal →
    (DenoteSame f.type (expandTemplate d literal) literal ↔ StandsForItself d literal.toList)

theorem defaultClause_eq (d : Dialect) (literal : String) : defaultClause d literal =
    defaultPart (fun literal => d = .sqlite && needsParentheses literal)
      (some (expandTemplate d literal)) := by
  rw [defaultClause, defaultPart]
  split
  · rw [← String.append_assoc, ← String.append_assoc]
    rfl
  · rfl

theorem definedAlike (d : Dialect) {f : Field} (hf : f.Sound) (hkey : f.primaryKey = false)
    (hw : f.default.wellFormed = true) {default : Option String}
    (h : defaultLiteral d f = .ok default) {created : Column}
    (hc : Table.fieldColumn d f = .ok created) :
    DefinedAlike d f created { name := f.name, type := f.type, default, nullable := f.nullable } := by
  have hauto : f.auto = false := by
    by_contra hauto
    rw [(hf.auto (by simpa using hauto)).1] at hkey
    cases hkey
  obtain ⟨default', h', rfl⟩ := (Table.fieldColumn_eq_ok d f created).1 hc
  obtain rfl : default = default' := Except.ok.inj (h.symm.trans h')
  refine ⟨?_, ?_, ?_⟩
  · rw [Column.definition, Column.typeText, columnText, hauto]
    cases default with
    | none => simp [defaultPart, nullability]
    | some literal => simp [defaultClause_eq, nullability]
  · rw [Column.addition, columnText]
    cases default with
    | none => simp [defaultPart, nullability]
    | some literal =>
      have hclause : s!" DEFAULT {literal}" = " DEFAULT " ++ literal := rfl
      simp [defaultPart, nullability, hclause]
  · rintro literal rfl
    exact denoteSame_expandTemplate_iff d hf hw h

theorem exists_intercalate (separator : String) {part : String} {parts : List String}
    (h : part ∈ parts) : ∃ front back, separator.intercalate parts = front ++ part ++ back := by
  induction parts with
  | nil => cases h
  | cons x rest ih =>
    by_cases hrest : rest = []
    · subst hrest
      obtain rfl := List.mem_singleton.1 h
      exact ⟨"", "", by simp⟩
    · rw [String.intercalate_cons_of_ne_nil hrest]
      rcases List.mem_cons.1 h with rfl | hin
      · exact ⟨"", separator ++ separator.intercalate rest, by simp [String.append_assoc]⟩
      · obtain ⟨front, back, htext⟩ := ih hin
        exact ⟨x ++ separator ++ front, back, by simp [htext, String.append_assoc]⟩

/-- The statement that creates a table holds the definitions of its columns. -/
theorem definition_in_createTable {ts : Tables} {t : Table} {c : Column} (hc : c ∈ t.columns)
    {sql : String} (h : createTable d ts t = .ok sql) :
    ∃ front back, sql = front ++ c.definition d ++ back := by
  obtain ⟨uniques, -, h⟩ := (Outcome.bind_eq_ok _ _ _).1 h
  obtain ⟨foreignKeys, -, h⟩ := (Outcome.bind_eq_ok _ _ _).1 h
  have hitem : c.definition d ∈ t.columns.map (·.definition d) ++
      [s!"PRIMARY KEY ({columnList d t.primaryKey})"] ++ uniques ++
        foreignKeys.map (·.definition d) := by
    simp only [List.mem_append]
    exact Or.inl (Or.inl (Or.inl (List.mem_map_of_mem hc)))
  obtain ⟨front, back, hbody⟩ := exists_intercalate ", \n\t" hitem
  obtain rfl := Except.ok.inj h
  rw [hbody]
  exact ⟨"CREATE TABLE " ++ quote d t.name ++ " (\n\t" ++ front, back ++ "\n)", by
    simp [String.append_assoc, ToString.toString]⟩

/-- What becomes of a field in CREATE TABLE and in ADD COLUMN. -/
structure DefinedTwice (d : Dialect) (s : Schema) (name : String) (e : Entity) (f : Field) :
    Prop where
  /-- Both columns can be made, or neither. -/
  fails_iff : ∀ error,
    Table.fieldColumn d f = .error error ↔ Ddl.addedColumn d f = .error error
  alike : ∀ t, Table.ofEntity d s name e = .ok t → ∃ created ∈ t.columns, ∃ added,
    Ddl.addedColumn d f = .ok added ∧ DefinedAlike d f created added ∧
      ∀ ts sql, createTable d ts t = .ok sql →
        ∃ front back, sql = front ++ created.definition d ++ back

/-- CREATE TABLE and ADD COLUMN define the same column for a field but for its default, and the same
default exactly if its literal stands for itself. -/
theorem column_defined_twice (d : Dialect) (s : Schema) (name : String) {e : Entity} (he : e.Sound)
    {f : Field} (hf : f ∈ e.fields) (hkey : f.primaryKey = false)
    (hw : f.default.wellFormed = true) : DefinedTwice d s name e f := by
  refine ⟨fun error => ?_, fun t ht => ?_⟩
  · rw [Table.fieldColumn, Ddl.addedColumn]
    cases defaultLiteral d f with
    | error _ => exact Iff.rfl
    | ok default => exact iff_of_false (by rintro ⟨⟩) (by rintro ⟨⟩)
  · obtain ⟨columns, hcolumns, ht⟩ := (Outcome.bind_eq_ok _ _ _).1 ht
    obtain ⟨references, -, ht⟩ := (Outcome.bind_eq_ok _ _ _).1 ht
    obtain ⟨foreignKeys, -, ht⟩ := (Outcome.bind_eq_ok _ _ _).1 ht
    obtain ⟨hall, hmem⟩ := Outcome.mem_of_mapM hcolumns
    obtain ⟨created, hcreated⟩ := hall f hf
    obtain ⟨default, hdefault, -⟩ := (Table.fieldColumn_eq_ok d f created).1 hcreated
    have hin : created ∈ t.columns := by
      split at ht
      · cases ht
      · obtain rfl := Except.ok.inj ht
        exact List.mem_append_left _ ((hmem created).2 ⟨f, hf, hcreated⟩)
    refine ⟨created, hin, _, by rw [Ddl.addedColumn, hdefault]; rfl,
      definedAlike d (he.fields f hf) hkey hw hdefault hcreated,
      fun ts sql hsql => definition_in_createTable hin hsql⟩

/-- A text that names a parameter when it is a template. -/
def missingNote : Field := { name := "note", default := .text ":none" }

/-- A document with a percent sign in it. -/
def shareNote : Field := { name := "share", type := .json, default := .object [("of", .text "50%")] }

/-- Notes with both. -/
def templateNotes : Entity where
  name := "Note"
  fields := [{ name := "id", type := .bigint, primaryKey := true, auto := true }, missingNote,
    shareNote]

theorem column_defined_twice_notes :
    (templateNotes.Sound ∧ (missingNote ∈ templateNotes.fields ∧ missingNote.primaryKey = false ∧
      missingNote.default.wellFormed = true) ∧ shareNote ∈ templateNotes.fields ∧
        shareNote.primaryKey = false ∧ shareNote.default.wellFormed = true) ∧
      DefinedTwice .sqlite { entities := [templateNotes] } "Note" templateNotes missingNote ∧
      DefinedTwice .postgresql { entities := [templateNotes] } "Note" templateNotes shareNote :=
  have he : templateNotes.Sound := templateNotes.sound_iff.2 (by decide +kernel)
  have hmissing : missingNote ∈ templateNotes.fields := List.mem_cons_of_mem _ List.mem_cons_self
  have hshare : shareNote ∈ templateNotes.fields :=
    List.mem_cons_of_mem _ (List.mem_cons_of_mem _ List.mem_cons_self)
  have hwell : shareNote.default.wellFormed = true := by decide +kernel
  ⟨⟨he, ⟨hmissing, rfl, rfl⟩, hshare, rfl, hwell⟩,
    column_defined_twice .sqlite _ "Note" he hmissing rfl rfl,
    column_defined_twice .postgresql _ "Note" he hshare rfl hwell⟩

example : expandTemplate .sqlite "':none'" = "'NULL'" := by decide

example : expandTemplate .postgresql "'\x7b\"of\": \"50%\"\x7d'::jsonb" =
    "'\x7b\"of\": \"50%%\"\x7d'::jsonb" := by decide

end SchemaLedger.Sql
