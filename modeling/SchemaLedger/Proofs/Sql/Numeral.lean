import SchemaLedger.Proofs.Decimal.Rounding
import SchemaLedger.Proofs.Sql.Literal

set_option autoImplicit false

/-!
# Numbers as defaults

A field of integers may declare any integer as its default, and a field of reals any integer and any
double. The literal of a declared default stands for a number that the column can hold exactly if the
integer has no more than the bits of the type, or the real is finite.
-/
namespace SchemaLedger

namespace LogicalType

def isNumeric : LogicalType → Bool
  | .int | .bigint | .real => true
  | _ => false

/-- Whether a number is in the range of the columns of a type: 32 bits, 64 bits or the finite
doubles. -/
def spans : LogicalType → Value → Bool
  | .int, .int n => decide (-0x80000000 ≤ n ∧ n < 0x80000000)
  | .bigint, .int n => decide (-0x8000000000000000 ≤ n ∧ n < 0x8000000000000000)
  | .real, .float x => x.isFinite
  | _, _ => false

/-- Whether a number that is declared as a default is in the range of the type, an integer among the
reals as the double that is nearest to it. -/
def represents : LogicalType → Value → Bool
  | .real, .int n => decide (n.natAbs < Magnitude.limit)
  | t, v => t.spans v

end LogicalType

namespace Sql

/-- The number that a numeric literal stands for: digits, perhaps with a minus sign before them and a
fraction and an exponent after them, and nothing else. -/
def literalNumber? (literal : String) : Option Value :=
  match Json.readNumber? literal.toList with
  | some (v, []) => some v
  | _ => none

theorem literalNumber?_int (n : ℤ) : literalNumber? (toString n) = some (.int n) := by
  have hread := Json.readNumber?_int n Json.ends_nil
  rw [List.append_nil] at hread
  rw [literalNumber?, hread]

/-- The text of a double is a numeral, and stands for the double, exactly if it is finite. -/
theorem literalNumber?_text (x : Double) :
    literalNumber? x.text = if x.isFinite then some (.float x) else none := by
  cases x with
  | nan => rfl
  | infinity negative => cases negative <;> rfl
  | finite negative m =>
    have hread := Json.readNumber?_float .plain negative m Json.ends_nil
    rw [List.append_nil] at hread
    rw [literalNumber?, Double.text, hread]
    rfl

/-- A numeral of a number that a column of a type can hold. -/
def Fitting (t : LogicalType) (literal : String) : Prop :=
  ∃ v, literalNumber? literal = some v ∧ t.spans v = true

/-- The default of a field has a literal, a numeral of a number that its column can hold. -/
def HasNumeral (d : Dialect) (f : Field) : Prop :=
  ∃ literal, defaultLiteral d f = .ok (some literal) ∧ Fitting f.type literal

/-- What comes of a number that is declared as a default. -/
inductive Declared (t : LogicalType) : Value → Result (Option String) → Prop
  /-- An integer is written as itself, whatever its size. -/
  | whole (n : ℤ) (literal : String) (ht : t ≠ .real)
      (hread : literalNumber? literal = some (.int n)) : Declared t (.int n) (.ok (some literal))
  /-- Among the reals an integer is written as the nearest double. -/
  | nearest (n : ℤ) (x : Double) (literal : String) (ht : t = .real) (hx : Double.ofInt? n = some x)
      (hread : literalNumber? literal = some (.float x)) : Declared t (.int n) (.ok (some literal))
  | beyond (n : ℤ) (ht : t = .real) (hn : Magnitude.limit ≤ n.natAbs) :
    Declared t (.int n) (.error (.defect .overflow "int too large to convert to float"))
  | finite (x : Double) (literal : String) (ht : t = .real)
      (hread : literalNumber? literal = some (.float x)) : Declared t (.float x) (.ok (some literal))
  /-- The words for the other doubles are no numerals. -/
  | word (x : Double) (literal : String) (ht : t = .real) (hx : x.isFinite = false)
      (hread : literalNumber? literal = none) : Declared t (.float x) (.ok (some literal))

variable {f : Field}

theorem realLiteral_int (n : ℤ) : realLiteral (.int n) =
    match Double.ofInt? n with
    | some x => .ok x.text
    | none => .error (.defect .overflow "int too large to convert to float") := rfl

theorem hasNumeral_iff {d : Dialect} {literal : String}
    (h : defaultLiteral d f = .ok (some literal)) : HasNumeral d f ↔ Fitting f.type literal := by
  simp [HasNumeral, h]

theorem declared_int (d : Dialect) {n : ℤ} (hv : f.default = .int n)
    (ht : f.type = .int ∨ f.type = .bigint) :
    (HasNumeral d f ↔ f.type.spans (.int n) = true) ∧
      Declared f.type (.int n) (defaultLiteral d f) := by
  have hliteral : defaultLiteral d f = .ok (some (toString n)) := by
    rw [defaultLiteral, hv]
    rcases ht with ht | ht <;> rw [ht] <;> rfl
  rw [hasNumeral_iff hliteral, hliteral, Fitting, literalNumber?_int]
  have hreal : f.type ≠ .real := by
    rcases ht with ht | ht <;> simp [ht]
  exact ⟨by simp, .whole n _ hreal (literalNumber?_int n)⟩

theorem declared_real (d : Dialect) (ht : f.type = .real) {x : Double} (hv : f.default = .float x) :
    (HasNumeral d f ↔ x.isFinite = true) ∧ Declared f.type (.float x) (defaultLiteral d f) := by
  have hliteral : defaultLiteral d f = .ok (some x.text) := by
    rw [defaultLiteral, hv, ht]
    rfl
  have hread := literalNumber?_text x
  rw [hasNumeral_iff hliteral, hliteral, Fitting, ht, hread]
  cases hx : x.isFinite with
  | true =>
    rw [hx] at hread
    exact ⟨by simp [LogicalType.spans, hx], .finite x _ rfl hread⟩
  | false =>
    rw [hx] at hread
    exact ⟨by simp, .word x _ rfl hx hread⟩

/-- An integer that is declared for a real field is written as the nearest double, if there is one. -/
theorem declared_nearest (d : Dialect) (ht : f.type = .real) {n : ℤ} (hv : f.default = .int n) :
    (HasNumeral d f ↔ n.natAbs < Magnitude.limit) ∧
      Declared f.type (.int n) (defaultLiteral d f) := by
  have hliteral : defaultLiteral d f = (realLiteral (.int n)).map some := by
    rw [defaultLiteral, hv, ht]
    rfl
  rw [← not_le, ← Double.ofInt?_eq_none_iff]
  rw [realLiteral_int] at hliteral
  cases hx : Double.ofInt? n with
  | none =>
    rw [hx] at hliteral
    have hn := (Double.ofInt?_eq_none_iff n).1 hx
    refine ⟨iff_of_false ?_ (not_not.2 rfl), hliteral ▸ .beyond n ht hn⟩
    rintro ⟨literal, hok, -⟩
    cases hliteral.symm.trans hok
  | some x =>
    rw [hx] at hliteral
    have hfinite := Double.isFinite_of_ofInt? hx
    have hread := (literalNumber?_text x).trans (if_pos hfinite)
    refine ⟨iff_of_true ((hasNumeral_iff hliteral).2 ⟨_, hread, ?_⟩) (by simp),
      hliteral ▸ .nearest n x _ ht hx hread⟩
    rw [ht]
    exact hfinite

/-- The default of a numeric field that passes its check: an integer, or a double for a real. -/
theorem numeric_cases (hf : f.check = .ok ()) (hd : f.hasDefault = true)
    (ht : f.type.isNumeric = true) :
    ((f.type = .int ∨ f.type = .bigint) ∧ ∃ n, f.default = .int n) ∨
      f.type = .real ∧ ((∃ n, f.default = .int n) ∨ ∃ x, f.default = .float x) := by
  have hnull : f.default.isNull = false := by simpa [Field.hasDefault] using hd
  have hj : f.type ≠ .json := by
    intro hj
    rw [hj] at ht
    cases ht
  rcases fits_cases hj (fits_of_check hf hnull) with ⟨htype, -⟩ | h | h | ⟨htype, -⟩
  · rw [htype] at ht
    cases ht
  · exact Or.inl h
  · exact Or.inr h
  · rw [htype] at ht
    cases ht

/-- Exactly the defaults in the range of their type have a numeral that the column can hold. A field
may declare others as well: an integer of more bits is written all the same, an infinite real or one
that is not a number is written as a word, and an integer beyond every double has no literal. -/
theorem hasNumeral_iff_represents (d : Dialect) (hf : f.check = .ok ()) (hd : f.hasDefault = true)
    (ht : f.type.isNumeric = true) :
    (HasNumeral d f ↔ f.type.represents f.default = true) ∧
      Declared f.type f.default (defaultLiteral d f) := by
  rcases numeric_cases hf hd ht with ⟨htype, n, hv⟩ | ⟨htype, ⟨n, hv⟩ | ⟨x, hv⟩⟩
  · obtain ⟨hfits, hdeclared⟩ := declared_int d hv htype
    rw [hv]
    refine ⟨hfits.trans ?_, hdeclared⟩
    rcases htype with htype | htype <;> rw [htype] <;> rfl
  · obtain ⟨hfits, hdeclared⟩ := declared_nearest d htype hv
    rw [hv]
    refine ⟨hfits.trans ?_, hdeclared⟩
    rw [htype, LogicalType.represents, decide_eq_true_eq]
  · obtain ⟨hfits, hdeclared⟩ := declared_real d htype hv
    rw [hv]
    refine ⟨hfits.trans ?_, hdeclared⟩
    rw [htype]
    rfl

/-- For each type a default at the end of its range, and one beyond it. -/
def boundaryDefaults : List Field :=
  [{ name := "a", type := .int, default := .int 0x7fffffff },
    { name := "b", type := .int, default := .int 0x80000000 },
    { name := "c", type := .bigint, default := .int (-0x8000000000000000) },
    { name := "d", type := .bigint, default := .int (-0x8000000000000001) },
    { name := "e", type := .real, default := .int (10 ^ 308) },
    { name := "f", type := .real, default := .int (10 ^ 309) },
    { name := "g", type := .real, default := .float (.infinity true) },
    { name := "h", type := .real, default := .float .nan }]

theorem hasNumeral_iff_represents_boundary :
    (∀ d, ∀ f ∈ boundaryDefaults, f.check = .ok () ∧ f.hasDefault = true ∧
      f.type.isNumeric = true ∧ (HasNumeral d f ↔ f.type.represents f.default = true)) ∧
    boundaryDefaults.map (fun f => f.type.represents f.default) =
      [true, false, true, false, true, false, false, false] := by
  have hcheck : ∀ f ∈ boundaryDefaults, f.check = .ok () ∧ f.hasDefault = true ∧
      f.type.isNumeric = true := by
    intro f hf
    simp only [boundaryDefaults, List.mem_cons, List.not_mem_nil, or_false] at hf
    rcases hf with rfl | rfl | rfl | rfl | rfl | rfl | rfl | rfl <;> exact ⟨rfl, rfl, rfl⟩
  refine ⟨fun d f hf => ?_, by decide +kernel⟩
  obtain ⟨hok, hd, ht⟩ := hcheck f hf
  exact ⟨hok, hd, ht, (hasNumeral_iff_represents d hok hd ht).1⟩

end Sql

end SchemaLedger
