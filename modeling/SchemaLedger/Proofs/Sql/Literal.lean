import Mathlib.Tactic.Linarith
import SchemaLedger.Proofs.Json.Stored
import SchemaLedger.Proofs.Paired
import SchemaLedger.Proofs.Schema.Soundness
import SchemaLedger.Sql.Literal
import SchemaLedger.Sql.Template

set_option autoImplicit false

/-!
# What literals stand for

The literal of a declared default, read by the rules of the databases: a quoted text ends at a quote
that is not doubled, a document is a quoted text, and numbers are written as in documents.
-/
namespace SchemaLedger

/-- A magnitude is rounded to itself. -/
theorem Magnitude.rounds_value {m : Magnitude} (hs : m.significand ≠ 0) : m.Rounds m.value := by
  have hpow : (0 : ℚ) < 2 ^ m.exponent := zpow_pos two_pos _
  have hlow : m.lowEnd < 4 * m.significand := by
    unfold lowEnd
    split_ifs <;> omega
  have hlow' : (m.lowEnd : ℚ) < 4 * m.significand := by exact_mod_cast hlow
  refine Around.of_lt ?_ ?_ <;> rw [value] <;> refine mul_lt_mul_of_pos_right ?_ hpow
  · linarith
  · push_cast
    linarith

theorem Magnitude.ofRatio?_of_value {m : Magnitude} {k : ℕ} (h : m.value = k) :
    ofRatio? k 1 = some m := by
  by_cases hs : m.significand = 0
  · obtain rfl := m.eq_zero hs
    have hzero : k = 0 := by
      simpa [value_eq_zero.2 (by decide : zero.isZero = true)] using h.symm
    rw [hzero]
    rfl
  · refine ofRatio?_eq hs one_pos ?_
    rw [Nat.cast_one, div_one, ← h]
    exact m.rounds_value hs

/-- An integer that is a double is the double nearest to it. -/
theorem Double.sameNumber_ofInt? {y : Double} {n : ℤ} (h : y.toInt? = some n) :
    ∃ x, ofInt? n = some x ∧ x.isFinite = true ∧ x.sameNumber y = true := by
  cases y with
  | nan => cases h
  | infinity negative => cases h
  | finite negative m =>
    rw [toInt?_finite, Option.map_eq_some_iff] at h
    obtain ⟨k, hk, hn⟩ := h
    have habs : n.natAbs = k := by
      rw [← hn]
      split <;> simp
    have hvalue := m.value_of_toNat? hk
    have hround := Magnitude.ofRatio?_of_value hvalue
    refine ⟨.finite (n < 0) m, by rw [ofInt?, habs, hround]; rfl, rfl, ?_⟩
    simp only [sameNumber, decide_true, Bool.true_and, Bool.or_eq_true, decide_eq_true_eq]
    by_cases hz : m.isZero = true
    · exact Or.inr hz
    · left
      have hpos : 0 < k := Nat.pos_of_ne_zero fun h0 => hz (Magnitude.value_eq_zero.1 (by
        rw [hvalue, h0, Nat.cast_zero]))
      cases negative <;> simp_all <;> omega

namespace Sql

open Outcome (Both)

/-! ## Reading -/

/-- The text in quotes whose opening quote was read, and what follows it. -/
def unquote? : List Char → Option (List Char × List Char)
  | '\'' :: '\'' :: rest => (unquote? rest).map fun r => ('\'' :: r.1, r.2)
  | '\'' :: rest => some ([], rest)
  | c :: rest => (unquote? rest).map fun r => (c :: r.1, r.2)
  | [] => none

/-- The text that a quoted literal stands for, if it ends as it should. -/
def quotedText? (ending : List Char → Bool) (literal : String) : Option String :=
  match literal.toList with
  | '\'' :: rest => (unquote? rest).bind fun r => if ending r.2 then some (String.ofList r.1) else none
  | _ => none

/-- What a literal stands for in a column of a type. -/
def literalValue? (type : LogicalType) (literal : String) : Option Value :=
  match type with
  | .bool =>
    if literal = "1" ∨ literal = "true" then some (.bool true)
    else if literal = "0" ∨ literal = "false" then some (.bool false)
    else none
  | .text => (quotedText? (· = []) literal).map .text
  | .json =>
    (quotedText? (fun rest => rest = [] ∨ rest = "::jsonb".toList) literal).bind fun document =>
      (Json.read document).toOption
  | _ => (Json.read literal).toOption

theorem unquote?_quoted (cs rest : List Char) (hr : rest.head? ≠ some '\'') :
    unquote? (cs.flatMap doubleQuote ++ '\'' :: rest) = some (cs, rest) := by
  induction cs with
  | nil =>
    rw [List.flatMap_nil, List.nil_append]
    cases rest with
    | nil => rfl
    | cons c rest =>
      have hc : c ≠ '\'' := fun heq => hr (by rw [heq]; rfl)
      simp [unquote?, hc]
  | cons c rest ih =>
    rw [List.flatMap_cons, doubleQuote]
    split
    case isTrue hc => simp [unquote?, ih, hc]
    case isFalse hc => simp [unquote?, ih, hc]

theorem quotedText?_quoteLiteral (ending : List Char → Bool) (s rest : String)
    (hr : rest.toList.head? ≠ some '\'') (he : ending rest.toList = true) :
    quotedText? ending (quoteLiteral s ++ rest) = some s := by
  have htext : (quoteLiteral s ++ rest).toList =
      '\'' :: (s.toList.flatMap doubleQuote ++ '\'' :: rest.toList) := by
    simp [quoteLiteral]
  rw [quotedText?, htext]
  simp [unquote?_quoted _ _ hr, he]

/-! ## Declared defaults -/

variable {d : Dialect} {f g : Field} {literal literal' : String}

theorem boolLiteral_value (d : Dialect) (b : Bool) :
    literalValue? .bool (boolLiteral d b) = some (.bool b) := by
  cases d <;> cases b <;> rfl

theorem quoteLiteral_value (s : String) :
    literalValue? .text (quoteLiteral s) = some (.text s) := by
  have h := quotedText?_quoteLiteral (· = []) s "" (by simp) (by simp)
  rw [String.append_empty] at h
  rw [literalValue?, h]
  rfl

theorem jsonLiteral_value (d : Dialect) (document : String) :
    literalValue? .json (jsonLiteral d document) = (Json.read document).toOption := by
  have hread : ∀ rest : String, rest.toList.head? ≠ some '\'' →
      (rest.toList = [] ∨ rest.toList = "::jsonb".toList) →
        literalValue? .json (quoteLiteral document ++ rest) = (Json.read document).toOption := by
    intro rest hr he
    rw [literalValue?, quotedText?_quoteLiteral _ document rest hr (decide_eq_true he)]
    rfl
  cases d with
  | sqlite =>
    have h := hread "" (by simp) (Or.inl rfl)
    rwa [String.append_empty] at h
  | postgresql => exact hread "::jsonb" (by simp) (Or.inr rfl)

theorem finite_value {x : Double} (hx : x.isFinite = true) :
    literalValue? .real x.text = some (.float x) := by
  have hread := Json.read_render Json.readable_spaced (v := .float x) rfl
  have htext : Json.render .spaced (.float x) = x.text := by
    cases x with
    | finite negative m => rfl
    | nan => cases hx
    | infinity negative => cases hx
  rw [htext] at hread
  rw [literalValue?, hread]
  · rfl
  all_goals exact nofun

/-- Whether two literals stand for one value: they are the same text, or are read as values that
agree. -/
def DenoteSame (type : LogicalType) (literal literal' : String) : Prop :=
  literal = literal' ∨ ∃ u u', literalValue? type literal = some u ∧
    literalValue? type literal' = some u' ∧ u.agrees u' = true

theorem DenoteSame.refl {type : LogicalType} (literal : String) :
    DenoteSame type literal literal :=
  Or.inl rfl

theorem optionRel_refl {R : String → String → Prop} (h : ∀ literal, R literal literal) :
    ∀ default, Option.Rel R default default
  | none => .none
  | some literal => .some (h literal)

/-- Numbers of one value are written alike, the two zeros apart. -/
theorem text_of_sameNumber {x y : Double} (h : x.sameNumber y = true) :
    x.text = y.text ∨ (∃ a, x = .finite a .zero) ∧ ∃ b, y = .finite b .zero := by
  cases x with
  | nan => cases h
  | infinity a =>
    cases y with
    | infinity b =>
      obtain rfl : a = b := of_decide_eq_true h
      exact Or.inl rfl
    | _ => cases h
  | finite a m =>
    cases y with
    | finite b k =>
      simp only [Double.sameNumber, Bool.and_eq_true, Bool.or_eq_true, decide_eq_true_eq] at h
      obtain ⟨rfl, rfl | hz⟩ := h
      · exact Or.inl rfl
      · obtain rfl := m.eq_zero (of_decide_eq_true hz)
        exact Or.inr ⟨⟨a, rfl⟩, b, rfl⟩
    | _ => cases h

/-- Literals that stand for one value, also where they are templates. -/
def Interchangeable (d : Dialect) (type : LogicalType) (literal literal' : String) : Prop :=
  DenoteSame type literal literal' ∧
    DenoteSame type (expandTemplate d literal) (expandTemplate d literal')

theorem Interchangeable.refl {type : LogicalType} (literal : String) :
    Interchangeable d type literal literal :=
  ⟨.refl _, .refl _⟩

theorem expandTemplate_zero (d : Dialect) (negative : Bool) :
    expandTemplate d (Double.finite negative .zero).text = (Double.finite negative .zero).text := by
  cases d <;> cases negative <;> decide +kernel

theorem realText_same (d : Dialect) {x y : Double} (h : x.sameNumber y = true) :
    Interchangeable d .real x.text y.text := by
  rcases text_of_sameNumber h with heq | ⟨⟨a, rfl⟩, b, rfl⟩
  · exact heq ▸ .refl _
  · have hsame : DenoteSame .real (Double.finite a .zero).text (Double.finite b .zero).text :=
      Or.inr ⟨_, _, finite_value rfl, finite_value rfl, h⟩
    refine ⟨hsame, ?_⟩
    rwa [expandTemplate_zero, expandTemplate_zero]

theorem realLiteral_same (d : Dialect) {v w : Value} (hv : Field.fits .real v = true)
    (hw : Field.fits .real w = true) (h : v.same w = true) :
    Both (Option.Rel (Interchangeable d .real)) ((realLiteral v).map some)
      ((realLiteral w).map some) := by
  have hint : ∀ (y : Double) (n : ℤ), y.toInt? = some n →
      ∃ x : Double, realLiteral (.int n) = .ok x.text ∧ x.sameNumber y = true := by
    intro y n hn
    obtain ⟨x, hx, -, hsame⟩ := Double.sameNumber_ofInt? hn
    exact ⟨x, by simp [realLiteral, Value.asInt?, hx], hsame⟩
  cases v with
  | int n =>
    cases w with
    | int m =>
      obtain rfl : n = m := by simpa [Value.same] using h
      exact Both.refl _ fun default _ => optionRel_refl Interchangeable.refl default
    | float y =>
      obtain ⟨x, hx, hsame⟩ := hint y n (by simpa [Value.same, Value.sameAsInt] using h)
      rw [hx]
      exact .some (realText_same d hsame)
    | _ => cases hw
  | float x =>
    cases w with
    | int n =>
      obtain ⟨y, hy, hsame⟩ := hint x n (by simpa [Value.same, Value.sameAsInt] using h)
      rw [hy]
      refine .some (realText_same d ?_)
      have hback := Value.same_symm (.float y) (.float x) rfl rfl (by rwa [Value.same])
      rwa [Value.same] at hback
    | float y =>
      rw [Value.same] at h
      exact .some (realText_same d h)
    | _ => cases hw
  | _ => cases hv

theorem isDocument_of_same {v w : Value} (h : v.same w = true) (hw : Json.isDocument w = true) :
    Json.isDocument v = true := by
  rw [Json.isDocument_iff] at hw ⊢
  refine Value.everywhere_of_same (fun v w h hw => ?_) v w h hw
  cases v <;> first | rfl | cases w <;> simp_all [Value.same, Json.Style.keeps]

/-- The literals of two documents that are the same. -/
theorem jsonLiteral_same (d : Dialect) {v w : Value} (hv : v.wellFormed = true)
    (hw : w.wellFormed = true) (hdv : Json.isDocument v = true) (hdw : Json.isDocument w = true)
    (h : v.same w = true) :
    DenoteSame .json (jsonLiteral d (Json.render .sorted v)) (jsonLiteral d (Json.render .sorted w)) ↔
      v.agrees w = true := by
  have hread : ∀ u : Value, Json.isDocument u = true → u.wellFormed = true →
      literalValue? .json (jsonLiteral d (Json.render .sorted u)) = some u.ordered := by
    intro u hd hu
    rw [jsonLiteral_value, Json.read_render_sorted hd hu]
    rfl
  have hback := Value.same_symm v w hv hw h
  have hov := Value.agrees_ordered (Value.nanFree_of_same h) hv
  have how := Value.agrees_ordered (Value.nanFree_of_same hback) hw
  have hov' := Value.agrees_symm (Value.wellFormed_ordered hv) hv hov
  have how' := Value.agrees_symm (Value.wellFormed_ordered hw) hw how
  constructor
  · rintro (heq | ⟨u, u', hu, hu', hagree⟩)
    · have hordered : v.ordered = w.ordered := by
        have hboth := hread v hdv hv
        rw [heq, hread w hdw hw] at hboth
        exact (Option.some.inj hboth).symm
      exact Value.agrees_trans (hordered ▸ hov') how
    · rw [hread v hdv hv] at hu
      rw [hread w hdw hw] at hu'
      cases hu
      cases hu'
      exact Value.agrees_trans (Value.agrees_trans hov' hagree) how
  · intro hagree
    exact Or.inr ⟨_, _, hread v hdv hv, hread w hdw hw,
      Value.agrees_trans (Value.agrees_trans hov hagree) how'⟩

theorem fits_of_check (hf : f.check = .ok ()) (hd : f.default.isNull = false) :
    Field.fits f.type f.default = true := by
  rw [Field.check, hd, if_neg Bool.false_ne_true] at hf
  split at hf
  · cases hf
  split at hf
  · cases hf
  case isFalse hfits => simpa using hfits

/-- The defaults that columns may have, documents apart. -/
theorem fits_cases {type : LogicalType} {v : Value} (hj : type ≠ .json)
    (h : Field.fits type v = true) :
    (type = .bool ∧ ∃ b, v = .bool b) ∨ ((type = .int ∨ type = .bigint) ∧ ∃ n, v = .int n) ∨
      (type = .real ∧ ((∃ n, v = .int n) ∨ ∃ x, v = .float x)) ∨ (type = .text ∧ ∃ s, v = .text s) := by
  unfold Field.fits at h
  split at h <;> simp_all

/-- Outside of documents, values of one kind that are the same agree. -/
theorem agrees_of_same {type : LogicalType} {v w : Value} (hj : type ≠ .json)
    (hv : Field.fits type v = true) (hw : Field.fits type w = true) (h : v.same w = true) :
    v.agrees w = true := by
  rcases fits_cases hj hv with ⟨rfl, b, rfl⟩ | ⟨htype, n, rfl⟩ | ⟨rfl, ⟨n, rfl⟩ | ⟨x, rfl⟩⟩ |
    ⟨rfl, s, rfl⟩ <;>
  rcases fits_cases hj hw with ⟨hk, b', rfl⟩ | ⟨hk, n', rfl⟩ | ⟨hk, ⟨n', rfl⟩ | ⟨x', rfl⟩⟩ |
    ⟨hk, s', rfl⟩ <;>
  simp_all [Value.agrees, Value.told, Value.same]

/-- Texts, truth values and integers that are the same are equal. -/
theorem eq_of_same {type : LogicalType} {v w : Value} (hj : type ≠ .json) (hr : type ≠ .real)
    (hv : Field.fits type v = true) (hw : Field.fits type w = true) (h : v.same w = true) :
    v = w := by
  rcases fits_cases hj hv with ⟨rfl, b, rfl⟩ | ⟨htype, n, rfl⟩ | ⟨htype, -⟩ | ⟨rfl, s, rfl⟩ <;>
  rcases fits_cases hj hw with ⟨hk, b', rfl⟩ | ⟨hk, n', rfl⟩ | ⟨hk, -⟩ | ⟨hk, s', rfl⟩ <;>
  simp_all [Value.same]

/-- What the literals of the defaults of two fields have in common. -/
structure Kindred (d : Dialect) (type : LogicalType) (agree : Prop) (literal literal' : String) :
    Prop where
  denote : DenoteSame type literal literal' ↔ agree
  plain : type ≠ .json → Interchangeable d type literal literal'

theorem Kindred.of_interchangeable {type : LogicalType} {agree : Prop} (ha : agree)
    (h : Interchangeable d type literal literal') : Kindred d type agree literal literal' :=
  ⟨⟨fun _ => ha, fun _ => h.1⟩, fun _ => h⟩

/-- Fields that are the same have defaults whose literals stand for one value exactly if the defaults
agree. -/
theorem defaultLiteral_same (d : Dialect) (hf : f.Sound) (hg : g.Sound)
    (hwf : f.default.wellFormed = true) (hwg : g.default.wellFormed = true)
    (h : f.same g = true) :
    Both (Option.Rel (Kindred d f.type (f.default.agrees g.default = true)))
      (defaultLiteral d f) (defaultLiteral d g) := by
  simp only [Field.same, Bool.and_eq_true, decide_eq_true_eq] at h
  obtain ⟨⟨⟨⟨⟨⟨-, htype⟩, -⟩, hsame⟩, -⟩, -⟩, -⟩ := h
  have hback := Value.same_symm _ _ hwf hwg hsame
  have hnull : g.default.isNull = f.default.isNull := by
    revert hsame
    cases f.default <;> cases g.default <;> simp [Value.same, Value.isNull]
  cases hnone : f.default.isNull with
  | true =>
    rw [defaultLiteral, defaultLiteral, hnull, hnone]
    exact Option.Rel.none
  | false =>
    have hfits := fits_of_check hf.default hnone
    have hfits' := fits_of_check hg.default (hnull.trans hnone)
    rw [← htype] at hfits'
    rw [defaultLiteral, defaultLiteral, hnull, hnone, if_neg Bool.false_ne_true,
      if_neg Bool.false_ne_true, ← htype]
    by_cases hj : f.type = .json
    · rw [hj]
      dsimp only
      cases hd : Json.isDocument f.default with
      | true =>
        have hd' := isDocument_of_same hback hd
        rw [if_pos rfl, if_pos hd']
        exact .some ⟨jsonLiteral_same d hwf hwg hd hd' hsame, fun hne => absurd rfl hne⟩
      | false =>
        have hd' : Json.isDocument g.default = false := Bool.eq_false_iff.2 fun hdoc =>
          absurd (isDocument_of_same hsame hdoc) (by rw [hd]; exact Bool.false_ne_true)
        rw [hd']
        trivial
    · have hagree := agrees_of_same hj hfits hfits' hsame
      by_cases hr : f.type = .real
      · rw [hr] at hfits hfits' ⊢
        refine (realLiteral_same d hfits hfits' hsame).mono fun _ _ hrel => ?_
        cases hrel with
        | none => exact .none
        | some h => exact .some (.of_interchangeable hagree h)
      · rw [← eq_of_same hj hr hfits hfits' hsame] at hagree ⊢
        exact Both.refl _ fun default _ =>
          optionRel_refl (fun _ => .of_interchangeable hagree (.refl _)) default

end Sql

end SchemaLedger
