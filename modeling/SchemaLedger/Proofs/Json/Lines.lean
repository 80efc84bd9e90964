import SchemaLedger.Proofs.Json.RoundTrip
import SchemaLedger.Text.Parts

set_option autoImplicit false

/-!
# Lines of documents

A printed document holds no carriage return, so a reader that takes every kind of line break for a
line feed reads the text that was written.
-/
namespace SchemaLedger

theorem Text.unixLines_self {cs : List Char} (h : '\r' ∉ cs) : Text.unixLines cs = cs := by
  induction cs with
  | nil => rfl
  | cons c rest ih =>
    rw [List.mem_cons, not_or] at h
    rw [Text.unixLines, ih h.2, if_neg (Ne.symm h.1)]
    rintro after rfl
    exact absurd rfl h.1

namespace Json

/-- A text in which no line ends with a carriage return. -/
def Unbroken (s : String) : Prop := '\r' ∉ s.toList

theorem unbroken_append {s t : String} (hs : Unbroken s) (ht : Unbroken t) : Unbroken (s ++ t) := by
  rw [Unbroken, String.toList_append, List.mem_append, not_or]
  exact ⟨hs, ht⟩

theorem unbroken_intercalate {separator : String} (hs : Unbroken separator) {parts : List String}
    (hp : ∀ s ∈ parts, Unbroken s) : Unbroken (separator.intercalate parts) := by
  rw [Unbroken, String.toList_intercalate]
  induction parts with
  | nil => simp
  | cons s rest ih =>
    rw [List.map_cons, intercalate_cons]
    have hs' : '\r' ∉ s.toList := hp s List.mem_cons_self
    have hrest := ih fun t ht => hp t (List.mem_cons_of_mem s ht)
    split
    case isTrue => exact hs'
    case isFalse => simp [hs', hrest, show '\r' ∉ separator.toList from hs]

/-! ## Characters of numbers and texts -/

theorem unbroken_digits {base : Nat} (hb : 1 < base) (hl : base ≤ 16) (n : Nat) :
    '\r' ∉ Nat.toDigits base n := by
  have hdigit : ∀ d < 16, '\r' ≠ Nat.digitChar d := by decide
  induction n using Nat.strongRecOn with
  | ind n ih =>
    rw [Nat.toDigits_eq_if hb]
    split
    case isTrue hlt =>
      rw [List.mem_singleton]
      exact hdigit n (by omega)
    case isFalse =>
      have hlt : n % base < base := Nat.mod_lt n (by omega)
      rw [List.mem_append, not_or, List.mem_singleton]
      exact ⟨ih _ (Nat.div_lt_self (by omega) hb), hdigit _ (by omega)⟩

theorem unbroken_int (n : Int) : Unbroken (toString n) := by
  cases n with
  | ofNat k =>
    have hs : (toString (Int.ofNat k)).toList = Nat.toDigits 10 k := Nat.toList_repr
    rw [Unbroken, hs]
    exact unbroken_digits (by decide) (by decide) k
  | negSucc k =>
    have hs : toString (Int.negSucc k) = "-" ++ Nat.repr (k + 1) := rfl
    rw [hs]
    refine unbroken_append (by simp [Unbroken]) ?_
    rw [Unbroken, Nat.toList_repr]
    exact unbroken_digits (by decide) (by decide) (k + 1)

theorem unbroken_zeros (n : Nat) : '\r' ∉ List.replicate n '0' := by
  intro h
  exact absurd (List.eq_of_mem_replicate h) (by decide)

theorem unbroken_unit (n : Nat) : '\r' ∉ escapeUnit n := by
  rw [escapeUnit, Text.hex]
  simp only [List.mem_cons, List.mem_append, not_or]
  exact ⟨by decide, by decide, unbroken_zeros _, unbroken_digits (by decide) (by decide) n⟩

theorem unbroken_codePoint (n : Nat) : '\r' ∉ escapeCodePoint n := by
  unfold escapeCodePoint
  split
  case isTrue => exact unbroken_unit n
  case isFalse =>
    rw [List.mem_append, not_or]
    exact ⟨unbroken_unit _, unbroken_unit _⟩

theorem unbroken_escapeChar (asciiOnly : Bool) (c : Char) : '\r' ∉ escapeChar asciiOnly c := by
  unfold escapeChar
  split
  case h_8 _ _ _ hr _ _ _ =>
    split
    case isTrue => exact unbroken_codePoint _
    case isFalse =>
      rw [List.mem_singleton]
      exact Ne.symm hr
  all_goals simp

theorem unbroken_quote (asciiOnly : Bool) (s : String) : Unbroken (quote asciiOnly s) := by
  simp [Unbroken, toList_quote, unbroken_escapeChar]

section Numbers

variable {digits : List Char} (hd : '\r' ∉ digits) (p : Int)

include hd

theorem unbroken_positional : '\r' ∉ Decimal.positional digits p := by
  have htake : ∀ k, '\r' ∉ digits.take k := fun k h => hd (List.mem_of_mem_take h)
  have hdrop : ∀ k, '\r' ∉ digits.drop k := fun k h => hd (List.mem_of_mem_drop h)
  rw [Decimal.positional]
  split
  case isTrue => simp [hd]
  case isFalse =>
    simp only [List.mem_append, List.mem_cons, not_or]
    refine ⟨⟨htake _, unbroken_zeros _⟩, by decide, ?_⟩
    split
    · simp
    · exact hdrop _

theorem unbroken_scientific (layout : Decimal.Layout) :
    '\r' ∉ Decimal.scientific layout digits p := by
  have htake : ∀ k, '\r' ∉ digits.take k := fun k h => hd (List.mem_of_mem_take h)
  have hdrop : ∀ k, '\r' ∉ digits.drop k := fun k h => hd (List.mem_of_mem_drop h)
  have hexponent : '\r' ∉ Nat.toDigits 10 p.natAbs :=
    unbroken_digits (by decide) (by decide) p.natAbs
  simp only [Decimal.scientific, Decimal.padLeft, List.mem_append, List.mem_cons, not_or]
  refine ⟨?_, by decide, ?_, unbroken_zeros _, hexponent⟩
  · split
    · exact htake 1
    · simp only [List.mem_append, List.mem_cons, not_or]
      exact ⟨htake 1, by decide, hdrop 1⟩
  · split <;> decide

end Numbers

theorem unbroken_decimal (layout : Decimal.Layout) (d : Decimal) : '\r' ∉ d.render layout := by
  have hdigits : '\r' ∉ d.text := unbroken_digits (by decide) (by decide) _
  simp only [Decimal.render]
  generalize (if d.digits = 0 then (0 : Int) else _) = p
  split
  case isTrue => exact unbroken_positional hdigits _
  case isFalse => exact unbroken_scientific hdigits _ layout

theorem unbroken_number (style : Style) (x : Double) : Unbroken (number style x) := by
  unfold number
  split
  case isTrue => simp [Unbroken]
  case isFalse =>
    cases x with
    | nan => simp [Unbroken]
    | infinity negative => cases negative <;> simp [Unbroken]
    | finite negative m => cases negative <;> simp [Unbroken, Double.render, unbroken_decimal]

/-! ## Documents -/

/-- A style whose separators hold no carriage return. -/
structure Style.Unbroken (style : Style) : Prop where
  item : Json.Unbroken style.itemSeparator
  name : Json.Unbroken style.nameSeparator

theorem unbroken_indented : Style.indented.Unbroken :=
  ⟨by simp [Unbroken, Style.indented], by simp [Unbroken, Style.indented]⟩

variable {style : Style}

theorem unbroken_bracketed (hs : style.Unbroken) {level : Nat} {opening closing : String}
    {parts : List String} (ho : Unbroken opening) (hc : Unbroken closing)
    (hp : ∀ s ∈ parts, Unbroken s) : Unbroken (bracketed style level opening closing parts) := by
  have hline : ∀ n, Unbroken ("\n" ++ String.ofList (List.replicate n ' ')) := by
    intro n
    refine unbroken_append (by simp [Unbroken]) ?_
    rw [Unbroken, String.toList_ofList]
    exact fun h => absurd (List.eq_of_mem_replicate h) (by decide)
  rw [bracketed]
  split
  case isTrue => exact unbroken_append ho hc
  case isFalse =>
    split
    case h_1 => exact unbroken_append (unbroken_append ho (unbroken_intercalate hs.item hp)) hc
    case h_2 =>
      refine unbroken_append (unbroken_append (unbroken_append ?_ ?_) (hline _)) hc
      · exact unbroken_append ho (hline _)
      · exact unbroken_intercalate (unbroken_append hs.item (hline _)) hp

mutual

theorem unbroken_renderAt (hs : style.Unbroken) (v : Value) (level : Nat) :
    Unbroken (renderAt style level v) := by
  cases v with
  | null => simp [Unbroken, renderAt]
  | bool b => cases b <;> simp [Unbroken, renderAt]
  | int n => exact unbroken_int n
  | float x => exact unbroken_number style x
  | list items =>
    rw [renderAt]
    exact unbroken_bracketed hs (by simp [Unbroken]) (by simp [Unbroken])
      (unbroken_renderItems hs items (level + 1))
  | object entries =>
    rw [renderAt]
    refine unbroken_bracketed hs (by simp [Unbroken]) (by simp [Unbroken]) fun s hpart => ?_
    obtain ⟨x, hx, rfl⟩ := List.mem_map.1 hpart
    have hcontent : Unbroken x.2 := by
      refine unbroken_renderEntries hs entries (level + 1) x ?_
      split at hx
      · exact (List.mergeSort_perm _ _).mem_iff.1 hx
      · exact hx
    exact unbroken_append (unbroken_append (unbroken_quote _ _) hs.name) hcontent
  | _ => exact unbroken_quote _ _

theorem unbroken_renderItems (hs : style.Unbroken) (items : List Value) (level : Nat) :
    ∀ s ∈ renderItems style level items, Unbroken s := by
  cases items with
  | nil => simp [renderItems]
  | cons v rest =>
    rw [renderItems, List.forall_mem_cons]
    exact ⟨unbroken_renderAt hs v level, unbroken_renderItems hs rest level⟩

theorem unbroken_renderEntries (hs : style.Unbroken) (entries : List (String × Value))
    (level : Nat) :
    ∀ x ∈ renderEntries style level entries, Unbroken x.2 := by
  match entries with
  | [] => simp [renderEntries]
  | (name, v) :: rest =>
    rw [renderEntries, List.forall_mem_cons]
    exact ⟨unbroken_renderAt hs v level, unbroken_renderEntries hs rest level⟩

end

end Json

end SchemaLedger
