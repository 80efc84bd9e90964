import SchemaLedger.Json.Printer
import SchemaLedger.Json.Reader
import SchemaLedger.Proofs.Outcome
import SchemaLedger.Proofs.Text.Hex

set_option autoImplicit false

/-!
# Texts read back

A quoted text is read as the text, whichever characters the printer escapes.
-/
namespace SchemaLedger.Json

theorem hexFour?_hex {n : Nat} (hn : n < 0x10000) :
    ∃ a b c d, Text.hex 4 n = [a, b, c, d] ∧ hexFour? a b c d = some n := by
  have hlen := Text.length_hex (w := 4) (by decide) hn
  have hval := Text.hexFrom?_hex 4 n
  match h : Text.hex 4 n, hlen with
  | [a, b, c, d], _ =>
    rw [h] at hval
    exact ⟨a, b, c, d, rfl, hval⟩

theorem charOf_toNat (c : Char) : charOf c.toNat = c := by
  have hvalid := c.valid
  rw [charOf, if_neg, Char.ofNat_toNat]
  rw [Bool.or_eq_true, isHighSurrogate, isLowSurrogate]
  simp only [Bool.and_eq_true, decide_eq_true_eq]
  have : c.toNat < 0xD800 ∨ 0xDFFF < c.toNat ∧ c.toNat < 0x110000 := hvalid
  omega

variable {start : Nat} {rest : List Char}

/-- A unit that is no half of a pair stands for its character. -/
theorem readString_unit (c : Char) (hc : c.toNat < 0x10000) (hr : rest ≠ []) :
    readString start (escapeUnit c.toNat ++ rest) =
      (readString start rest).map fun r => (c :: r.1, r.2) := by
  obtain ⟨x₁, x₂, x₃, x₄, hx, hn⟩ := hexFour?_hex hc
  have hhigh : isHighSurrogate c.toNat = false := by
    have hvalid : c.toNat < 0xD800 ∨ 0xDFFF < c.toNat ∧ c.toNat < 0x110000 := c.valid
    simp only [isHighSurrogate, Bool.and_eq_false_iff, decide_eq_false_iff_not]
    omega
  rw [escapeUnit, hx]
  by_cases hu : ∃ y₁ y₂ y₃ y₄ after, rest = '\\' :: 'u' :: y₁ :: y₂ :: y₃ :: y₄ :: after
  · obtain ⟨y₁, y₂, y₃, y₄, after, rfl⟩ := hu
    simp only [List.cons_append, List.nil_append]
    rw [readString.eq_6 start _ _ _ _ _ _ _ _ _ _ hn, hhigh, if_neg (by simp), charOf_toNat]
  · simp only [List.cons_append, List.nil_append]
    rw [readString.eq_7 start _ _ _ _ _ _ hn hr, charOf_toNat]
    exact fun y₁ y₂ y₃ y₄ after h => hu ⟨y₁, y₂, y₃, y₄, after, h⟩

theorem readString_pair (c : Char) (hc : 0x10000 ≤ c.toNat) (hr : rest ≠ []) :
    readString start (escapeUnit (0xD800 + (c.toNat - 0x10000) / 0x400) ++
      escapeUnit (0xDC00 + (c.toNat - 0x10000) % 0x400) ++ rest) =
      (readString start rest).map fun r => (c :: r.1, r.2) := by
  have hvalid : c.toNat < 0xD800 ∨ 0xDFFF < c.toNat ∧ c.toNat < 0x110000 := c.valid
  generalize hh : 0xD800 + (c.toNat - 0x10000) / 0x400 = high
  generalize hl : 0xDC00 + (c.toNat - 0x10000) % 0x400 = low
  obtain ⟨x₁, x₂, x₃, x₄, hx, hhn⟩ := hexFour?_hex (n := high) (by omega)
  obtain ⟨y₁, y₂, y₃, y₄, hy, hln⟩ := hexFour?_hex (n := low) (by omega)
  have hhigh : isHighSurrogate high = true := by
    simp only [isHighSurrogate, Bool.and_eq_true, decide_eq_true_eq]
    omega
  have hlow : isLowSurrogate low = true := by
    simp only [isLowSurrogate, Bool.and_eq_true, decide_eq_true_eq]
    omega
  have hjoin : joinSurrogates high low = c := by
    rw [joinSurrogates, show 0x10000 + (high - 0xD800) * 0x400 + (low - 0xDC00) = c.toNat by omega,
      Char.ofNat_toNat]
  rw [escapeUnit, escapeUnit, hx, hy]
  simp only [List.cons_append, List.nil_append]
  rw [readString.eq_6 start _ _ _ _ _ _ _ _ _ _ hhn, if_pos ⟨hhigh, hr⟩, hln]
  simp only [hlow, if_true, hjoin]

theorem readString_codePoint (c : Char) (hr : rest ≠ []) :
    readString start (escapeCodePoint c.toNat ++ rest) =
      (readString start rest).map fun r => (c :: r.1, r.2) := by
  rw [escapeCodePoint]
  by_cases hc : c.toNat < 0x10000
  · rw [if_pos hc]
    exact readString_unit c hc hr
  · rw [if_neg hc]
    exact readString_pair c (by omega) hr

theorem readString_escaped {e c : Char} (he : unescape? e = some c) :
    readString start ('\\' :: e :: rest) =
      (readString start rest).map fun r => (c :: r.1, r.2) := by
  have hu : e ≠ 'u' := by
    rintro rfl
    cases he
  rw [readString.eq_8, if_neg hu, he]
  exact fun _ _ _ _ _ h _ => hu h

theorem readString_plain {c : Char} (hq : c ≠ '"') (hb : c ≠ '\\') (hc : ¬c.toNat < 0x20) :
    readString start (c :: rest) = (readString start rest).map fun r => (c :: r.1, r.2) := by
  rw [readString.eq_9, if_neg hc]
  · exact hq
  · exact fun h _ => hb h
  · exact fun _ _ _ _ _ h _ => hb h
  · exact fun _ _ h _ => hb h

theorem readString_escapeChar (asciiOnly : Bool) (c : Char) (hr : rest ≠ []) :
    readString start (escapeChar asciiOnly c ++ rest) =
      (readString start rest).map fun r => (c :: r.1, r.2) := by
  unfold escapeChar
  split
  case h_8 hq hb _ _ _ _ _ =>
    split
    case isTrue => exact readString_codePoint c hr
    case isFalse hc => exact readString_plain hq hb fun h => hc (Or.inl h)
  all_goals exact readString_escaped rfl

theorem readString_escaped_text (asciiOnly : Bool) (cs rest : List Char) :
    readString start (cs.flatMap (escapeChar asciiOnly) ++ '"' :: rest) = .ok (cs, rest) := by
  induction cs with
  | nil => exact readString.eq_2 start rest
  | cons c cs ih =>
    rw [List.flatMap_cons, List.append_assoc, readString_escapeChar asciiOnly c (by simp), ih]
    rfl

theorem toList_quote (asciiOnly : Bool) (s : String) :
    (quote asciiOnly s).toList = '"' :: (s.toList.flatMap (escapeChar asciiOnly) ++ ['"']) :=
  String.toList_ofList

end SchemaLedger.Json
