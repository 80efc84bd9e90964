import Mathlib.Data.List.TakeWhile
import SchemaLedger.Proofs.Sql.Binding
import SchemaLedger.Sql.Type

set_option autoImplicit false

/-!
# What a column of SQLite keeps

A column of SQLite takes any cell, and the name of its type decides what becomes of it: in a column for
numbers, a text that is a number is kept as that number. The types of truth values, dates, timestamps
and documents all have such names, so what stands in their cells must not look like a number, or must
survive being one.
-/
namespace SchemaLedger.Sql

/-- How SQLite passes between texts and reals. Only the first fifteen digits are promised to survive. -/
structure Reals where
  ofText : String → Double
  toText : Double → String

def isInt64 (n : Int) : Bool := -0x8000000000000000 ≤ n ∧ n < 0x8000000000000000

inductive Numeral where
  | integer (n : Int)
  | real
  deriving DecidableEq

/-- A text that is a number and nothing else: digits make an integer, a point or an exponent a real. -/
def numeral? (s : String) : Option Numeral :=
  let (negative, cs) :=
    match s.toList with
    | '-' :: cs => (true, cs)
    | '+' :: cs => (false, cs)
    | cs => (false, cs)
  let (digits, rest) := Double.spanDigits cs
  if digits ≠ [] ∧ rest = [] then
    let n : Int := Double.digitsValue digits
    some (.integer (if negative then -n else n))
  else if (Double.readUnsigned? negative cs).isSome then some .real
  else none

inductive Affinity where
  | integer
  | text
  | blob
  | real
  | numeric
  deriving DecidableEq

namespace Affinity

/-- The affinity of a column whose type has a name. -/
def ofName (name : String) : Affinity :=
  let holds (part : String) : Bool := part.toList <:+: name.toList
  if holds "INT" then .integer
  else if holds "CHAR" || holds "CLOB" || holds "TEXT" then .text
  else if holds "BLOB" || name = "" then .blob
  else if holds "REAL" || holds "FLOA" || holds "DOUB" then .real
  else .numeric

def ofType (t : LogicalType) : Affinity := ofName (sqliteType t)

/-- A real that is an integer is kept as the integer. -/
def settle (x : Double) : Value :=
  match x.toInt? with
  | some n => if isInt64 n then .int n else .float x
  | none => .float x

/-- A text in a column for numbers; an integer beyond 64 bits becomes a real. -/
def number (r : Reals) (s : String) : Value :=
  match numeral? s with
  | some (.integer n) => if isInt64 n then .int n else settle (r.ofText s)
  | some .real => settle (r.ofText s)
  | none => .text s

def toReal (n : Int) : Value := .float ((Double.ofInt? n).getD .nan)

/-- What a column keeps of a cell. A column for reals forgets the sign of zero. -/
def keep (r : Reals) : Affinity → Value → Value
  | .integer, .text s | .numeric, .text s => number r s
  | .integer, .float x | .numeric, .float x => settle x
  | .real, .int n => toReal n
  | .real, .float x => .float (if x.isZero then .zero else x)
  | .real, .text s =>
    match number r s with
    | .int n => toReal n
    | v => v
  | .text, .int n => .text (toString n)
  | .text, .float x => .text (r.toText x)
  | _, v => v

theorem ofType_eq (t : LogicalType) : ofType t =
    match t with
    | .int | .bigint => .integer
    | .real => .real
    | .text | .uuid => .text
    | .blob => .blob
    | .bool | .date | .timestamp | .json => .numeric := by
  cases t <;> decide +kernel

end Affinity

/-! ## Texts that are no numbers -/

theorem numeral?_of_head {s : String} {c : Char} {cs : List Char} (hs : s.toList = c :: cs)
    (hc : c.isDigit = false) (hne : c ∉ ['-', '+', '.', 'e', 'E']) : numeral? s = none := by
  simp only [List.mem_cons, List.not_mem_nil, or_false, not_or] at hne
  obtain ⟨hminus, hplus, hpoint, -⟩ := hne
  simp [numeral?, hs, hminus, hplus, hpoint, Double.spanDigits, hc, Double.readUnsigned?]

/-- Digits before a hyphen, as in a date. -/
theorem numeral?_of_hyphen {s : String} {ds cs : List Char} (hs : s.toList = ds ++ '-' :: cs)
    (hd : ∀ c ∈ ds, c.isDigit = true) (hn : ds ≠ []) : numeral? s = none := by
  have hends : Json.NoDigit ('-' :: cs) := Json.noDigit_cons rfl
  have hspan := Json.spanDigits_append hd hends
  obtain ⟨d, rest, rfl⟩ := List.exists_cons_of_ne_nil hn
  have hdigit : d.isDigit = true := hd d List.mem_cons_self
  have hminus : d ≠ '-' := by rintro rfl; cases hdigit
  have hplus : d ≠ '+' := by rintro rfl; cases hdigit
  rw [List.cons_append] at hs hspan
  simp [numeral?, hs, hminus, hplus, hspan, Double.readUnsigned?, Double.readExponent?]

theorem digits_padded {width n : ℕ} (hw : 0 < width) (hn : n < 10 ^ width) :
    (∀ c ∈ (paddedNat width n).toList, c.isDigit = true) ∧ (paddedNat width n).toList ≠ [] := by
  refine ⟨isDigit_paddedNat width n, fun hnil => ?_⟩
  have hlength := length_paddedNat hw hn
  rw [hnil] at hlength
  exact hw.ne hlength

theorem numeral?_of_date {s : String} {d : Date} {cs : List Char}
    (hs : s.toList = d.iso.toList ++ cs) : numeral? s = none := by
  obtain ⟨-, hyear, -⟩ := d.valid
  obtain ⟨hdigits, hne⟩ : (∀ c ∈ (paddedNat 4 d.year).toList, c.isDigit = true) ∧
      (paddedNat 4 d.year).toList ≠ [] := digits_padded (by decide) (by omega)
  have hfront : s.toList = (paddedNat 4 d.year).toList ++
      '-' :: ((paddedNat 2 d.month ++ "-" ++ paddedNat 2 d.day).toList ++ cs) := by
    simp [hs, Date.iso]
  exact numeral?_of_hyphen hfront hdigits hne

/-! ## Documents -/

theorem readWhole?_eq_some {cs ds rest : List Char} (h : Json.readWhole? cs = some (ds, rest)) :
    cs = ds ++ rest ∧ (∀ c ∈ ds, c.isDigit = true) ∧ ds ≠ [] := by
  unfold Json.readWhole? at h
  split at h
  case h_1 =>
    cases h
    exact ⟨rfl, by simp, List.cons_ne_nil _ _⟩
  case h_2 =>
    dsimp only at h
    split at h
    case isTrue => cases h
    case isFalse hne =>
      cases h
      exact ⟨(List.takeWhile_append_dropWhile ..).symm, fun c hc => List.mem_takeWhile_imp hc, hne⟩

/-- Digits to the end of a text are all of it. -/
theorem eq_of_spanDigits {body ds : List Char} (h : Double.spanDigits body = (ds, [])) :
    ds = body ∧ body.all Char.isDigit = true := by
  obtain ⟨htake, hdrop⟩ := Prod.ext_iff.1 h
  have hbody := List.takeWhile_append_dropWhile (p := Char.isDigit) (l := body)
  rw [show body.dropWhile Char.isDigit = [] from hdrop, List.append_nil] at hbody
  exact ⟨htake.symm.trans hbody, List.all_eq_true.2 (List.takeWhile_eq_self_iff.1 hbody)⟩

/-- An exponent that ends the text of a document is one to all readers. -/
theorem exponent_of_readExponent {cs : List Char} {e : Option Int}
    (h : Json.readExponent cs = (e, [])) : (Double.readExponent? cs).isSome = true := by
  cases cs with
  | nil => rfl
  | cons mark rest =>
    by_cases hmark : mark = 'e' ∨ mark = 'E'
    · have hdigits : ∀ body : List Char, (Double.spanDigits body).1 ≠ [] →
          (Double.spanDigits body).2 = [] → body ≠ [] ∧ body.all Char.isDigit = true := by
        intro body hne hend
        obtain ⟨heq, hall⟩ := eq_of_spanDigits (Prod.ext rfl hend)
        exact ⟨heq ▸ hne, hall⟩
      simp only [Json.readExponent, if_pos hmark] at h
      unfold Double.readExponent?
      dsimp only
      rw [if_pos hmark]
      split at h <;> split at h <;> first | cases h | skip
      all_goals
        have hbody := hdigits _ ‹_› (congrArg Prod.snd h)
        simp_all
    · simp only [Json.readExponent, if_neg hmark] at h
      cases h

theorem rest_of_readExponent {cs left : List Char} (h : Json.readExponent cs = (none, left)) :
    left = cs := by
  cases cs with
  | nil => exact (congrArg (·.2) h).symm
  | cons mark rest =>
    simp only [Json.readExponent] at h
    split at h
    · -- Digits behind a mark are an exponent, so there were none.
      split at h <;> split at h <;> simp_all
    · exact (congrArg (·.2) h).symm

/-- What a document reads as a number is one to SQLite too, an integer or a real alike. -/
theorem numeral_of_readUnsigned? {negative : Bool} {cs : List Char} {v : Value}
    (h : Json.readUnsigned? negative cs = some (v, [])) :
    (∃ ds, Double.spanDigits cs = (ds, []) ∧ ds ≠ [] ∧
      v = .int (if negative then -(Double.digitsValue ds : Int) else Double.digitsValue ds)) ∨
    ∃ ds rest x, Double.spanDigits cs = (ds, rest) ∧ rest ≠ [] ∧ v = .float x ∧
      (Double.readUnsigned? negative cs).isSome = true := by
  obtain ⟨⟨ds, rest⟩, hwhole, hread⟩ := Option.map_eq_some_iff.1 h
  obtain ⟨rfl, hdigits, hne⟩ := readWhole?_eq_some hwhole
  dsimp only at hread
  have hends : Json.NoDigit rest := by
    -- A further digit would be left over.
    intro c hc
    by_contra hdigit
    obtain ⟨after, rfl⟩ := List.head?_eq_some_iff.1 hc
    have hpoint : c ≠ '.' := by rintro rfl; exact hdigit rfl
    have hmark : c ≠ 'e' ∧ c ≠ 'E' := by constructor <;> rintro rfl <;> exact hdigit rfl
    rw [Json.readFraction_of_ne (by simpa using hpoint),
      Json.readExponent_of_ne (by simpa using hmark)] at hread
    cases hread
  have hspan := Json.spanDigits_append hdigits hends
  cases rest with
  | nil =>
    cases hread
    exact Or.inl ⟨ds, hspan, hne, rfl⟩
  | cons c after =>
    refine Or.inr ⟨ds, c :: after, ?_⟩
    by_cases hpoint : c = '.'
    · subst hpoint
      rw [Json.readFraction] at hread
      by_cases hnone : (Double.spanDigits after).1 = []
      · simp [hnone, Json.readExponent] at hread
      · simp only [if_neg hnone, Option.isNone_some, Bool.false_eq_true, false_and, if_false] at hread
        have hexponent := exponent_of_readExponent (Prod.ext rfl (congrArg (·.2) (Option.some.inj
          (congrArg some hread))))
        refine ⟨_, hspan, List.cons_ne_nil _ _, (congrArg (·.1) hread).symm, ?_⟩
        rw [Double.readUnsigned?, hspan]
        obtain ⟨e, he⟩ := Option.isSome_iff_exists.1 hexponent
        simp [hne, he]
    · rw [Json.readFraction_of_ne (by simpa using hpoint)] at hread
      obtain ⟨exponent, left, hexp⟩ : ∃ e left, Json.readExponent (c :: after) = (e, left) := ⟨_, _, rfl⟩
      simp only [hexp, Option.isNone_none, true_and] at hread
      cases exponent with
      | none =>
        -- Without an exponent nothing of the rest is read.
        exact absurd (congrArg (·.2) hread) (rest_of_readExponent hexp ▸ List.cons_ne_nil _ _)
      | some e =>
        cases hread
        obtain ⟨e', he'⟩ := Option.isSome_iff_exists.1 (exponent_of_readExponent hexp)
        refine ⟨_, hspan, List.cons_ne_nil _ _, rfl, ?_⟩
        rw [Double.readUnsigned?, hspan]
        simp [hne, hpoint, he']

/-- A number behind its sign, if it has one. -/
theorem numeral?_signed {s : String} {negative : Bool} {c : Char} {rest : List Char}
    (hs : s.toList = (if negative then ['-'] else []) ++ c :: rest) (hc : c.isDigit = true) :
    numeral? s =
      if (Double.spanDigits (c :: rest)).1 ≠ [] ∧ (Double.spanDigits (c :: rest)).2 = [] then
        some (.integer (if negative then -(Double.digitsValue (Double.spanDigits (c :: rest)).1 : Int)
          else Double.digitsValue (Double.spanDigits (c :: rest)).1))
      else if (Double.readUnsigned? negative (c :: rest)).isSome then some .real else none := by
  have hminus : c ≠ '-' := by rintro rfl; cases hc
  have hplus : c ≠ '+' := by rintro rfl; cases hc
  cases negative <;> simp [numeral?, hs, hminus, hplus]

theorem numeral?_of_readNumber? {s : String} {v : Value}
    (h : Json.readNumber? s.toList = some (v, [])) :
    (∃ n, v = .int n ∧ numeral? s = some (.integer n)) ∨
      ∃ x, v = .float x ∧ numeral? s = some .real := by
  obtain ⟨negative, c, rest, hread, hs, hc⟩ : ∃ negative c rest,
      Json.readUnsigned? negative (c :: rest) = some (v, []) ∧
      s.toList = (if negative then ['-'] else []) ++ c :: rest ∧ c.isDigit = true := by
    obtain ⟨c, rest, hc, hfront | hfront⟩ := Json.front_of_readNumber? h
    · rw [hfront, Json.readNumber?_of_digit hc] at h
      exact ⟨false, c, rest, h, hfront, hc⟩
    · rw [hfront] at h
      exact ⟨true, c, rest, h, hfront, hc⟩
  have hnumeral := numeral?_signed hs hc
  rcases numeral_of_readUnsigned? hread with ⟨ds, hspan, hne, rfl⟩ | ⟨ds, left, x, hspan, hne, rfl, hsome⟩
  · exact Or.inl ⟨_, rfl, by simp [hnumeral, hspan, hne]⟩
  · exact Or.inr ⟨x, rfl, by simp [hnumeral, hspan, hne, hsome]⟩

/-- The text of a document that is no number starts with a letter, a quote or a bracket. -/
theorem numeral?_render {v : Value} (hd : Json.isDocument v = true) (hi : ∀ n, v ≠ .int n)
    (hf : ∀ x, v ≠ .float x) : numeral? (Json.render .spaced v) = none := by
  have hbracketed : ∀ (opening closing : String) (c : Char) (parts : List String),
      opening.toList = [c] → c.isDigit = false → c ∉ ['-', '+', '.', 'e', 'E'] →
      numeral? (Json.bracketed .spaced 0 opening closing parts) = none := by
    intro opening closing c parts hopening hc hne
    obtain ⟨cs, hcs⟩ : ∃ cs, (Json.bracketed .spaced 0 opening closing parts).toList = c :: cs := by
      rw [Json.bracketed]
      split <;> simp [Json.Style.spaced, hopening]
    exact numeral?_of_head hcs hc hne
  cases v with
  | int n => exact absurd rfl (hi n)
  | float x => exact absurd rfl (hf x)
  | null => decide
  | bool b => cases b <;> decide
  | text s => exact numeral?_of_head String.toList_ofList (by decide) (by decide)
  | list items => exact hbracketed _ _ '[' _ rfl (by decide) (by decide)
  | object entries => exact hbracketed _ _ '\x7b' _ rfl (by decide) (by decide)
  | _ => cases hd

namespace Affinity

theorem same_settle (x : Double) {v : Value} (hv : v.isSingle = true) :
    (settle x).same v = (Value.float x).same v := by
  have hlevel : (settle x).isSingle = true ∧ (settle x).leveled = (Value.float x).leveled ∧
      (settle x).isNan = (Value.float x).isNan := by
    cases hx : x.toInt? with
    | none => simp [settle, hx, Value.isSingle]
    | some n =>
      by_cases hn : isInt64 n = true
      · simp [settle, hx, hn, Value.isSingle, Value.leveled, Value.isNan_of_toInt? hx]
        rfl
      · simp [settle, hx, hn, Value.isSingle]
  obtain ⟨hsingle, hleveled, hnan⟩ := hlevel
  rw [Bool.eq_iff_iff, Value.same_single hsingle hv, Value.same_single rfl hv, hleveled, hnan]

theorem read_settle (x : Double) : Binding.read .sqlite .json (settle x) = .ok (settle x) := by
  unfold settle
  split
  · split <;> rfl
  · rfl

end Affinity

end SchemaLedger.Sql
