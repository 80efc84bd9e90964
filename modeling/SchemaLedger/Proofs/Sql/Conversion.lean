import SchemaLedger.Proofs.Sql.Binding
import SchemaLedger.Proofs.Sql.Expression

set_option autoImplicit false

/-!
# Conversions to integers

What becomes of a stored value that SQLite is asked to turn into an integer. The guards let through
exactly the values that denote an integer, and those of a type of 32 bits are tested for its range. No
test is made for 64 bits: there the cast stops at the nearest bound.
-/
namespace SchemaLedger

/-- What stands in a column that is turned into integers. -/
def LogicalType.stands : LogicalType → Value → Bool
  | _, .null => true
  | .text, .text _ => true
  | .real, .float x => x ≠ .nan
  | .bigint, .int n => LogicalType.bigint.admits (.int n)
  | _, _ => false

namespace Sql

/-! ## Integers -/

/-- The sign of a written integer. A positive one may have none. -/
def IsSign (negative : Bool) (sign : List Char) : Prop :=
  if negative then sign = ['-'] else sign = [] ∨ sign = ['+']

/-- The integer that a stored value stands for. A real stands for the nearest one, a half going away
from zero; a text for the one that is written there between blanks. -/
inductive Denotes : Value → Int → Prop
  | whole (n : Int) : Denotes (.int n) n
  | rounded (negative : Bool) (m : Magnitude) : Denotes (.float (.finite negative m))
      (if negative then -(⌊m.value + 1 / 2⌋₊ : Int) else ⌊m.value + 1 / 2⌋₊)
  | written {s : String} (before after : ℕ) (negative : Bool) {sign digits : List Char}
      (hsign : IsSign negative sign) (hdigits : ∀ c ∈ digits, c.isDigit = true) (hne : digits ≠ [])
      (hs : s.toList = List.replicate before ' ' ++ (sign ++ digits) ++ List.replicate after ' ') :
      Denotes (.text s)
        (if negative then -(Double.digitsValue digits : Int) else Double.digitsValue digits)

/-! ## Texts -/

theorem dropWhile_blanks {core : List Char} (n : ℕ) (after : List Char) (hne : core ≠ [])
    (hhead : core.head? ≠ some ' ') :
    (List.replicate n ' ' ++ (core ++ after)).dropWhile (· = ' ') = core ++ after := by
  obtain ⟨c, rest, rfl⟩ := List.exists_cons_of_ne_nil hne
  have hc : c ≠ ' ' := fun heq => hhead (congrArg some heq)
  rw [List.dropWhile_append_of_pos fun x hx => decide_eq_true (List.eq_of_mem_replicate hx),
    List.cons_append, List.dropWhile_cons_of_neg (by simpa using hc)]

theorem toList_trim {s : String} {core : List Char} {before after : ℕ} (hne : core ≠ [])
    (hhead : core.head? ≠ some ' ') (hlast : core.getLast? ≠ some ' ')
    (hs : s.toList = List.replicate before ' ' ++ core ++ List.replicate after ' ') :
    (trim s).toList = core := by
  have hback := dropWhile_blanks after [] (List.reverse_ne_nil_iff.2 hne)
    (by rwa [List.head?_reverse])
  rw [List.append_nil] at hback
  rw [trim, String.toList_ofList, hs, List.append_assoc, dropWhile_blanks before _ hne hhead,
    List.rdropWhile, List.reverse_append, List.reverse_replicate, hback, List.reverse_reverse]

theorem exists_blanks (s : String) : ∃ before after : ℕ,
    s.toList = List.replicate before ' ' ++ (trim s).toList ++ List.replicate after ' ' := by
  have hblank : ∀ cs : List Char, ∃ n, cs = List.replicate n ' ' ++ cs.dropWhile (· = ' ') := by
    intro cs
    refine ⟨(cs.takeWhile (· = ' ')).length, ?_⟩
    have htake : cs.takeWhile (· = ' ') = List.replicate (cs.takeWhile (· = ' ')).length ' ' :=
      List.eq_replicate_iff.2 ⟨rfl, fun c hc => by simpa using List.mem_takeWhile_imp hc⟩
    rw [← htake, List.takeWhile_append_dropWhile]
  obtain ⟨before, hbefore⟩ := hblank s.toList
  obtain ⟨after, hafter⟩ := hblank (s.toList.dropWhile (· = ' ')).reverse
  refine ⟨before, after, ?_⟩
  have hcore := congrArg List.reverse hafter
  rw [List.reverse_reverse, List.reverse_append, List.reverse_replicate] at hcore
  rw [trim, String.toList_ofList, List.rdropWhile, List.append_assoc, ← hcore]
  exact hbefore

/-- A text behind its sign. -/
def unsignedPart : List Char → List Char
  | '+' :: cs => cs
  | '-' :: cs => cs
  | cs => cs

/-- Whether the characters are digits, at least one. -/
def areDigits (cs : List Char) : Bool := !cs.isEmpty && cs.all Char.isDigit

theorem spanDigits_self {digits : List Char} (h : ∀ c ∈ digits, c.isDigit = true) :
    Double.spanDigits digits = (digits, []) := by
  have hspan := Json.spanDigits_append h (show Json.NoDigit [] from nofun)
  rwa [List.append_nil] at hspan

theorem exists_sign (cs : List Char) :
    ∃ negative sign, IsSign negative sign ∧ cs = sign ++ unsignedPart cs := by
  unfold unsignedPart
  split
  · exact ⟨false, ['+'], Or.inr rfl, rfl⟩
  · exact ⟨true, ['-'], rfl, rfl⟩
  · exact ⟨false, [], Or.inl rfl, rfl⟩

section Written

variable {negative : Bool} {sign digits : List Char} {s : String}

theorem head_of_sign (hsign : IsSign negative sign) (hdigits : ∀ c ∈ digits, c.isDigit = true)
    (hne : digits ≠ []) : (sign ++ digits).head? ≠ some ' ' := by
  obtain ⟨d, rest, rfl⟩ := List.exists_cons_of_ne_nil hne
  have hd : d ≠ ' ' := by rintro rfl; cases hdigits _ List.mem_cons_self
  cases negative with
  | true =>
    obtain rfl : sign = ['-'] := hsign
    simp
  | false =>
    obtain rfl | rfl : sign = [] ∨ sign = ['+'] := hsign
    · simpa using hd
    · simp

theorem unsignedPart_sign (hsign : IsSign negative sign) (hdigits : ∀ c ∈ digits, c.isDigit = true)
    (hne : digits ≠ []) : unsignedPart (sign ++ digits) = digits := by
  obtain ⟨d, rest, rfl⟩ := List.exists_cons_of_ne_nil hne
  have hd : d.isDigit = true := hdigits _ List.mem_cons_self
  cases negative with
  | true =>
    obtain rfl : sign = ['-'] := hsign
    rfl
  | false =>
    obtain rfl | rfl : sign = [] ∨ sign = ['+'] := hsign
    · have hplus : d ≠ '+' := by rintro rfl; cases hd
      have hminus : d ≠ '-' := by rintro rfl; cases hd
      simp [unsignedPart, hplus, hminus]
    · rfl

theorem prefixInteger_sign (hsign : IsSign negative sign)
    (hdigits : ∀ c ∈ digits, c.isDigit = true) (hne : digits ≠ []) (hs : s.toList = sign ++ digits) :
    prefixInteger s =
      if negative then -(Double.digitsValue digits : Int) else Double.digitsValue digits := by
  have hdrop := dropWhile_blanks 0 []
    (show sign ++ digits ≠ [] from fun h => hne (List.append_eq_nil_iff.1 h).2)
    (head_of_sign hsign hdigits hne)
  rw [List.append_nil, List.replicate_zero, List.nil_append] at hdrop
  obtain ⟨d, rest, rfl⟩ := List.exists_cons_of_ne_nil hne
  have hd : d.isDigit = true := hdigits _ List.mem_cons_self
  rw [prefixInteger, hs, hdrop]
  cases negative with
  | true =>
    obtain rfl : sign = ['-'] := hsign
    simp [spanDigits_self hdigits]
  | false =>
    obtain rfl | rfl : sign = [] ∨ sign = ['+'] := hsign
    · have hplus : d ≠ '+' := by rintro rfl; cases hd
      have hminus : d ≠ '-' := by rintro rfl; cases hd
      simp [hplus, hminus, spanDigits_self hdigits]
    · simp [spanDigits_self hdigits]

end Written

theorem denotes_text_iff (s : String) (n : Int) : Denotes (.text s) n ↔
    areDigits (unsignedPart (trim s).toList) = true ∧ n = prefixInteger (trim s) := by
  constructor
  · intro h
    cases h with
    | @written _ before after negative sign digits hsign hdigits hne hs =>
      have hlast : (sign ++ digits).getLast? ≠ some ' ' := by
        rw [List.getLast?_append_of_ne_nil _ hne]
        intro hlast
        cases hdigits _ (List.mem_of_getLast? hlast)
      have htrim := toList_trim (fun h => hne (List.append_eq_nil_iff.1 h).2)
        (head_of_sign hsign hdigits hne) hlast hs
      refine ⟨?_, (prefixInteger_sign hsign hdigits hne htrim).symm⟩
      rw [htrim, unsignedPart_sign hsign hdigits hne, areDigits, List.all_eq_true.2 hdigits]
      simpa using hne
  · rintro ⟨hdigits, rfl⟩
    obtain ⟨before, after, hs⟩ := exists_blanks s
    obtain ⟨negative, sign, hsign, hcore⟩ := exists_sign (trim s).toList
    rw [areDigits, Bool.and_eq_true, List.all_eq_true] at hdigits
    have hne : unsignedPart (trim s).toList ≠ [] := by simpa using hdigits.1
    rw [prefixInteger_sign hsign hdigits.2 hne hcore]
    exact .written before after negative hsign hdigits.2 hne (by rw [← hcore]; exact hs)

namespace Builtins

open Conversion

variable {b : Builtins} {row : String → Value} {name : String}

theorem eval_trimmed {s : String} (hrow : row name = .text s) :
    b.eval row (trimmed (.column name)) = some (.text (trim s)) := by
  rw [trimmed, eval, evalAll, evalAll, eval, hrow]
  rfl

theorem eval_unsigned {s : String} (hrow : row name = .text s) :
    b.eval row (unsigned (.column name)) =
      some (.text (.ofList (unsignedPart (trim s).toList))) := by
  have htrim := eval_trimmed (b := b) hrow
  have hsigned : b.eval row (.oneOf (.call "substr" [trimmed (.column name), .integer 1, .integer 1])
      [.text "+", .text "-"]) = some (truth (substr (trim s) 1 (some 1) ∈ ["+", "-"])) := by
    simp only [eval, evalAll, htrim]
    rfl
  have hrest : b.eval row (.call "substr" [trimmed (.column name), .integer 2]) =
      some (.text (substr (trim s) 2 none)) := by
    simp only [eval, evalAll, htrim]
    rfl
  rw [unsigned, eval, eval_cases_else, evalBranches_cons hsigned, hrest, htrim, evalBranches]
  obtain ⟨cs, hcs⟩ : ∃ cs, trim s = String.ofList cs := ⟨_, String.ofList_toList.symm⟩
  rw [hcs, String.toList_ofList, substr, substr, String.toList_ofList]
  have hone : ∀ c d : Char, String.ofList [c] = String.ofList [d] ↔ c = d := by
    intro c d
    rw [String.ofList_inj, List.cons.injEq, and_iff_left rfl]
  cases cs with
  | nil => rfl
  | cons c cs =>
    by_cases hplus : c = '+'
    · subst hplus
      rfl
    · by_cases hminus : c = '-'
      · subst hminus
        rfl
      · have hno : ¬String.ofList [c] ∈ ["+", "-"] := by
          rw [List.mem_pair]
          exact not_or_intro (fun h => hplus ((hone c '+').1 h)) fun h => hminus ((hone c '-').1 h)
        have hself : unsignedPart (c :: cs) = c :: cs := by simp [unsignedPart, hplus, hminus]
        have hfirst : decide (String.ofList [c] ∈ ["+", "-"]) = false := decide_eq_false hno
        rw [hself]
        change (if decide (String.ofList [c] ∈ ["+", "-"]) then _ else _ : Option _).bind _ = _
        rw [hfirst]
        rfl

theorem eval_isIntegerText {s : String} (hrow : row name = .text s) :
    b.eval row (isIntegerText (.column name)) =
      some (truth (areDigits (unsignedPart (trim s).toList))) := by
  have hunsigned := eval_unsigned (b := b) hrow
  have hempty : b.eval row (.binary "<>" (unsigned (.column name)) (.text "")) =
      some (truth (String.ofList (unsignedPart (trim s).toList) ≠ "")) := by
    rw [eval, hunsigned]
    rfl
  have hglob : b.eval row (.binary "NOT GLOB" (unsigned (.column name)) (.text "*[^0-9]*")) =
      some (truth ((unsignedPart (trim s).toList).all Char.isDigit)) := by
    rw [eval, hunsigned, ← Bool.not_not (List.all _ _), ← Glob.accepts_noDigit]
    exact congrArg (fun cs => some (truth !(Glob.accepts (Glob.parts "*[^0-9]*".toList) cs)))
      String.toList_ofList
  rw [isIntegerText, eval, hempty, hglob, areDigits]
  have hne : decide (String.ofList (unsignedPart (trim s).toList) ≠ "") =
      !(unsignedPart (trim s).toList).isEmpty := by
    cases unsignedPart (trim s).toList with
    | nil => rfl
    | cons c cs => simp
  rw [hne]
  cases (unsignedPart (trim s).toList).isEmpty <;>
    cases (unsignedPart (trim s).toList).all Char.isDigit <;> rfl

/-- Whether the test for digits lets a value through. -/
def isReadable : Value → Bool
  | .text s => areDigits (unsignedPart (trim s).toList)
  | _ => true

/-- What the cast makes of a value. -/
def castOf : Value → Int
  | .int n => n
  | .float x => clamp (truncate (roundReal x))
  | .text s => clamp (prefixInteger (trim s))
  | _ => 0

def fitsInt32 (n : Int) : Bool := leastInt32 ≤ n ∧ n ≤ greatestInt32

/-- The types that are turned into integers, and into which. -/
def toIntegers : List (LogicalType × LogicalType) :=
  [(.text, .int), (.text, .bigint), (.real, .int), (.real, .bigint), (.bigint, .int)]

variable {old new : LogicalType}

/-- A value that is not null, by the type of its column. -/
theorem cases_of_stands {v : Value} (hpair : (old, new) ∈ toIntegers) (hv : old.stands v = true)
    (hne : v ≠ .null) : (old = .text ∧ (new = .int ∨ new = .bigint) ∧ ∃ s, v = .text s) ∨
      (old = .real ∧ (new = .int ∨ new = .bigint) ∧ ∃ x, v = .float x ∧ x ≠ .nan) ∨
      (old = .bigint ∧ new = .int ∧ ∃ n, v = .int n) := by
  simp only [toIntegers, List.mem_cons, Prod.mk.injEq, List.not_mem_nil, or_false] at hpair
  have htypes : (old = .text ∧ (new = .int ∨ new = .bigint)) ∨
      (old = .real ∧ (new = .int ∨ new = .bigint)) ∨ (old = .bigint ∧ new = .int) := by tauto
  rcases htypes with ⟨rfl, hnew⟩ | ⟨rfl, hnew⟩ | ⟨rfl, hnew⟩ <;> cases v with
  | null => exact absurd rfl hne
  | text s => first | exact Or.inl ⟨rfl, hnew, s, rfl⟩ | cases hv
  | float x => first | exact Or.inr (Or.inl ⟨rfl, hnew, x, rfl, of_decide_eq_true hv⟩) | cases hv
  | int n => first | exact Or.inr (Or.inr ⟨rfl, hnew, n, rfl⟩) | cases hv
  | _ => cases hv

theorem eval_integerOf (hpair : (old, new) ∈ toIntegers) (hv : old.stands (row name) = true)
    (hne : row name ≠ .null) :
    b.eval row (integerOf old (.column name)) = some (.int (castOf (row name))) := by
  rcases cases_of_stands hpair hv hne with ⟨rfl, -, s, hrow⟩ | ⟨rfl, -, x, hrow, -⟩ | ⟨rfl, -, n, hrow⟩
  · rw [integerOf, eval, eval_trimmed hrow, hrow]
    rfl
  · rw [integerOf, eval, eval, evalAll, evalAll, eval, hrow]
    rfl
  · change b.eval row (.cast (.column name) "INTEGER") = _
    rw [eval, eval, hrow]
    rfl

theorem eval_inInt32 {e : Expr} {n : Int} (h : b.eval row e = some (.int n)) :
    b.eval row (inInt32 e) = some (truth (fitsInt32 n)) := by
  rw [inInt32, eval, h, eval, eval]
  rfl

theorem both_truth (p q : Bool) : both? (truth p) (truth q) = some (truth (p && q)) := by
  cases p <;> cases q <;> rfl

/-- What the conversion yields for a value that is not null. -/
theorem eval_expression (hpair : (old, new) ∈ toIntegers) (hv : old.stands (row name) = true)
    (hne : row name ≠ .null) : b.eval row (expression .sqlite name old new) =
      if isReadable (row name) && (new ≠ .int || fitsInt32 (castOf (row name))) then
        some (.int (castOf (row name)))
      else none := by
  have hcolumn : b.eval row (.column name) = some (row name) := rfl
  have hcast := eval_integerOf (b := b) hpair hv hne
  have hrange := eval_inInt32 hcast
  have hnull : (row name).isNull = false := by
    cases hrow : row name <;> first | rfl | exact absurd hrow hne
  rcases cases_of_stands hpair hv hne with
    ⟨rfl, rfl | rfl, s, hrow⟩ | ⟨rfl, rfl | rfl, x, hrow, -⟩ | ⟨rfl, rfl, n, hrow⟩
  · have hdigits := eval_isIntegerText (b := b) hrow
    have hvalid : b.eval row (.binary "AND" (isIntegerText (.column name))
        (inInt32 (integerOf .text (.column name)))) =
        some (truth (isReadable (row name) && fitsInt32 (castOf (row name)))) := by
      rw [eval, hdigits, hrange, hrow]
      exact both_truth _ _
    change b.eval row (guarded _ _ _) = _
    rw [eval_guarded hcolumn fun _ => hvalid, hnull, hcast]
    simp
  · have hdigits := eval_isIntegerText (b := b) hrow
    change b.eval row (guarded _ _ _) = _
    rw [eval_guarded hcolumn fun _ => hdigits, hnull, hcast, hrow]
    simp [isReadable]
  · change b.eval row (guarded _ _ _) = _
    rw [eval_guarded hcolumn fun _ => hrange, hnull, hcast, hrow]
    simp [isReadable]
  · change b.eval row (integerOf .real (.column name)) = _
    rw [hcast, hrow]
    simp [isReadable]
  · change b.eval row (guarded _ _ _) = _
    rw [eval_guarded hcolumn fun _ => hrange, hnull, hcast, hrow]
    simp [isReadable]

theorem eval_null (hpair : (old, new) ∈ toIntegers) (hrow : row name = .null) :
    b.eval row (expression .sqlite name old new) = some .null := by
  have hcolumn : b.eval row (.column name) = some .null := by rw [eval, hrow]
  simp only [toIntegers, List.mem_cons, Prod.mk.injEq, List.not_mem_nil, or_false] at hpair
  rcases hpair with ⟨rfl, rfl⟩ | ⟨rfl, rfl⟩ | ⟨rfl, rfl⟩ | ⟨rfl, rfl⟩ | ⟨rfl, rfl⟩
  case inr.inr.inr.inl =>
    change b.eval row (.cast (.call "round" [.column name]) "INTEGER") = _
    rw [eval, eval, evalAll, evalAll, hcolumn]
    rfl
  all_goals
    change b.eval row (guarded _ _ _) = _
    exact eval_guarded_null hcolumn

end Builtins

/-! ## Exact conversions -/

section Exact

open Builtins

variable {old new : LogicalType} {v : Value} {n m : Int}

theorem clamp_of_admits (h : LogicalType.bigint.admits (.int n) = true) : clamp n = n := by
  simp only [LogicalType.admits, decide_eq_true_eq] at h
  simp only [clamp]
  omega

theorem admits_bigint (h : LogicalType.int.admits (.int n) = true) :
    LogicalType.bigint.admits (.int n) = true := by
  simp only [LogicalType.admits, decide_eq_true_eq] at h ⊢
  omega

/-- The bounds of 64 bits are outside 32 bits, so stopping there hides nothing from the test. -/
theorem fitsInt32_clamp : fitsInt32 (clamp n) = LogicalType.int.admits (.int n) := by
  rw [Bool.eq_iff_iff, fitsInt32, LogicalType.admits, decide_eq_true_iff, decide_eq_true_iff]
  simp only [clamp, Conversion.leastInt32, Conversion.greatestInt32]
  omega

theorem clamp_of_not_admits (h : LogicalType.bigint.admits (.int n) = false) :
    clamp n = -0x8000000000000000 ∨ clamp n = 0x7fffffffffffffff := by
  simp only [LogicalType.admits, decide_eq_false_iff_not] at h
  simp only [clamp]
  omega

theorem Denotes.unique (hn : Denotes v n) (hm : Denotes v m) : n = m := by
  cases v with
  | text s => exact ((denotes_text_iff s n).1 hn).2.trans ((denotes_text_iff s m).1 hm).2.symm
  | _ =>
    cases hn
    try cases hm
    try rfl

theorem castOf_of_denotes (hv : old.stands v = true) (hn : Denotes v n) :
    isReadable v = true ∧ castOf v = clamp n := by
  cases hn with
  | whole n =>
    have hadmits : LogicalType.bigint.admits (.int n) = true := by
      cases old <;> first | exact hv | cases hv
    exact ⟨rfl, (clamp_of_admits hadmits).symm⟩
  | rounded negative m => exact ⟨rfl, congrArg clamp (truncate_roundReal negative m)⟩
  | @written s before after negative sign digits hsign hdigits hne hs =>
    obtain ⟨hread, hprefix⟩ :=
      (denotes_text_iff s _).1 (.written before after negative hsign hdigits hne hs)
    exact ⟨hread, congrArg clamp hprefix.symm⟩

/-- Only the infinities are let through without an integer that they stand for. -/
theorem denotes_of_isReadable (hv : old.stands v = true) (hne : v ≠ .null)
    (hread : isReadable v = true) :
    (∃ n, Denotes v n) ∨ ∃ negative, v = .float (.infinity negative) := by
  cases v with
  | null => exact absurd rfl hne
  | int n => exact Or.inl ⟨n, .whole n⟩
  | float x =>
    cases x with
    | nan => cases old <;> cases hv
    | infinity negative => exact Or.inr ⟨negative, rfl⟩
    | finite negative m => exact Or.inl ⟨_, .rounded negative m⟩
  | text s => exact Or.inl ⟨_, (denotes_text_iff s _).2 ⟨hread, rfl⟩⟩
  | _ => cases old <;> cases hv

theorem castOf_infinity (negative : Bool) : castOf (.float (.infinity negative)) =
    if negative then -0x8000000000000000 else 0x7fffffffffffffff := by
  cases negative <;> rfl

/-- Null for null; for another value none at all, or the integer it stands for, within the type. -/
def Exact (new : LogicalType) (v : Value) (result : Option Value) : Prop :=
  (v = .null ∧ result = some .null) ∨ (v ≠ .null ∧ (result = none ∨
    ∃ n, Denotes v n ∧ new.admits (.int n) = true ∧ result = some (.int n)))

/-- The value is beyond the integers of 64 bits, and only these bound the type. -/
def Overflows (new : LogicalType) (v : Value) : Prop :=
  new = .bigint ∧ ((∃ n, Denotes v n ∧ LogicalType.bigint.admits (.int n) = false) ∨
    ∃ negative, v = .float (.infinity negative))

theorem not_denotes_null : ¬Denotes .null n := nofun

theorem not_denotes_infinity (negative : Bool) : ¬Denotes (.float (.infinity negative)) n := nofun

theorem new_of_toIntegers (hpair : (old, new) ∈ toIntegers) : new = .int ∨ new = .bigint := by
  simp only [toIntegers, List.mem_cons, Prod.mk.injEq, List.not_mem_nil, or_false] at hpair
  tauto

variable {b : Builtins} {row : String → Value} {name : String}

/-- What stands for an integer of the type becomes that integer. -/
theorem eval_of_denotes (hpair : (old, new) ∈ toIntegers) (hv : old.stands (row name) = true)
    (hn : Denotes (row name) n) (hadmits : new.admits (.int n) = true) :
    b.eval row (Conversion.expression .sqlite name old new) = some (.int n) := by
  have hne : row name ≠ .null := fun hnull => not_denotes_null (hnull ▸ hn)
  obtain ⟨hread, hcast⟩ := castOf_of_denotes hv hn
  rw [eval_expression hpair hv hne, hread, hcast]
  rcases new_of_toIntegers hpair with rfl | rfl
  · rw [fitsInt32_clamp, hadmits, clamp_of_admits (admits_bigint hadmits)]
    rfl
  · rw [clamp_of_admits hadmits]
    rfl

/-- A value beyond 64 bits becomes the nearest bound. -/
theorem eval_of_overflows (hpair : (old, new) ∈ toIntegers) (hv : old.stands (row name) = true)
    (h : Overflows new (row name)) :
    b.eval row (Conversion.expression .sqlite name old new) = some (.int (-0x8000000000000000)) ∨
      b.eval row (Conversion.expression .sqlite name old new) = some (.int 0x7fffffffffffffff) := by
  obtain ⟨rfl, ⟨n, hn, hadmits⟩ | ⟨negative, hrow⟩⟩ := h
  · have hne : row name ≠ .null := fun hnull => not_denotes_null (hnull ▸ hn)
    obtain ⟨hread, hcast⟩ := castOf_of_denotes hv hn
    rw [eval_expression hpair hv hne, hread, hcast]
    rcases clamp_of_not_admits hadmits with hbound | hbound <;> rw [hbound]
    · exact Or.inl rfl
    · exact Or.inr rfl
  · rw [eval_expression hpair hv (by rw [hrow]; nofun), hrow, castOf_infinity]
    cases negative
    · exact Or.inr rfl
    · exact Or.inl rfl

theorem exact_of_not_overflows (hpair : (old, new) ∈ toIntegers) (hv : old.stands (row name) = true)
    (h : ¬Overflows new (row name)) :
    Exact new (row name) (b.eval row (Conversion.expression .sqlite name old new)) := by
  by_cases hnull : row name = .null
  · exact Or.inl ⟨hnull, eval_null hpair hnull⟩
  · refine Or.inr ⟨hnull, ?_⟩
    rw [eval_expression hpair hv hnull]
    split
    case isFalse => exact Or.inl rfl
    case isTrue hok =>
      rw [Bool.and_eq_true, Bool.or_eq_true, decide_eq_true_eq] at hok
      obtain ⟨hread, hfits⟩ := hok
      obtain ⟨n, hn⟩ | ⟨negative, hrow⟩ := denotes_of_isReadable hv hnull hread
      · obtain ⟨-, hcast⟩ := castOf_of_denotes hv hn
        rw [hcast] at hfits ⊢
        have hadmits : new.admits (.int n) = true := by
          rcases new_of_toIntegers hpair with rfl | rfl
          · rw [← fitsInt32_clamp]
            exact hfits.resolve_left fun hne => hne rfl
          · by_contra hno
            exact h ⟨rfl, Or.inl ⟨n, hn, Bool.eq_false_iff.2 hno⟩⟩
        have hclamp : clamp n = n := by
          rcases new_of_toIntegers hpair with rfl | rfl
          · exact clamp_of_admits (admits_bigint hadmits)
          · exact clamp_of_admits hadmits
        exact Or.inr ⟨n, hn, hadmits, by rw [hclamp]⟩
      · rcases new_of_toIntegers hpair with rfl | rfl
        · rw [hrow, castOf_infinity] at hfits
          cases negative <;> exact absurd (hfits.resolve_left fun hne => hne rfl) (by decide)
        · exact absurd ⟨rfl, Or.inr ⟨negative, hrow⟩⟩ h

/-- A conversion to integers is exact or ends the statement, except for values beyond 64 bits, which
become the nearest bound without a word. What stands for an integer of the type becomes that integer. -/
theorem exact_iff_not_overflows (b : Builtins) (row : String → Value) (name : String)
    (old new : LogicalType) (hpair : (old, new) ∈ toIntegers)
    (hv : old.stands (row name) = true) :
    (Exact new (row name) (b.eval row (Conversion.expression .sqlite name old new)) ↔
      ¬Overflows new (row name)) ∧
    (∀ n, Denotes (row name) n → new.admits (.int n) = true →
      b.eval row (Conversion.expression .sqlite name old new) = some (.int n)) ∧
    (Overflows new (row name) →
      b.eval row (Conversion.expression .sqlite name old new) = some (.int (-0x8000000000000000)) ∨
      b.eval row (Conversion.expression .sqlite name old new) = some (.int 0x7fffffffffffffff)) := by
  refine ⟨⟨fun hexact hover => ?_, exact_of_not_overflows hpair hv⟩,
    fun n hn hadmits => eval_of_denotes hpair hv hn hadmits, eval_of_overflows hpair hv⟩
  obtain ⟨hnull, -⟩ | ⟨-, hnone | ⟨m, hm, hadmits, -⟩⟩ := hexact
  · obtain ⟨-, ⟨n, hn, -⟩ | ⟨negative, hrow⟩⟩ := hover
    · exact not_denotes_null (hnull ▸ hn)
    · cases hnull.symm.trans hrow
  · rcases eval_of_overflows (b := b) hpair hv hover with h | h <;> cases hnone.symm.trans h
  · obtain ⟨rfl, ⟨n, hn, hno⟩ | ⟨negative, hrow⟩⟩ := hover
    · rw [hn.unique hm, hadmits] at hno
      cases hno
    · exact not_denotes_infinity negative (hrow ▸ hm)

/-- No document starts with a `c`. -/
theorem read_of_c {s : String} (h : s.toList.head? = some 'c') : (Json.read s).toOption = none := by
  obtain ⟨rest, hs⟩ := List.head?_eq_some_iff.1 h
  have hword : Json.readWord? ('c' :: rest) = none := by
    simp [Json.readWord?, Json.words, Json.afterWord?_eq]
  have hnumber : Json.readNumber? ('c' :: rest) = none := by
    rw [← Option.not_isSome_iff_eq_none, Option.isSome_iff_exists]
    rintro ⟨r, hr⟩
    obtain ⟨d, rest', hd, hcs | hcs⟩ := Json.front_of_readNumber? hr
    · cases hcs
      cases hd
    · cases hcs
  have hdocument : Json.readDocument ('c' :: rest) = .error ⟨.value, rest.length + 1⟩ := by
    rw [Json.readDocument, Json.skipBlanks_cons rfl, Json.readValue, hword, hnumber]
    · rfl
    all_goals simp
  rw [Json.read, hs, hdocument]
  rfl

/-- Reals in their shortest form, and documents as they are read elsewhere. -/
def plainBuiltins : Builtins where
  realText := Double.text
  json s := (Json.read s).toOption.map (Json.render .compact)
  json_eq_none s h := by rw [read_of_c h]; rfl

/-- A text of twenty digits is a larger integer than the one it is turned into. -/
theorem exact_iff_not_overflows_digits :
    plainBuiltins.eval (fun _ => .text "99999999999999999999")
        (Conversion.expression .sqlite "code" .text .bigint) = some (.int 0x7fffffffffffffff) ∧
      ¬Exact .bigint (.text "99999999999999999999") (some (.int 0x7fffffffffffffff)) := by
  obtain ⟨hexact, -, -⟩ := exact_iff_not_overflows plainBuiltins
    (fun _ => .text "99999999999999999999") "code" .text .bigint (by decide) rfl
  have hvalue : plainBuiltins.eval (fun _ => .text "99999999999999999999")
      (Conversion.expression .sqlite "code" .text .bigint) = some (.int 0x7fffffffffffffff) := by
    rfl
  have hover : Overflows .bigint (.text "99999999999999999999") :=
    ⟨rfl, Or.inl ⟨99999999999999999999, (denotes_text_iff _ _).2 ⟨by decide, by decide⟩, rfl⟩⟩
  rw [hvalue] at hexact
  exact ⟨hvalue, fun h => hexact.1 h hover⟩

end Exact

end Sql

end SchemaLedger
