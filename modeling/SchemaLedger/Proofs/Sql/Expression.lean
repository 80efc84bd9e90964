import Mathlib.Algebra.Order.Floor.Semifield
import Mathlib.Data.List.DropRight
import Mathlib.Data.Rat.Floor
import Mathlib.Tactic.FieldSimp
import SchemaLedger.Proofs.Sql.Literal
import SchemaLedger.Sql.Conversion

set_option autoImplicit false

/-!
# What SQLite makes of an expression

The values of the expressions that conversions to integers are made of, by the documentation of SQLite:
null is carried along, a comparison with null is neither true nor false, branches are tried in order,
and a cast to an integer reads as much of a text as is a number and stays within 64 bits. An
expression that has no value ends its statement.
-/
namespace SchemaLedger.Sql

/-! ## Texts -/

/-- A text without the blanks at both ends. -/
def trim (s : String) : String :=
  .ofList ((s.toList.dropWhile (· = ' ')).rdropWhile (· = ' '))

/-- The characters from a place on, the first one at place 1, no more than `count` if there is one. -/
def substr (s : String) (place : ℕ) (count : Option ℕ) : String :=
  let rest := s.toList.drop (place - 1)
  .ofList (match count with | some n => rest.take n | none => rest)

/-- A part of a pattern: any characters, or one of a kind. -/
inductive Glob where
  | run
  | one (accepts : Char → Bool)

namespace Glob

def inRanges (ranges : List (Char × Char)) (c : Char) : Bool := ranges.any fun r => r.1 ≤ c ∧ c ≤ r.2

mutual

def parts : List Char → List Glob
  | [] => []
  | '*' :: cs => .run :: parts cs
  | '?' :: cs => .one (fun _ => true) :: parts cs
  | '[' :: '^' :: cs => setParts true [] none false cs
  | '[' :: cs => setParts false [] none false cs
  | c :: cs => .one (· = c) :: parts cs

/-- The parts of a pattern from within a set, behind a member that may start a range and perhaps a
hyphen. A bracket that comes first is a member. -/
def setParts (negated : Bool) (ranges : List (Char × Char)) (start : Option Char) (hyphen : Bool) :
    List Char → List Glob
  | [] => [.one fun _ => false]
  | c :: cs =>
    if c = ']' ∧ ranges ≠ [] then
      let ranges := if hyphen then ('-', '-') :: ranges else ranges
      .one (fun c => negated != inRanges ranges c) :: parts cs
    else
      match start, hyphen with
      | some a, true => setParts negated ((a, c) :: ranges) none false cs
      | some a, false =>
        if c = '-' then setParts negated ranges (some a) true cs
        else setParts negated ((c, c) :: ranges) (some c) false cs
      | none, _ => setParts negated ((c, c) :: ranges) (some c) false cs

end

def accepts : List Glob → List Char → Bool
  | [], cs => cs.isEmpty
  | .run :: globs, cs => cs.tails.any (accepts globs)
  | .one p :: globs, c :: cs => p c && accepts globs cs
  | .one _ :: _, [] => false

theorem accepts_run (cs : List Char) : accepts [.run] cs = true :=
  List.any_eq_true.2 ⟨[], (List.mem_tails _ _).2 (List.nil_suffix), rfl⟩

/-- The pattern of texts with a character that is no digit. -/
theorem accepts_noDigit (cs : List Char) :
    accepts (parts "*[^0-9]*".toList) cs = !cs.all Char.isDigit := by
  have hparts : parts "*[^0-9]*".toList =
      [.run, .one fun c => true != inRanges [('0', '9'), ('0', '0')] c, .run] := by
    simp [parts, setParts]
  have hdigit : ∀ c : Char, inRanges [('0', '9'), ('0', '0')] c = c.isDigit := by
    intro c
    simp only [inRanges, Char.isDigit, Char.le_def, List.any_cons, List.any_nil]
    grind
  rw [hparts]
  induction cs with
  | nil => rfl
  | cons c rest ih =>
    rw [accepts] at ih ⊢
    rw [List.tails_cons, List.any_cons, ih, accepts, accepts_run, hdigit, List.all_cons]
    cases c.isDigit <;> rfl

end Glob

/-! ## Numbers -/

/-- The nearest integer of 64 bits. -/
def clamp (n : Int) : Int := max (-0x8000000000000000) (min n 0x7fffffffffffffff)

/-- The nearest integral real, a half going away from zero. A real without binary places is one. -/
def roundReal : Double → Double
  | .finite negative m =>
    if 0 ≤ m.exponent then .finite negative m
    else .ofRatio negative ((2 * m.ratio.1 + m.ratio.2) / (2 * m.ratio.2)) 1
  | x => x

/-- The integer at the front of a text, behind blanks; zero if there is none. -/
def prefixInteger (s : String) : Int :=
  match s.toList.dropWhile (· = ' ') with
  | '-' :: cs => -(Double.digitsValue (Double.spanDigits cs).1 : Int)
  | '+' :: cs => Double.digitsValue (Double.spanDigits cs).1
  | cs => Double.digitsValue (Double.spanDigits cs).1

/-- The integer towards zero. -/
def truncate : Double → Int
  | .finite negative m => if negative then -(m.ratio.1 / m.ratio.2 : ℕ) else (m.ratio.1 / m.ratio.2 : ℕ)
  | .infinity negative => if negative then -0x8000000000000000 else 0x7fffffffffffffff
  | .nan => 0

def castInteger? : Value → Option Value
  | .null => some .null
  | .int n => some (.int n)
  | .float x => some (.int (clamp (truncate x)))
  | .text s => some (.int (clamp (prefixInteger s)))
  | _ => none

theorem truncate_finite (negative : Bool) (m : Magnitude) :
    truncate (.finite negative m) = if negative then -(⌊m.value⌋₊ : Int) else ⌊m.value⌋₊ := by
  rw [truncate, ← (m.ratio_value).2, Nat.floor_div_eq_div]

/-- Every natural number of 52 bits is a magnitude. -/
theorem exists_magnitude {n : ℕ} (h : n ≤ Magnitude.leastFull) : ∃ m : Magnitude, m.value = n := by
  rcases Nat.eq_zero_or_pos n with rfl | hn
  · exact ⟨.zero, by simp [Magnitude.value_eq_zero.2 (by decide : Magnitude.zero.isZero = true)]⟩
  · have hlow : 2 ^ n.log2 ≤ n := Nat.log2_self_le hn.ne'
    have hhigh : n < 2 ^ (n.log2 + 1) := Nat.lt_log2_self
    obtain ⟨k, hk⟩ : ∃ k, n.log2 + k = 52 := by
      refine ⟨52 - n.log2, Nat.add_sub_cancel' ?_⟩
      by_contra hgt
      have hpow : 2 ^ 53 ≤ 2 ^ n.log2 := Nat.pow_le_pow_right two_pos (by omega)
      exact absurd (hpow.trans (hlow.trans h)) (by decide)
    have hshift : 2 ^ n.log2 * 2 ^ k = Magnitude.leastFull := by
      rw [← pow_add, hk]
      rfl
    have hcanonical : Magnitude.Canonical (n * 2 ^ k) (-(k : Int)) := by
      refine ⟨?_, by omega, by omega, Or.inl (hshift ▸ Nat.mul_le_mul_right _ hlow)⟩
      rw [← hshift, ← mul_assoc, ← pow_succ']
      exact Nat.mul_lt_mul_of_pos_right hhigh (by positivity)
    refine ⟨⟨n * 2 ^ k, -(k : Int), hcanonical⟩, ?_⟩
    rw [Magnitude.value, zpow_neg, zpow_natCast]
    push_cast
    rw [mul_assoc, mul_inv_cancel₀ (by positivity), mul_one]

theorem truncate_roundReal (negative : Bool) (m : Magnitude) :
    truncate (roundReal (.finite negative m)) =
      if negative then -(⌊m.value + 1 / 2⌋₊ : Int) else ⌊m.value + 1 / 2⌋₊ := by
  obtain ⟨hden, hvalue⟩ := m.ratio_value
  rw [roundReal]
  split
  case isTrue he =>
    -- Without binary places the value is a natural number.
    obtain ⟨k, hk⟩ : ∃ k : ℕ, m.value = k := by
      refine ⟨m.significand * 2 ^ m.exponent.toNat, ?_⟩
      rw [Magnitude.value, ← Int.toNat_of_nonneg he]
      push_cast
      rw [zpow_natCast, Int.toNat_natCast]
    have hhalf : ⌊m.value + 1 / 2⌋₊ = ⌊m.value⌋₊ := by
      rw [hk, add_comm, Nat.floor_add_natCast (by norm_num), Nat.floor_natCast]
      norm_num
    rw [truncate_finite, hhalf]
  case isFalse he =>
    have hfloor : (2 * m.ratio.1 + m.ratio.2) / (2 * m.ratio.2) = ⌊m.value + 1 / 2⌋₊ := by
      rw [← Nat.floor_div_eq_div (K := ℚ), ← hvalue]
      congr 1
      push_cast
      field_simp
    have hbound : ⌊m.value + 1 / 2⌋₊ ≤ Magnitude.leastFull := by
      have hsignificand : (m.significand : ℚ) + 1 ≤ 2 * Magnitude.leastFull := by
        exact_mod_cast (m.canonical.1 : m.significand + 1 ≤ 2 * Magnitude.leastFull)
      have hpow : (2 : ℚ) ^ m.exponent ≤ 2 ^ (-1 : ℤ) := zpow_le_zpow_right₀ one_le_two (by omega)
      have hhalf : m.value ≤ m.significand * 2 ^ (-1 : ℤ) :=
        mul_le_mul_of_nonneg_left hpow (Nat.cast_nonneg _)
      rw [zpow_neg_one, ← div_eq_mul_inv] at hhalf
      refine Nat.floor_le_of_le ?_
      generalize (Magnitude.leastFull : ℚ) = full at hsignificand ⊢
      linarith
    obtain ⟨k, hk⟩ := exists_magnitude hbound
    rw [hfloor, Double.ofRatio, Magnitude.ofRatio?_of_value hk]
    rw [truncate_finite, hk, Nat.floor_natCast]

/-! ## Expressions -/

/-- The parts of SQLite that are not spelled out here: how a real is written, and what `json` makes of
a text. No document starts with a `c`. -/
structure Builtins where
  realText : Double → String
  json : String → Option String
  json_eq_none : ∀ s : String, s.toList.head? = some 'c' → json s = none

namespace Builtins

/-- Truth as a number. -/
def truth (b : Bool) : Value := .int (if b then 1 else 0)

/-- Whether a condition holds; null does not. -/
def holds? : Value → Option Bool
  | .null => some false
  | .int n => some (n ≠ 0)
  | _ => none

def textOf? (b : Builtins) : Value → Option String
  | .text s => some s
  | .int n => some (toString n)
  | .float x => some (b.realText x)
  | _ => none

def call? (b : Builtins) : String → List Value → Option Value
  | _, .null :: _ => some .null
  | "trim", [.text s] => some (.text (trim s))
  | "substr", [.text s, .int (.ofNat (place + 1))] => some (.text (substr s (place + 1) none))
  | "substr", [.text s, .int (.ofNat (place + 1)), .int (.ofNat count)] =>
    some (.text (substr s (place + 1) (some count)))
  | "round", [.float x] => some (.float (roundReal x))
  | "json", [.text s] => (b.json s).map .text
  | _, _ => none

/-- A conjunction is false as soon as one side is. -/
def both? : Value → Value → Option Value
  | .int n, .int m => some (truth (n ≠ 0 ∧ m ≠ 0))
  | .null, .int n | .int n, .null => some (if n = 0 then truth false else .null)
  | .null, .null => some .null
  | _, _ => none

def binary? (b : Builtins) : String → Value → Value → Option Value
  | "AND", v, w => both? v w
  | _, .null, _ | _, _, .null => some .null
  | "<>", .text s, .text t => some (truth (s ≠ t))
  | "NOT GLOB", .text s, .text pattern => some (truth !(Glob.accepts (Glob.parts pattern.toList) s.toList))
  | "||", v, w => do some (.text ((← b.textOf? v) ++ (← b.textOf? w)))
  | _, _, _ => none

def text? : Value → Option String
  | .text s => some s
  | _ => none

def oneOf? : Value → List Value → Option Value
  | .null, _ => some .null
  | .text s, choices =>
    (choices.mapM text?).map fun texts => truth (s ∈ texts)
  | _, _ => none

def between? : Value → Value → Value → Option Value
  | .null, _, _ => some .null
  | .int n, .int low, .int high => some (truth (low ≤ n ∧ n ≤ high))
  | _, _, _ => none

mutual

/-- The value of an expression over a row, none if it ends the statement. -/
def eval (b : Builtins) (row : String → Value) : Expr → Option Value
  | .column name => some (row name)
  | .text s => some (.text s)
  | .integer n => some (.int n)
  | .null => some .null
  | .call function arguments => do b.call? function (← evalAll b row arguments)
  | .cast e type => do
    let v ← eval b row e
    if type = "INTEGER" then castInteger? v else none
  | .binary operator left right => do b.binary? operator (← eval b row left) (← eval b row right)
  | .isNull e => do some (truth (← eval b row e).isNull)
  | .oneOf e choices => do oneOf? (← eval b row e) (← evalAll b row choices)
  | .between e low high => do between? (← eval b row e) (← eval b row low) (← eval b row high)
  | .cases branches none => do some ((← evalBranches b row branches).getD .null)
  | .cases branches (some e) => do
    match ← evalBranches b row branches with
    | some v => some v
    | none => eval b row e
  | .grouped e => eval b row e
  | .literal _ => none
  | .castTo _ _ => none

def evalAll (b : Builtins) (row : String → Value) : List Expr → Option (List Value)
  | [] => some []
  | e :: rest => do some ((← eval b row e) :: (← evalAll b row rest))

/-- The value of the first branch whose condition holds; no later one is looked at. -/
def evalBranches (b : Builtins) (row : String → Value) : List (Expr × Expr) → Option (Option Value)
  | [] => some none
  | (condition, e) :: rest => do
    if ← holds? (← eval b row condition) then some (← eval b row e)
    else evalBranches b row rest

end

variable {b : Builtins} {row : String → Value} {name : String} {c valid converted : Expr} {v : Value}

open Conversion (guarded trimmed)

theorem json_refused (hc : b.eval row c = some v) (hv : v ≠ .null) :
    b.eval row (.call "json" [Conversion.concat (.text "cannot convert ") c]) = none := by
  have hbinary : b.binary? "||" (.text "cannot convert ") v =
      (b.textOf? v).map fun t => .text ("cannot convert " ++ t) := by
    cases v <;> first | rfl | exact absurd rfl hv
  have heval : b.eval row (Conversion.concat (.text "cannot convert ") c) =
      (b.textOf? v).map fun t => .text ("cannot convert " ++ t) := by
    rw [Conversion.concat, eval, hc, ← hbinary]
    rfl
  rw [eval, evalAll, heval]
  cases b.textOf? v with
  | none => rfl
  | some t =>
    have hhead : ("cannot convert " ++ t).toList.head? = some 'c' := by
      rw [String.toList_append]
      rfl
    change (b.json ("cannot convert " ++ t)).map Value.text = none
    rw [b.json_eq_none _ hhead]
    rfl

theorem evalBranches_cons {condition e : Expr} {rest : List (Expr × Expr)} {ok : Bool}
    (h : b.eval row condition = some (truth ok)) : b.evalBranches row ((condition, e) :: rest) =
      if ok then (b.eval row e).map some else b.evalBranches row rest := by
  rw [evalBranches, h]
  cases ok
  · rfl
  · change ((b.eval row e).bind fun v => some (some v)) = (b.eval row e).map some
    cases b.eval row e <;> rfl

theorem eval_cases_else {branches : List (Expr × Expr)} {e : Expr} :
    b.eval row (.cases branches (some e)) =
      (b.evalBranches row branches).bind fun r => r.elim (b.eval row e) some := by
  rw [eval]
  refine congrArg _ (funext fun r => ?_)
  cases r <;> rfl

/-- A guarded conversion of null is null, and one of any other value needs the guard to hold. -/
theorem eval_guarded (hc : b.eval row c = some v) {ok : Bool}
    (hvalid : v ≠ .null → b.eval row valid = some (truth ok)) :
    b.eval row (guarded c valid converted) =
      if v.isNull then some .null else if ok then b.eval row converted else none := by
  have hnull : b.eval row (.isNull c) = some (truth v.isNull) := by
    rw [eval, hc]
    rfl
  rw [guarded, eval_cases_else, evalBranches_cons hnull]
  by_cases hv : v = .null
  · subst hv
    change ((b.eval row .null).map some).bind _ = _
    rw [eval]
    rfl
  · have hfalse : v.isNull = false := by cases v <;> first | rfl | exact absurd rfl hv
    rw [hfalse, if_neg Bool.false_ne_true, if_neg Bool.false_ne_true, evalBranches_cons (hvalid hv)]
    cases ok with
    | true => cases b.eval row converted <;> rfl
    | false => exact json_refused hc hv

theorem eval_guarded_null (hc : b.eval row c = some .null) :
    b.eval row (guarded c valid converted) = some .null := by
  have hvalid : Value.null ≠ .null → b.eval row valid = some (truth false) :=
    fun hne => absurd rfl hne
  exact eval_guarded hc hvalid

end Builtins

end SchemaLedger.Sql
