import SchemaLedger.Proofs.Sql.Literal

set_option autoImplicit false

/-!
# Templates that stay as they are

Which literals mean something else inside CREATE TABLE: those that name a parameter, hold an escaped
one, or hold a percent sign where placeholders start with one. A template falls apart at characters
that none of these can hold, such as quotes and blanks.
-/
namespace SchemaLedger.Sql

variable {d : Dialect} {cs xs ys rest : List Char} {c : Char} {before : Option Char} {skip : Nat}

/-- The characters of a template before its escapes are dropped. -/
def fillTemplate (d : Dialect) (cs : List Char) : List Char :=
  dropParameters none 0 (match d with
    | .sqlite => cs
    | .postgresql => doublePercent cs)

/-- The characters that a template stands for. -/
def expandChars (d : Dialect) (cs : List Char) : List Char := dropEscapes (fillTemplate d cs)

theorem toList_expandTemplate (d : Dialect) (s : String) :
    (expandTemplate d s).toList = expandChars d s.toList := by
  cases d <;> exact String.toList_ofList

/-! ## Parameters -/

/-- Whether a parameter's name can stand at the front of a text. -/
def StartsName (cs : List Char) : Prop :=
  ∃ name after, cs = name ++ after ∧ name ≠ [] ∧ (∀ c ∈ name, Text.isWordChar c = true) ∧
    after.head? ≠ some ':'

theorem parameterLength_cases (cs : List Char) :
    cs[parameterLength cs]? ≠ some ':' ∧
        parameterLength cs = (cs.takeWhile Text.isWordChar).length ∨
      cs[(cs.takeWhile Text.isWordChar).length]? = some ':' ∧
        parameterLength cs = (cs.takeWhile Text.isWordChar).length - 1 := by
  rw [parameterLength]
  split
  case isTrue h => exact Or.inr ⟨h, rfl⟩
  case isFalse h => exact Or.inl ⟨h, rfl⟩

theorem parameterLength_le_word (cs : List Char) :
    parameterLength cs ≤ (cs.takeWhile Text.isWordChar).length := by
  rcases parameterLength_cases cs with ⟨-, h⟩ | ⟨-, h⟩ <;> omega

theorem parameterLength_le (cs : List Char) : parameterLength cs ≤ cs.length :=
  (parameterLength_le_word cs).trans (List.takeWhile_prefix Text.isWordChar (l := cs)).length_le

theorem isWordChar_colon : Text.isWordChar ':' = false := by decide

theorem isWordChar_of_getElem? {k : ℕ} (hk : k < (cs.takeWhile Text.isWordChar).length)
    (h : cs[k]? = some c) : Text.isWordChar c = true := by
  have hin : (cs.takeWhile Text.isWordChar)[k]? = some c := by
    rw [← List.takeWhile_append_dropWhile (p := Text.isWordChar) (l := cs),
      List.getElem?_append_left hk] at h
    exact h
  exact List.all_eq_true.1 List.all_takeWhile c (List.mem_of_getElem? hin)

/-- The part of a text that is taken for a parameter's name is one, if it is not empty. -/
theorem startsName_iff (cs : List Char) : StartsName cs ↔ 0 < parameterLength cs := by
  constructor
  · rintro ⟨name, after, rfl, hne, hname, hafter⟩
    have htake : (name ++ after).takeWhile Text.isWordChar =
        name ++ after.takeWhile Text.isWordChar := List.takeWhile_append_of_pos hname
    have hpos := List.length_pos_iff.2 hne
    rw [parameterLength, htake, List.length_append]
    split
    case isFalse => omega
    case isTrue hcolon =>
      rw [List.getElem?_append_right (by omega), Nat.add_sub_cancel_left] at hcolon
      have hmore : after.takeWhile Text.isWordChar ≠ [] := fun hnil => by
        rw [hnil, List.length_nil, ← List.head?_eq_getElem?] at hcolon
        exact hafter hcolon
      have hlong := List.length_pos_iff.2 hmore
      omega
  · intro hpos
    have hle := parameterLength_le cs
    have hcases := parameterLength_cases cs
    refine ⟨cs.take (parameterLength cs), cs.drop (parameterLength cs),
      (List.take_append_drop _ cs).symm, ?_, fun c hc => ?_, fun hcolon => ?_⟩
    · rw [← List.length_pos_iff, List.length_take]
      omega
    · obtain ⟨k, hget⟩ := List.mem_iff_getElem?.1 hc
      have hk := (List.getElem?_eq_some_iff.1 hget).1
      rw [List.length_take] at hk
      rw [List.getElem?_take_of_lt (by omega)] at hget
      exact isWordChar_of_getElem? (by omega) hget
    · rw [List.head?_drop] at hcolon
      rcases hcases with ⟨hne, -⟩ | ⟨-, hlast⟩
      · exact hne hcolon
      · have hword := isWordChar_of_getElem? (by omega) hcolon
        rw [isWordChar_colon] at hword
        cases hword

theorem dropParameters_skip (before : Option Char) (n : ℕ) (c : Char) (rest : List Char) :
    dropParameters before (n + 1) (c :: rest) = dropParameters (some c) n rest := rfl

theorem dropParameters_cons (before : Option Char) (c : Char) (rest : List Char) :
    dropParameters before 0 (c :: rest) =
      if c = ':' ∧ opensParameter before = true ∧ 0 < parameterLength rest then
        "NULL".toList ++ dropParameters (some c) (parameterLength rest) rest
      else c :: dropParameters (some c) 0 rest := rfl

/-- Replacing parameters leaves no more colons than there were. -/
theorem count_dropParameters (before : Option Char) (skip : ℕ) (cs : List Char) :
    (dropParameters before skip cs).count ':' ≤ cs.count ':' := by
  induction cs generalizing before skip with
  | nil => exact Nat.le_refl 0
  | cons c rest ih =>
    cases skip with
    | succ n => exact (ih (some c) n).trans List.count_le_count_cons
    | zero =>
      rw [dropParameters_cons]
      split
      case isTrue hstart =>
        rw [List.count_append]
        have hnull : "NULL".toList.count ':' = 0 := by decide
        have hrest := ih (some c) (parameterLength rest)
        rw [hstart.1, List.count_cons_self]
        rw [hstart.1] at hrest
        omega
      case isFalse =>
        rw [List.count_cons, List.count_cons]
        exact Nat.add_le_add_right (ih (some c) 0) _

/-- Whether a parameter is named in a text, the character before it given. -/
def NamesParameterAfter (before : Option Char) (cs : List Char) : Prop :=
  ∃ front rest, cs = front ++ ':' :: rest ∧ opensParameter (front.getLast?.or before) = true ∧
    StartsName rest

theorem namesParameterAfter_cons (before : Option Char) (c : Char) (rest : List Char) :
    NamesParameterAfter before (c :: rest) ↔
      (c = ':' ∧ opensParameter before = true ∧ 0 < parameterLength rest) ∨
        NamesParameterAfter (some c) rest := by
  rw [← startsName_iff]
  constructor
  · rintro ⟨front, tail, hsplit, hopens, hname⟩
    cases front with
    | nil =>
      obtain ⟨rfl, rfl⟩ := List.cons.inj hsplit
      exact Or.inl ⟨rfl, hopens, hname⟩
    | cons x front =>
      obtain ⟨rfl, rfl⟩ := List.cons.inj hsplit
      exact Or.inr ⟨front, tail, rfl, by simpa [List.getLast?_cons] using hopens, hname⟩
  · rintro (⟨rfl, hopens, hname⟩ | ⟨front, tail, rfl, hopens, hname⟩)
    · exact ⟨[], rest, rfl, hopens, hname⟩
    · exact ⟨c :: front, tail, rfl, by simpa [List.getLast?_cons] using hopens, hname⟩

/-- Replacing parameters loses a colon if one is named, and otherwise changes nothing. -/
theorem dropParameters_cases (before : Option Char) (cs : List Char) :
    NamesParameterAfter before cs ∧
        (dropParameters before 0 cs).count ':' < cs.count ':' ∨
      ¬ NamesParameterAfter before cs ∧ dropParameters before 0 cs = cs := by
  induction cs generalizing before with
  | nil =>
    refine Or.inr ⟨?_, rfl⟩
    rintro ⟨front, rest, h, -⟩
    simp at h
  | cons c rest ih =>
    rw [namesParameterAfter_cons, dropParameters_cons]
    split
    case isTrue hstart =>
      refine Or.inl ⟨Or.inl hstart, ?_⟩
      have hrest := count_dropParameters (some c) (parameterLength rest) rest
      have hnull : "NULL".toList.count ':' = 0 := by decide
      rw [List.count_append, hnull, hstart.1, List.count_cons_self]
      rw [hstart.1] at hrest
      omega
    case isFalse hstart =>
      rcases ih (some c) with ⟨hnames, hless⟩ | ⟨hnames, hsame⟩
      · refine Or.inl ⟨Or.inr hnames, ?_⟩
        rw [List.count_cons, List.count_cons]
        exact Nat.add_lt_add_right hless _
      · refine Or.inr ⟨fun h => h.elim hstart hnames, by rw [hsame]⟩

/-! ## Escapes -/

/-- Whether a text holds a colon that a backslash keeps from naming a parameter: word characters and
dollar signs may follow, but no other colon. -/
def EscapesColon (cs : List Char) : Prop :=
  ∃ front name after, cs = front ++ '\\' :: ':' :: (name ++ after) ∧
    (∀ c ∈ name, isWordOrDollar c = true) ∧
    ∀ c ∈ after.head?, c ≠ ':' ∧ isWordOrDollar c = false

theorem isEscapedName_iff (cs : List Char) :
    isEscapedName cs = true ↔ ∃ name after, cs = ':' :: (name ++ after) ∧
      (∀ c ∈ name, isWordOrDollar c = true) ∧
      ∀ c ∈ after.head?, c ≠ ':' ∧ isWordOrDollar c = false := by
  unfold isEscapedName
  split
  case h_1 rest =>
    rw [decide_eq_true_eq]
    constructor
    · intro hne
      refine ⟨rest.takeWhile isWordOrDollar, rest.dropWhile isWordOrDollar,
        by rw [List.takeWhile_append_dropWhile], fun c hc => ?_, fun c hc => ⟨?_, ?_⟩⟩
      · exact List.all_eq_true.1 List.all_takeWhile c hc
      · rintro rfl
        exact hne hc
      · have hhead := List.head?_dropWhile_not isWordOrDollar rest
        rw [Option.mem_def.1 hc] at hhead
        simpa using hhead
    · rintro ⟨name, after, hsplit, hname, hafter⟩
      obtain ⟨-, rfl⟩ := List.cons.inj hsplit
      rw [List.dropWhile_append_of_pos hname]
      cases after with
      | nil => simp
      | cons c tail =>
        obtain ⟨hc, hword⟩ := hafter c rfl
        rw [List.dropWhile_cons_of_neg (by simp [hword]), List.head?_cons]
        exact fun heq => hc (Option.some.inj heq)
  case h_2 hne =>
    refine ⟨nofun, ?_⟩
    rintro ⟨name, after, rfl, -⟩
    exact absurd rfl (hne _)

theorem dropEscapes_cons (c : Char) (rest : List Char) : dropEscapes (c :: rest) =
    if c = '\\' ∧ isEscapedName rest = true then dropEscapes rest else c :: dropEscapes rest := rfl

/-- Dropping escapes takes away nothing but backslashes. -/
theorem count_dropEscapes (hc : c ≠ '\\') (cs : List Char) :
    (dropEscapes cs).count c = cs.count c := by
  induction cs with
  | nil => rfl
  | cons x rest ih =>
    rw [dropEscapes_cons]
    split
    case isTrue hx => rw [ih, List.count_cons_of_ne (hx.1 ▸ Ne.symm hc)]
    case isFalse => rw [List.count_cons, List.count_cons, ih]

theorem escapesColon_cons (c : Char) (rest : List Char) :
    EscapesColon (c :: rest) ↔ (c = '\\' ∧ isEscapedName rest = true) ∨ EscapesColon rest := by
  rw [isEscapedName_iff]
  constructor
  · rintro ⟨front, name, after, hsplit, hname, hafter⟩
    cases front with
    | nil =>
      obtain ⟨rfl, rfl⟩ := List.cons.inj hsplit
      exact Or.inl ⟨rfl, name, after, rfl, hname, hafter⟩
    | cons x front =>
      obtain ⟨rfl, rfl⟩ := List.cons.inj hsplit
      exact Or.inr ⟨front, name, after, rfl, hname, hafter⟩
  · rintro (⟨rfl, name, after, rfl, hname, hafter⟩ | ⟨front, name, after, rfl, hname, hafter⟩)
    · exact ⟨[], name, after, rfl, hname, hafter⟩
    · exact ⟨c :: front, name, after, rfl, hname, hafter⟩

/-- It makes the text shorter if it holds one, and otherwise changes nothing. -/
theorem dropEscapes_cases (cs : List Char) :
    EscapesColon cs ∧ (dropEscapes cs).length < cs.length ∨
      ¬ EscapesColon cs ∧ dropEscapes cs = cs := by
  induction cs with
  | nil =>
    refine Or.inr ⟨?_, rfl⟩
    rintro ⟨front, name, after, h, -⟩
    simp at h
  | cons c rest ih =>
    have hle : (dropEscapes rest).length ≤ rest.length := by
      rcases ih with ⟨-, hless⟩ | ⟨-, hsame⟩
      · exact hless.le
      · rw [hsame]
    rw [escapesColon_cons, dropEscapes_cons]
    split
    case isTrue hescape =>
      refine Or.inl ⟨Or.inl hescape, ?_⟩
      rw [List.length_cons]
      omega
    case isFalse hescape =>
      rcases ih with ⟨hholds, hless⟩ | ⟨hholds, hsame⟩
      · refine Or.inl ⟨Or.inr hholds, ?_⟩
        rw [List.length_cons, List.length_cons]
        omega
      · exact Or.inr ⟨fun h => h.elim hescape hholds, by rw [hsame]⟩

/-! ## Percent signs -/

theorem doublePercent_cons (c : Char) (rest : List Char) :
    doublePercent (c :: rest) = (if c = '%' then ['%', '%'] else [c]) ++ doublePercent rest := rfl

theorem count_percent_doublePercent (cs : List Char) :
    (doublePercent cs).count '%' = 2 * cs.count '%' := by
  induction cs with
  | nil => rfl
  | cons c rest ih =>
    rw [doublePercent_cons, List.count_append, ih]
    by_cases hc : c = '%'
    · simp [hc]
      omega
    · simp [hc]

theorem count_doublePercent (hc : c ≠ '%') (cs : List Char) :
    (doublePercent cs).count c = cs.count c := by
  induction cs with
  | nil => rfl
  | cons x rest ih =>
    rw [doublePercent_cons, List.count_append, ih, List.count_cons]
    by_cases hx : x = '%'
    · simp [hx, Ne.symm hc]
    · simp [hx, List.count_singleton, Nat.add_comm]

theorem doublePercent_of_notMem (h : '%' ∉ cs) : doublePercent cs = cs := by
  induction cs with
  | nil => rfl
  | cons c rest ih =>
    rw [List.mem_cons, not_or] at h
    rw [doublePercent_cons, if_neg (Ne.symm h.1), ih h.2]
    rfl

/-! ## Literal templates -/

/-- Whether a template stands for itself: it names no parameter, escapes none, and holds no percent
sign where placeholders start with one. -/
structure StandsForItself (d : Dialect) (cs : List Char) : Prop where
  unnamed : ¬ NamesParameterAfter none cs
  unescaped : ¬ EscapesColon cs
  percent : d = .postgresql → '%' ∉ cs

theorem fillTemplate_sqlite (cs : List Char) :
    fillTemplate .sqlite cs = dropParameters none 0 cs := rfl

theorem fillTemplate_postgresql (cs : List Char) :
    fillTemplate .postgresql cs = dropParameters none 0 (doublePercent cs) := rfl

/-- What is filled in loses a colon, or has more percent signs, or is the text as it was. -/
theorem fillTemplate_cases (d : Dialect) (cs : List Char) :
    (fillTemplate d cs).count ':' < cs.count ':' ∨
      (fillTemplate d cs).count ':' = cs.count ':' ∧
        cs.count '%' < (fillTemplate d cs).count '%' ∨
      fillTemplate d cs = cs := by
  cases d with
  | sqlite =>
    rcases dropParameters_cases none cs with ⟨-, hless⟩ | ⟨-, hsame⟩
    · exact Or.inl hless
    · exact Or.inr (Or.inr hsame)
  | postgresql =>
    have hcolons := count_doublePercent (c := ':') (by decide) cs
    rw [fillTemplate_postgresql]
    rcases dropParameters_cases none (doublePercent cs) with ⟨-, hless⟩ | ⟨-, hsame⟩
    · exact Or.inl (hcolons ▸ hless)
    · rw [hsame]
      by_cases hpercent : '%' ∈ cs
      · have hpos := List.count_pos_iff.2 hpercent
        refine Or.inr (Or.inl ⟨hcolons, ?_⟩)
        rw [count_percent_doublePercent]
        omega
      · exact Or.inr (Or.inr (doublePercent_of_notMem hpercent))

theorem dropParameters_eq_self_iff (cs : List Char) :
    dropParameters none 0 cs = cs ↔ ¬ NamesParameterAfter none cs := by
  rcases dropParameters_cases none cs with ⟨hnames, hless⟩ | ⟨hnames, hsame⟩
  · refine ⟨fun h => ?_, fun h => absurd hnames h⟩
    rw [h] at hless
    exact absurd hless (Nat.lt_irrefl _)
  · exact ⟨fun _ => hnames, fun _ => hsame⟩

theorem fillTemplate_eq_self_iff (d : Dialect) (cs : List Char) : fillTemplate d cs = cs ↔
    ¬ NamesParameterAfter none cs ∧ (d = .postgresql → '%' ∉ cs) := by
  cases d with
  | sqlite => rw [fillTemplate_sqlite, dropParameters_eq_self_iff]; simp
  | postgresql =>
    rw [fillTemplate_postgresql]
    constructor
    · intro h
      have hpercent : '%' ∉ cs := by
        rcases dropParameters_cases none (doublePercent cs) with ⟨-, hless⟩ | ⟨-, hsame⟩
        · rw [h, count_doublePercent (by decide)] at hless
          exact absurd hless (Nat.lt_irrefl _)
        · have hdouble := count_percent_doublePercent cs
          rw [← hsame, h] at hdouble
          rw [← List.count_eq_zero]
          omega
      rw [doublePercent_of_notMem hpercent, dropParameters_eq_self_iff] at h
      exact ⟨h, fun _ => hpercent⟩
    · rintro ⟨hnames, hpercent⟩
      rwa [doublePercent_of_notMem (hpercent rfl), dropParameters_eq_self_iff]

/-- A template is the text it stands for exactly if it stands for itself: what one change takes away
no other brings back. -/
theorem expandChars_eq_self_iff (d : Dialect) (cs : List Char) :
    expandChars d cs = cs ↔ StandsForItself d cs := by
  have hcount : ∀ c, c ≠ '\\' → (expandChars d cs).count c = (fillTemplate d cs).count c :=
    fun c hc => count_dropEscapes hc _
  constructor
  · intro h
    rw [h] at hcount
    have hcolon := hcount ':' (by decide)
    have hpercent := hcount '%' (by decide)
    rcases fillTemplate_cases d cs with hless | ⟨-, hmore⟩ | hsame
    · omega
    · omega
    · obtain ⟨hnames, hnone⟩ := (fillTemplate_eq_self_iff d cs).1 hsame
      rw [expandChars, hsame] at h
      refine ⟨hnames, fun hescapes => ?_, hnone⟩
      rcases dropEscapes_cases cs with ⟨-, hshorter⟩ | ⟨hno, -⟩
      · rw [h] at hshorter
        exact absurd hshorter (Nat.lt_irrefl _)
      · exact hno hescapes
  · rintro ⟨hnames, hescapes, hnone⟩
    rw [expandChars, (fillTemplate_eq_self_iff d cs).2 ⟨hnames, hnone⟩]
    exact ((dropEscapes_cases cs).resolve_left fun h => hescapes h.1).2

/-! ## Walls -/

/-- Whether a character can neither belong to a parameter or an escape nor keep one from standing
behind it. -/
def IsWall (c : Char) : Prop := c ≠ ':' ∧ c ≠ '\\' ∧ c ≠ '%' ∧ isWordOrDollar c = false

instance (c : Char) : Decidable (IsWall c) := inferInstanceAs (Decidable (_ ∧ _ ∧ _ ∧ _))

theorem IsWall.word (h : IsWall c) : Text.isWordChar c = false := by
  have hboth := h.2.2.2
  rw [isWordOrDollar, Bool.or_eq_false_iff] at hboth
  exact hboth.1

theorem IsWall.opens (h : IsWall c) : opensParameter (some c) = true := by
  simp [opensParameter, h.1, h.2.1, h.word]

theorem takeWhile_wall {p : Char → Bool} (h : p c = false) (xs ys : List Char) :
    (xs ++ c :: ys).takeWhile p = xs.takeWhile p := by
  rw [List.takeWhile_append]
  split
  case isTrue heq =>
    rw [List.takeWhile_cons_of_neg (by simp [h]), List.append_nil]
    exact (List.IsPrefix.eq_of_length (List.takeWhile_prefix p) heq).symm
  case isFalse => rfl

theorem parameterLength_wall (h : IsWall c) (xs ys : List Char) :
    parameterLength (xs ++ c :: ys) = parameterLength xs := by
  have hget : ∀ n ≤ xs.length, (xs ++ c :: ys)[n]? = some ':' ↔ xs[n]? = some ':' := by
    intro n hn
    rcases Nat.lt_or_eq_of_le hn with hlt | rfl
    · rw [List.getElem?_append_left hlt]
    · rw [List.getElem?_append_right (Nat.le_refl _), Nat.sub_self, List.getElem?_cons_zero,
        List.getElem?_eq_none (Nat.le_refl _)]
      simp [h.1]
  rw [parameterLength, parameterLength, takeWhile_wall h.word]
  simp only [hget _ (List.takeWhile_prefix _).length_le]

theorem dropParameters_before {before before' : Option Char}
    (h : opensParameter before = opensParameter before') (cs : List Char) :
    dropParameters before 0 cs = dropParameters before' 0 cs := by
  cases cs with
  | nil => rfl
  | cons c rest => rw [dropParameters_cons, dropParameters_cons, h]

theorem dropParameters_wall (h : IsWall c) (before : Option Char) {skip : ℕ} {xs : List Char}
    (hs : skip ≤ xs.length) (ys : List Char) :
    dropParameters before skip (xs ++ c :: ys) =
      dropParameters before skip xs ++ c :: dropParameters none 0 ys := by
  induction xs generalizing before skip with
  | nil =>
    obtain rfl : skip = 0 := Nat.le_zero.1 hs
    have hopens : opensParameter (some c) = opensParameter none := h.opens
    rw [List.nil_append, dropParameters_cons, if_neg fun hc => h.1 hc.1,
      dropParameters_before hopens]
    rfl
  | cons x rest ih =>
    cases skip with
    | succ n =>
      rw [List.cons_append, dropParameters_skip, dropParameters_skip]
      exact ih (some x) (Nat.le_of_succ_le_succ hs)
    | zero =>
      rw [List.cons_append, dropParameters_cons, dropParameters_cons, parameterLength_wall h]
      split
      · rw [ih (some x) (parameterLength_le rest), List.append_assoc]
      · rw [ih (some x) (Nat.zero_le _)]
        rfl

theorem isEscapedName_wall (h : IsWall c) (xs ys : List Char) :
    isEscapedName (xs ++ c :: ys) = isEscapedName xs := by
  cases xs with
  | nil =>
    rw [List.nil_append, isEscapedName]
    · rfl
    · rintro rest hsplit
      exact h.1 (List.cons.inj hsplit).1
  | cons x rest =>
    by_cases hx : x = ':'
    · subst hx
      have hhead : ((rest ++ c :: ys).dropWhile isWordOrDollar).head? = some ':' ↔
          (rest.dropWhile isWordOrDollar).head? = some ':' := by
        rw [List.dropWhile_append]
        split
        case isTrue hempty =>
          rw [List.isEmpty_iff.1 hempty, List.dropWhile_cons_of_neg (by simp [h.2.2.2])]
          simp [h.1]
        case isFalse hnonempty =>
          obtain ⟨y, tail, hdrop⟩ := List.exists_cons_of_ne_nil
            (fun hnil => hnonempty (by rw [hnil]; rfl) : rest.dropWhile isWordOrDollar ≠ [])
          rw [hdrop]
          rfl
      simp only [List.cons_append, isEscapedName, ne_eq, hhead]
    · have hother : ∀ zs, isEscapedName (x :: zs) = false := fun zs => by
        rw [isEscapedName]
        rintro tail hsplit
        exact hx (List.cons.inj hsplit).1
      rw [List.cons_append, hother, hother]

theorem dropEscapes_wall (h : IsWall c) (xs ys : List Char) :
    dropEscapes (xs ++ c :: ys) = dropEscapes xs ++ c :: dropEscapes ys := by
  induction xs with
  | nil => rw [List.nil_append, dropEscapes_cons, if_neg fun hc => h.2.1 hc.1]; rfl
  | cons x rest ih =>
    rw [List.cons_append, dropEscapes_cons, dropEscapes_cons, isEscapedName_wall h, ih]
    split <;> rfl

theorem fillTemplate_wall (d : Dialect) (h : IsWall c) (xs ys : List Char) :
    fillTemplate d (xs ++ c :: ys) = fillTemplate d xs ++ c :: fillTemplate d ys := by
  cases d with
  | sqlite => exact dropParameters_wall h none (Nat.zero_le _) ys
  | postgresql =>
    have hdouble : doublePercent (xs ++ c :: ys) = doublePercent xs ++ c :: doublePercent ys := by
      simp [doublePercent, h.2.2.1]
    rw [fillTemplate_postgresql, hdouble]
    exact dropParameters_wall h none (Nat.zero_le _) (doublePercent ys)

theorem expandChars_wall (d : Dialect) (h : IsWall c) (xs ys : List Char) :
    expandChars d (xs ++ c :: ys) = expandChars d xs ++ c :: expandChars d ys := by
  rw [expandChars, fillTemplate_wall d h, dropEscapes_wall h]
  rfl

/-! ## Quotes -/

theorem expandChars_of_plain (d : Dialect) (h : ∀ c ∈ cs, c ≠ ':' ∧ c ≠ '\\' ∧ c ≠ '%') :
    expandChars d cs = cs := by
  refine (expandChars_eq_self_iff d cs).2 ⟨?_, ?_, fun _ hin => (h '%' hin).2.2 rfl⟩
  · rintro ⟨front, rest, rfl, -⟩
    exact (h ':' (by simp)).1 rfl
  · rintro ⟨front, name, after, rfl, -⟩
    exact (h ':' (by simp)).1 rfl

theorem expandChars_nil (d : Dialect) : expandChars d [] = [] := expandChars_of_plain d nofun

theorem mem_dropParameters (before : Option Char) (skip : ℕ) {cs : List Char}
    (h : c ∈ dropParameters before skip cs) : c ∈ cs ∨ c ∈ "NULL".toList := by
  induction cs generalizing before skip with
  | nil => cases h
  | cons x rest ih =>
    have hmore : c ∈ rest ∨ c ∈ "NULL".toList → c ∈ x :: rest ∨ c ∈ "NULL".toList :=
      Or.imp_left (List.mem_cons_of_mem x)
    cases skip with
    | succ n => exact hmore (ih (some x) n h)
    | zero =>
      rw [dropParameters_cons] at h
      split at h
      · exact (List.mem_append.1 h).elim Or.inr fun hin => hmore (ih (some x) _ hin)
      · rcases List.mem_cons.1 h with rfl | hin
        · exact Or.inl List.mem_cons_self
        · exact hmore (ih (some x) 0 hin)

theorem quote_notMem_expandChars (d : Dialect) (h : '\'' ∉ cs) : '\'' ∉ expandChars d cs := by
  intro hin
  rw [← List.count_pos_iff, expandChars, count_dropEscapes (by decide), List.count_pos_iff] at hin
  have hfilled : '\'' ∉ doublePercent cs := by
    rwa [← List.count_eq_zero, count_doublePercent (by decide), List.count_eq_zero]
  cases d with
  | sqlite => exact (mem_dropParameters none 0 hin).elim h (by decide)
  | postgresql => exact (mem_dropParameters none 0 hin).elim hfilled (by decide)

theorem flatMap_doubleQuote_of_notMem (h : '\'' ∉ cs) : cs.flatMap doubleQuote = cs := by
  induction cs with
  | nil => rfl
  | cons c rest ih =>
    rw [List.mem_cons, not_or] at h
    rw [List.flatMap_cons, ih h.2, doubleQuote, if_neg (Ne.symm h.1)]
    rfl

/-- A template in quotes is what stands in the quotes, as a template. -/
theorem expandChars_doubleQuote (d : Dialect) (cs : List Char) :
    expandChars d (cs.flatMap doubleQuote) = (expandChars d cs).flatMap doubleQuote := by
  have hwall : IsWall '\'' := by decide
  induction hlen : cs.length using Nat.strong_induction_on generalizing cs with
  | _ n ih =>
    by_cases hin : '\'' ∈ cs
    · obtain ⟨xs, ys, rfl⟩ := List.append_of_mem hin
      rw [List.length_append, List.length_cons] at hlen
      have hdoubled : (xs ++ '\'' :: ys).flatMap doubleQuote =
          xs.flatMap doubleQuote ++ '\'' :: ([] ++ '\'' :: ys.flatMap doubleQuote) := by
        simp [doubleQuote]
      rw [hdoubled, expandChars_wall d hwall, expandChars_wall d hwall, expandChars_wall d hwall,
        ih _ (by omega) xs rfl, ih _ (by omega) ys rfl, expandChars_nil d]
      simp [doubleQuote]
    · rw [flatMap_doubleQuote_of_notMem hin,
        flatMap_doubleQuote_of_notMem (quote_notMem_expandChars d hin)]

/-- The same with what may follow the closing quote. -/
theorem expandTemplate_quoteLiteral (d : Dialect) (s ending : String)
    (he : expandChars d ending.toList = ending.toList) :
    expandTemplate d (quoteLiteral s ++ ending) = quoteLiteral (expandTemplate d s) ++ ending := by
  have hwall : IsWall '\'' := by decide
  have htext : ∀ t : String, (quoteLiteral t ++ ending).toList =
      [] ++ '\'' :: (t.toList.flatMap doubleQuote ++ '\'' :: ending.toList) := fun t => by
    simp [quoteLiteral]
  refine String.toList_inj.1 ?_
  rw [toList_expandTemplate, htext, htext, expandChars_wall d hwall, expandChars_wall d hwall,
    expandChars_doubleQuote, he, expandChars_nil d, toList_expandTemplate]

end SchemaLedger.Sql
