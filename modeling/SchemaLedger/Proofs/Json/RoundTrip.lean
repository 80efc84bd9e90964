import SchemaLedger.Proofs.Json.Number
import SchemaLedger.Proofs.Json.Text
import SchemaLedger.Proofs.Value.Sameness

set_option autoImplicit false

/-!
# Documents read back

What the printer writes, in a style that keeps objects in order, the reader reads as the same value,
but for names that stand twice in an object.
-/
namespace SchemaLedger.Json

/-! ## Words -/

variable {tail : List Char}

theorem afterWord?_eq (word : String) (cs : List Char) : afterWord? word cs =
    if word.toList <+: cs then some (cs.drop word.toList.length) else none := by
  have hl : word.length = word.toList.length := String.length_toList.symm
  have hp : cs.take word.toList.length = word.toList ↔ word.toList <+: cs := by
    rw [List.prefix_iff_eq_take]
    exact eq_comm
  simp only [afterWord?, hl, hp]

theorem readWord?_word {word : String} {v : Value} (hw : (word, v) ∈ words) :
    readWord? (word.toList ++ tail) = some (v, tail) := by
  simp only [words, List.mem_cons, List.not_mem_nil, or_false, Prod.mk.injEq] at hw
  rcases hw with ⟨rfl, rfl⟩ | ⟨rfl, rfl⟩ | ⟨rfl, rfl⟩ | ⟨rfl, rfl⟩ | ⟨rfl, rfl⟩ | ⟨rfl, rfl⟩
  all_goals simp [readWord?, words, afterWord?_eq]

theorem readWord?_of_number {cs : List Char} {r : Value × List Char}
    (h : readNumber? cs = some r) : readWord? cs = none := by
  obtain ⟨c, rest, hc, hcs⟩ := front_of_readNumber? h
  have hne : ∀ a : Char, a.isDigit = false → ¬a = c := by
    rintro a ha rfl
    exact absurd hc (by simp [ha])
  rcases hcs with rfl | rfl
  · simp [readWord?, words, afterWord?_eq, hne]
  · simp [readWord?, words, afterWord?_eq, hne 'I' rfl]

theorem readValue_word (word : String) {v : Value} (hw : (word, v) ∈ words) (fuel : Nat) :
    readValue (fuel + 1) (word.toList ++ tail) = .ok (v, tail) := by
  have hread : readWord? (word.toList ++ tail) = some (v, tail) := readWord?_word hw
  simp only [words, List.mem_cons, List.not_mem_nil, or_false, Prod.mk.injEq] at hw
  rw [readValue, hread]
  all_goals
    intro rest h
    rcases hw with ⟨rfl, -⟩ | ⟨rfl, -⟩ | ⟨rfl, -⟩ | ⟨rfl, -⟩ | ⟨rfl, -⟩ | ⟨rfl, -⟩
    all_goals simp at h

theorem readValue_number {cs : List Char} {r : Value × List Char} (h : readNumber? cs = some r)
    (fuel : Nat) : readValue (fuel + 1) cs = .ok r := by
  obtain ⟨c, rest, hc, hcs⟩ := front_of_readNumber? h
  have hne : ∀ a, (a = '"' ∨ a = '[' ∨ a = '\x7b') → ∀ tail, cs ≠ a :: tail := by
    rintro a ha tail rfl
    rcases hcs with hcons | hcons
    · rw [List.cons.injEq] at hcons
      rw [← hcons.1] at hc
      rcases ha with rfl | rfl | rfl <;> exact absurd hc (by decide)
    · rw [List.cons.injEq] at hcons
      rcases ha with rfl | rfl | rfl <;> exact absurd hcons.1 (by decide)
  rw [readValue, readWord?_of_number h, h]
  · exact hne _ (Or.inl rfl)
  · exact hne _ (Or.inr (Or.inl rfl))
  · exact hne _ (Or.inr (Or.inr rfl))

/-- A blank, a closing bracket or a byte order mark begins no value. -/
theorem front_of_readValue {fuel : Nat} {cs : List Char} {r : Value × List Char}
    (h : readValue fuel cs = .ok r) :
    ∃ c rest, cs = c :: rest ∧ isBlank c = false ∧ c ≠ ']' ∧ c ≠ '\uFEFF' := by
  by_contra hc
  have hfront : ∀ c rest, cs = c :: rest →
      c = ' ' ∨ c = '\t' ∨ c = '\n' ∨ c = '\r' ∨ c = ']' ∨ c = '\uFEFF' := by
    intro c rest hcs
    by_contra hne
    simp only [not_or] at hne
    exact hc ⟨c, rest, hcs, by simp [isBlank, hne], hne.2.2.2.2.1, hne.2.2.2.2.2⟩
  have hword : readWord? cs = none := by
    cases cs with
    | nil => simp [readWord?, words, afterWord?_eq]
    | cons c rest =>
      rcases hfront c rest rfl with rfl | rfl | rfl | rfl | rfl | rfl
      all_goals simp [readWord?, words, afterWord?_eq]
  have hnumber : readNumber? cs = none := by
    rw [← Option.not_isSome_iff_eq_none, Option.isSome_iff_exists]
    rintro ⟨r, hr⟩
    obtain ⟨d, rest, hd, hcs | hcs⟩ := front_of_readNumber? hr
    · rcases hfront d rest hcs with rfl | rfl | rfl | rfl | rfl | rfl <;> exact absurd hd (by decide)
    · exact absurd (hfront _ _ hcs) (by decide)
  cases fuel with
  | zero => cases h
  | succ fuel =>
    rw [readValue, hword, hnumber] at h
    · cases h
    all_goals
      rintro rest hcs
      exact absurd (hfront _ _ hcs) (by decide)

/-! ## Blanks and separators -/

/-- Nothing but blanks. -/
def Blank (cs : List Char) : Prop := ∀ c ∈ cs, isBlank c = true

theorem skipBlanks_append {bs : List Char} (hb : Blank bs) (cs : List Char) :
    skipBlanks (bs ++ cs) = skipBlanks cs := List.dropWhile_append_of_pos hb

theorem skipBlanks_cons {c : Char} (hc : isBlank c = false) (cs : List Char) :
    skipBlanks (c :: cs) = c :: cs := by
  rw [skipBlanks, List.dropWhile_cons_of_neg]
  simp [hc]

theorem ends_nil : Ends [] := nofun

theorem ends_cons {c : Char} (h : c.isDigit = false ∧ c ≠ '.' ∧ c ≠ 'e' ∧ c ≠ 'E')
    (cs : List Char) : Ends (c :: cs) := by
  rintro d ⟨⟩
  exact h

theorem ends_append {bs cs : List Char} (hb : Blank bs) (hc : Ends cs) : Ends (bs ++ cs) := by
  cases bs with
  | nil => exact hc
  | cons b rest =>
    have hblank := hb b List.mem_cons_self
    refine ends_cons ?_ _
    have : b = ' ' ∨ b = '\t' ∨ b = '\n' ∨ b = '\r' := by
      simpa [isBlank, or_assoc] using hblank
    rcases this with rfl | rfl | rfl | rfl <;> decide

/-- A style whose separators are a mark with blanks and which keeps the order of names. -/
structure Style.Readable (style : Style) : Prop where
  item : ∃ bs, Blank bs ∧ style.itemSeparator.toList = ',' :: bs
  name : ∃ bs, Blank bs ∧ style.nameSeparator.toList = ':' :: bs
  unsorted : style.sortNames = false

theorem readable_compact : Style.compact.Readable :=
  ⟨⟨[], by simp [Blank], rfl⟩, ⟨[], by simp [Blank], rfl⟩, rfl⟩

theorem readable_spaced : Style.spaced.Readable :=
  ⟨⟨[' '], by simp [Blank, isBlank], rfl⟩, ⟨[' '], by simp [Blank, isBlank], rfl⟩, rfl⟩

theorem readable_indented : Style.indented.Readable :=
  ⟨⟨[], by simp [Blank], rfl⟩, ⟨[' '], by simp [Blank, isBlank], rfl⟩, rfl⟩

theorem bracketed_nil (style : Style) (level : Nat) (opening closing : String) :
    bracketed style level opening closing [] = opening ++ closing :=
  if_pos rfl

/-- The same with blanks of any width around the items. -/
theorem toList_bracketed {style : Style} (hs : style.Readable) (level : Nat) (opening closing : String)
    {parts : List String} (hp : parts ≠ []) : ∃ inner bs outer, Blank inner ∧ Blank bs ∧ Blank outer ∧
      (bracketed style level opening closing parts).toList = opening.toList ++ (inner ++
        ((',' :: bs).intercalate (parts.map String.toList) ++ (outer ++ closing.toList))) := by
  obtain ⟨bs, hbs, hsep⟩ := hs.item
  have hblank : ∀ n, Blank ("\n" ++ String.ofList (List.replicate n ' ')).toList := by
    intro n c hc
    rw [String.toList_append] at hc
    rcases List.mem_append.1 hc with hc | hc
    · obtain rfl : c = '\n' := by simpa using hc
      rfl
    · rw [String.toList_ofList] at hc
      rw [List.eq_of_mem_replicate hc]
      rfl
  rw [bracketed, if_neg (by simpa using hp)]
  cases hi : style.indent with
  | none =>
    refine ⟨[], bs, [], by simp [Blank], hbs, by simp [Blank], ?_⟩
    simp [String.toList_intercalate, hsep]
  | some width =>
    have hinner := hblank (width * (level + 1))
    have houter := hblank (width * level)
    simp only
    generalize "\n" ++ String.ofList (List.replicate (width * (level + 1)) ' ') = inner at *
    generalize "\n" ++ String.ofList (List.replicate (width * level) ' ') = outer at *
    refine ⟨inner.toList, bs ++ inner.toList, outer.toList, hinner, fun c hc => ?_, houter, ?_⟩
    · exact (List.mem_append.1 hc).elim (hbs c) (hinner c)
    · simp [String.toList_intercalate, hsep]

/-! ## Values -/

/-- Whether the printer writes a value so that nothing of it is lost. -/
def Style.keeps (style : Style) : Value → Bool
  | .float x => !style.finiteOnly || x.isFinite
  | .bytes _ => false
  | .date _ => false
  | .timestamp _ => false
  | .uuid _ => false
  | _ => true

mutual

/-- The value with the last content of each repeated name. -/
def reread : Value → Value
  | .list items => .list (rereadItems items)
  | .object entries => .object (Entries.ofPairs (rereadEntries entries))
  | v => v

def rereadItems : List Value → List Value
  | [] => []
  | v :: rest => reread v :: rereadItems rest

def rereadEntries : List (String × Value) → List (String × Value)
  | [] => []
  | (name, v) :: rest => (name, reread v) :: rereadEntries rest

end

theorem renderItems_eq (style : Style) (level : Nat) (items : List Value) :
    renderItems style level items = items.map (renderAt style level) := by
  induction items with
  | nil => rfl
  | cons v rest ih => rw [renderItems, ih, List.map_cons]

theorem renderEntries_eq (style : Style) (level : Nat) (entries : List (String × Value)) :
    renderEntries style level entries = entries.map fun x => (x.1, renderAt style level x.2) := by
  induction entries with
  | nil => rfl
  | cons x rest ih => rw [renderEntries, ih, List.map_cons]

theorem intercalate_cons (sep x : List Char) (rest : List (List Char)) : sep.intercalate (x :: rest) =
    if rest = [] then x else x ++ sep ++ sep.intercalate rest := by
  split
  case isTrue h => rw [h, List.intercalate_singleton]
  case isFalse h => rw [List.intercalate_cons_of_ne_nil h, List.append_assoc]

theorem readValue_float {style : Style} {x : Double} (hx : style.keeps (.float x) = true) {fuel : Nat}
    (ht : Ends tail) : readValue (fuel + 1) ((number style x).toList ++ tail) =
      .ok (.float x, tail) := by
  have hfin : ¬(style.finiteOnly ∧ !x.isFinite) := by
    rintro ⟨h1, h2⟩
    simp [Style.keeps, h1] at hx
    simp [hx] at h2
  cases x with
  | nan =>
    simp only [number, if_neg hfin]
    exact readValue_word "NaN" (by simp [words]) fuel
  | infinity negative =>
    simp only [number, if_neg hfin]
    cases negative with
    | false => exact readValue_word "Infinity" (by simp [words]) fuel
    | true => exact readValue_word "-Infinity" (by simp [words]) fuel
  | finite negative m =>
    simp only [number, if_neg hfin]
    exact readValue_number (readNumber?_float style.numbers negative m ht) fuel

theorem readValue_text (asciiOnly : Bool) (s : String) (fuel : Nat) :
    readValue (fuel + 1) ((quote asciiOnly s).toList ++ tail) = .ok (.text s, tail) := by
  rw [toList_quote, List.cons_append, List.append_assoc, readValue, List.singleton_append,
    readString_escaped_text]
  simp [bind, Except.bind]

/-! ## Lists and objects -/

section Nested

variable {fuel : Nat} {cs rest : List Char} {v : Value}

theorem front_of_readItems {r : List Value × List Char} (h : readItems fuel cs = .ok r) :
    ∃ c rest, cs = c :: rest ∧ isBlank c = false ∧ c ≠ ']' ∧ c ≠ '\uFEFF' := by
  cases fuel with
  | zero => cases h
  | succ fuel =>
    rw [readItems, Outcome.bind_eq_ok] at h
    obtain ⟨x, hx, -⟩ := h
    exact front_of_readValue hx

theorem front_of_readEntries {r : List (String × Value) × List Char}
    (h : readEntries fuel cs = .ok r) : ∃ rest, cs = '"' :: rest := by
  cases fuel with
  | zero => cases h
  | succ fuel =>
    by_contra hc
    rw [readEntries] at h
    · cases h
    · exact fun rest hr => hc ⟨rest, hr⟩

theorem length_pos_of_readValue {r : Value × List Char} (h : readValue fuel (cs ++ []) = .ok r) :
    0 < cs.length := by
  obtain ⟨c, rest, hcs, -⟩ := front_of_readValue h
  rw [List.append_nil] at hcs
  rw [hcs]
  exact Nat.succ_pos _

theorem readValue_list {items : List Value} {X : List Char} (hX : skipBlanks cs = X)
    (h : readItems fuel X = .ok (items, rest)) :
    readValue (fuel + 1) ('[' :: cs) = .ok (.list items, rest) := by
  obtain ⟨c, after, rfl, -, hc, -⟩ := front_of_readItems h
  rw [readValue, hX]
  split
  case h_1 heq => exact absurd (List.cons.inj heq).1 hc
  case h_2 =>
    rw [h]
    rfl

theorem readValue_object {entries : List (String × Value)} {X : List Char}
    (hX : skipBlanks cs = X) (h : readEntries fuel X = .ok (entries, rest)) :
    readValue (fuel + 1) ('\x7b' :: cs) = .ok (.object (Entries.ofPairs entries), rest) := by
  obtain ⟨after, rfl⟩ := front_of_readEntries h
  rw [readValue, hX]
  split
  case h_1 heq => exact absurd (List.cons.inj heq).1 (by decide)
  case h_2 =>
    rw [h]
    rfl

theorem readValue_list_nil (fuel : Nat) :
    readValue (fuel + 1) ('[' :: ']' :: rest) = .ok (.list [], rest) := by
  rw [readValue, skipBlanks_cons rfl]
  rfl

theorem readValue_object_nil (fuel : Nat) :
    readValue (fuel + 1) ('\x7b' :: '\x7d' :: rest) = .ok (.object [], rest) := by
  rw [readValue, skipBlanks_cons rfl]
  rfl

theorem readItems_last {after : List Char} (hv : readValue fuel cs = .ok (v, rest))
    (hr : skipBlanks rest = ']' :: after) : readItems (fuel + 1) cs = .ok ([v], after) := by
  rw [readItems, hv]
  simp only [bind, Except.bind, hr]

theorem readItems_more {after tail : List Char} {items : List Value}
    (hv : readValue fuel cs = .ok (v, rest)) (hr : skipBlanks rest = ',' :: after)
    (h : readItems fuel (skipBlanks after) = .ok (items, tail)) :
    readItems (fuel + 1) cs = .ok (v :: items, tail) := by
  rw [readItems, hv]
  simp only [bind, Except.bind, hr, h]

theorem readEntries_last {name : String} {contents after tail : List Char}
    (hn : readString (cs.length + 1) cs = .ok (name.toList, rest))
    (hc : skipBlanks rest = ':' :: contents)
    (hv : readValue fuel (skipBlanks contents) = .ok (v, after))
    (hr : skipBlanks after = '\x7d' :: tail) :
    readEntries (fuel + 1) ('"' :: cs) = .ok ([(name, v)], tail) := by
  rw [readEntries, hn]
  simp only [bind, Except.bind, hc, hv, hr, String.ofList_toList]

theorem readEntries_more {name : String} {contents after more tail : List Char}
    {entries : List (String × Value)}
    (hn : readString (cs.length + 1) cs = .ok (name.toList, rest))
    (hc : skipBlanks rest = ':' :: contents)
    (hv : readValue fuel (skipBlanks contents) = .ok (v, after))
    (hr : skipBlanks after = ',' :: more)
    (h : readEntries fuel (skipBlanks more) = .ok (entries, tail)) :
    readEntries (fuel + 1) ('"' :: cs) = .ok ((name, v) :: entries, tail) := by
  rw [readEntries, hn]
  simp only [bind, Except.bind, hc, hv, hr, h, String.ofList_toList]

end Nested

/-! ## Values -/

variable {style : Style}

/-- The texts of entries, the first of them taken apart. -/
theorem toList_arranged_cons (hs : style.Readable) {ns : List Char}
    (hname : style.nameSeparator.toList = ':' :: ns) (level : Nat) (name : String) (v : Value)
    (rest : List (String × Value)) :
    (arranged style (renderEntries style level ((name, v) :: rest))).map String.toList =
      ('"' :: (name.toList.flatMap (escapeChar style.asciiOnly) ++ '"' :: ':' ::
        (ns ++ (renderAt style level v).toList))) ::
          (arranged style (renderEntries style level rest)).map String.toList := by
  simp [arranged, hs.unsorted, renderEntries, toList_quote, hname]

mutual

theorem readValue_render (hs : style.Readable) (v : Value) (hv : v.everywhere style.keeps = true)
    (level fuel : Nat) {tail : List Char} (ht : Ends tail)
    (hf : 2 * (renderAt style level v).toList.length ≤ fuel + 1) :
    readValue (fuel + 1) ((renderAt style level v).toList ++ tail) = .ok (reread v, tail) := by
  cases v with
  | null => exact readValue_word "null" (by simp [words, reread]) fuel
  | bool b =>
    cases b with
    | false => exact readValue_word "false" (by simp [words, reread]) fuel
    | true => exact readValue_word "true" (by simp [words, reread]) fuel
  | int n => exact readValue_number (readNumber?_int n ht) fuel
  | float x => exact readValue_float hv ht
  | text s => exact readValue_text style.asciiOnly s fuel
  | list items =>
    rw [Value.everywhere, Bool.and_eq_true] at hv
    by_cases hn : items = []
    · subst hn
      rw [renderAt, renderItems, bracketed_nil]
      exact readValue_list_nil fuel
    · have hparts : renderItems style (level + 1) items ≠ [] := by
        rw [renderItems_eq]
        simpa using hn
      obtain ⟨inner, bs, outer, hi, hb, ho, htext⟩ := toList_bracketed hs level "[" "]" hparts
      rw [renderAt, htext] at hf ⊢
      have hbr : "[".toList = ['['] ∧ "]".toList = [']'] := ⟨rfl, rfl⟩
      rw [hbr.1, hbr.2] at hf ⊢
      simp only [List.length_append, List.length_singleton] at hf
      have hread := readItems_render hs items hn hv.2 (level + 1) fuel hb ho tail (by omega)
      obtain ⟨c, rest, hX, hc, -⟩ := front_of_readItems hread
      simp only [List.append_assoc, List.cons_append, List.nil_append]
      refine readValue_list ?_ hread
      rw [skipBlanks_append hi, hX, skipBlanks_cons hc]
  | object entries =>
    rw [Value.everywhere, Bool.and_eq_true] at hv
    by_cases hn : entries = []
    · subst hn
      have harranged : arranged style [] = [] := by
        rw [arranged, hs.unsorted]
        rfl
      rw [renderAt, renderEntries, harranged, bracketed_nil]
      exact readValue_object_nil fuel
    · have hparts : arranged style (renderEntries style (level + 1) entries) ≠ [] := by
        rw [arranged, hs.unsorted, renderEntries_eq]
        simpa using hn
      obtain ⟨inner, bs, outer, hi, hb, ho, htext⟩ :=
        toList_bracketed hs level "\x7b" "\x7d" hparts
      rw [renderAt, htext] at hf ⊢
      have hbr : "\x7b".toList = ['\x7b'] ∧ "\x7d".toList = ['\x7d'] := ⟨rfl, rfl⟩
      rw [hbr.1, hbr.2] at hf ⊢
      simp only [List.length_append, List.length_singleton] at hf
      have hread := readEntries_render hs entries hn hv.2 (level + 1) fuel hb ho tail (by omega)
      obtain ⟨rest, hX⟩ := front_of_readEntries hread
      simp only [List.append_assoc, List.cons_append, List.nil_append]
      refine readValue_object ?_ hread
      rw [skipBlanks_append hi, hX, skipBlanks_cons rfl]
  | _ => simp [Value.everywhere, Style.keeps] at hv

theorem readItems_render (hs : style.Readable) (items : List Value) (hn : items ≠ [])
    (hv : Value.everywhereItems style.keeps items = true) (level fuel : Nat) {bs outer : List Char}
    (hb : Blank bs) (ho : Blank outer) (tail : List Char)
    (hf : 2 * ((',' :: bs).intercalate ((renderItems style level items).map
      String.toList)).length < fuel) :
    readItems fuel ((',' :: bs).intercalate ((renderItems style level items).map String.toList) ++
      (outer ++ ']' :: tail)) = .ok (rereadItems items, tail) := by
  match items with
  | v :: rest =>
    rw [Value.everywhereItems, Bool.and_eq_true] at hv
    obtain ⟨fuel, rfl⟩ : ∃ k, fuel = k + 2 := by
      have hpos := length_pos_of_readValue
        (readValue_render hs v hv.1 level _ ends_nil (Nat.le_succ _))
      rw [renderItems, List.map_cons, intercalate_cons] at hf
      refine ⟨fuel - 2, ?_⟩
      split at hf
      case isTrue => omega
      case isFalse =>
        simp only [List.length_append] at hf
        omega
    rw [renderItems, List.map_cons, intercalate_cons] at hf ⊢
    split at hf
    case isTrue hnil =>
      have hrest : rest = [] := by
        rw [List.map_eq_nil_iff, renderItems_eq, List.map_eq_nil_iff] at hnil
        exact hnil
      rw [if_pos hnil]
      subst hrest
      have hend : Ends (outer ++ ']' :: tail) := ends_append ho (ends_cons (by decide) _)
      have hread := readValue_render hs v hv.1 level fuel hend (by omega)
      refine readItems_last hread ?_
      rw [skipBlanks_append ho, skipBlanks_cons rfl]
    case isFalse hne =>
      have hrest : rest ≠ [] := by
        rintro rfl
        exact hne rfl
      rw [if_neg hne]
      simp only [List.length_append, List.length_cons] at hf
      have hmore := readItems_render hs rest hrest hv.2 level (fuel + 1) hb ho tail (by omega)
      obtain ⟨c, after, hX, hc, -⟩ := front_of_readItems hmore
      have hend : ∀ cs, Ends (',' :: cs) := ends_cons (by decide)
      have hread := fun cs => readValue_render hs v hv.1 level fuel (hend cs) (by omega)
      rw [List.append_assoc, List.append_assoc, List.cons_append]
      refine readItems_more (hread _) (skipBlanks_cons rfl _) ?_
      rw [skipBlanks_append hb, hX, skipBlanks_cons hc, ← hX]
      exact hmore

theorem readEntries_render (hs : style.Readable) (entries : List (String × Value))
    (hn : entries ≠ []) (hv : Value.everywhereEntries style.keeps entries = true)
    (level fuel : Nat) {bs outer : List Char} (hb : Blank bs) (ho : Blank outer)
    (tail : List Char) (hf : 2 * ((',' :: bs).intercalate ((arranged style
      (renderEntries style level entries)).map String.toList)).length < fuel) :
    readEntries fuel ((',' :: bs).intercalate ((arranged style
      (renderEntries style level entries)).map String.toList) ++ (outer ++ '\x7d' :: tail)) =
        .ok (rereadEntries entries, tail) := by
  match entries with
  | (name, v) :: rest =>
    rw [Value.everywhereEntries, Bool.and_eq_true] at hv
    obtain ⟨ns, hns, hname⟩ := hs.name
    rw [toList_arranged_cons hs hname, intercalate_cons] at hf ⊢
    obtain ⟨c, cs, htext, hc⟩ : ∃ c cs, (renderAt style level v).toList = c :: cs ∧
        isBlank c = false := by
      have h := readValue_render hs v hv.1 level _ ends_nil (Nat.le_succ _)
      rw [List.append_nil] at h
      obtain ⟨c, cs, h, hc, -⟩ := front_of_readValue h
      exact ⟨c, cs, h, hc⟩
    have hcontent : ∀ tail, skipBlanks (ns ++ ((renderAt style level v).toList ++ tail)) =
        (renderAt style level v).toList ++ tail := by
      intro tail
      rw [skipBlanks_append hns, htext, List.cons_append, skipBlanks_cons hc]
    have hlen : 0 < (renderAt style level v).toList.length := by
      rw [htext]
      exact Nat.succ_pos _
    obtain ⟨fuel, rfl⟩ : ∃ k, fuel = k + 2 := by
      refine ⟨fuel - 2, ?_⟩
      split at hf <;> simp at hf <;> omega
    split at hf
    case isTrue hnil =>
      have hrest : rest = [] := by
        rw [List.map_eq_nil_iff, arranged, hs.unsorted, renderEntries_eq] at hnil
        simpa using hnil
      rw [if_pos hnil]
      subst hrest
      have hend : Ends (outer ++ '\x7d' :: tail) := ends_append ho (ends_cons (by decide) _)
      simp only [List.length_cons, List.length_append] at hf
      have hread := readValue_render hs v hv.1 level fuel hend (by omega)
      simp only [List.cons_append, List.append_assoc]
      refine readEntries_last (readString_escaped_text _ _ _) (skipBlanks_cons rfl _)
        ((congrArg _ (hcontent _)).trans hread) ?_
      rw [skipBlanks_append ho, skipBlanks_cons rfl]
    case isFalse hne =>
      have hrest : rest ≠ [] := by
        rintro rfl
        apply hne
        rw [arranged, hs.unsorted]
        rfl
      rw [if_neg hne]
      simp only [List.length_append, List.length_cons] at hf
      have hmore := readEntries_render hs rest hrest hv.2 level (fuel + 1) hb ho tail (by omega)
      obtain ⟨after, hX⟩ := front_of_readEntries hmore
      have hend : ∀ cs, Ends (',' :: cs) := ends_cons (by decide)
      have hread := fun cs => readValue_render hs v hv.1 level fuel (hend cs) (by omega)
      simp only [List.cons_append, List.append_assoc]
      refine readEntries_more (readString_escaped_text _ _ _) (skipBlanks_cons rfl _)
        ((congrArg _ (hcontent _)).trans (hread _)) (skipBlanks_cons rfl _) ?_
      rw [skipBlanks_append hb, hX, skipBlanks_cons rfl, ← hX]
      exact hmore

end

/-- Blanks may follow the document. -/
theorem read_render_blank (hs : style.Readable) {v : Value} (hv : v.everywhere style.keeps = true)
    {blanks : String} (hb : Blank blanks.toList) :
    read (render style v ++ blanks) = .ok (reread v) := by
  have hends : Ends blanks.toList := by simpa using ends_append hb ends_nil
  have h := readValue_render hs v hv 0 (2 * (render style v ++ blanks).toList.length + 1) hends
    (by rw [render, String.toList_append, List.length_append]; omega)
  obtain ⟨c, cs, hcs, hblank, -, hmark⟩ := front_of_readValue h
  rw [← render, ← String.toList_append] at h hcs
  have hskip : skipBlanks (c :: cs) = c :: cs := skipBlanks_cons hblank cs
  have hrest : skipBlanks blanks.toList = [] := by
    simpa [skipBlanks] using skipBlanks_append hb []
  rw [read, Outcome.mapError_eq_ok, readDocument.eq_def]
  split
  case h_1 heq =>
    rw [hcs] at heq
    exact absurd (List.cons.inj heq).1 hmark
  case h_2 =>
    rw [hcs] at h ⊢
    rw [hskip, h]
    simp only [bind, Except.bind, hrest]

theorem read_render (hs : style.Readable) {v : Value} (hv : v.everywhere style.keeps = true) :
    read (render style v) = .ok (reread v) := by
  have hb : Blank "".toList := by simp [Blank]
  have h := read_render_blank hs hv hb
  rwa [String.append_empty] at h

/-! ## Values without repeated names -/

mutual

theorem reread_self (v : Value) (hv : v.wellFormed = true) : reread v = v := by
  cases v with
  | list items =>
    simp only [Value.wellFormed, Value.everywhere, Bool.and_eq_true] at hv
    rw [reread, rereadItems_self items hv.2]
  | object entries =>
    simp only [Value.wellFormed, Value.everywhere, Bool.and_eq_true] at hv
    rw [reread, rereadEntries_self entries hv.2, Entries.ofPairs_of_nodup (of_decide_eq_true hv.1)]
  | _ => rfl

theorem rereadItems_self (items : List Value)
    (hv : Value.everywhereItems Value.namesOnce items = true) : rereadItems items = items := by
  cases items with
  | nil => rfl
  | cons v rest =>
    rw [Value.everywhereItems, Bool.and_eq_true] at hv
    rw [rereadItems, reread_self v hv.1, rereadItems_self rest hv.2]

theorem rereadEntries_self (entries : List (String × Value))
    (hv : Value.everywhereEntries Value.namesOnce entries = true) :
    rereadEntries entries = entries := by
  match entries with
  | [] => rfl
  | (name, v) :: rest =>
    rw [Value.everywhereEntries, Bool.and_eq_true] at hv
    rw [rereadEntries, reread_self v hv.1, rereadEntries_self rest hv.2]

end

theorem rereadItems_eq (items : List Value) : rereadItems items = items.map reread := by
  induction items with
  | nil => rfl
  | cons v rest ih => rw [rereadItems, ih, List.map_cons]

theorem rereadEntries_eq (entries : List (String × Value)) :
    rereadEntries entries = entries.map fun x => (x.1, reread x.2) := by
  induction entries with
  | nil => rfl
  | cons x rest ih => rw [rereadEntries, ih, List.map_cons]

end SchemaLedger.Json
