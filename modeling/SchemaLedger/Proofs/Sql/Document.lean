import Mathlib.Data.Prod.Lex
import SchemaLedger.Proofs.Json.Scan
import SchemaLedger.Proofs.Json.Stored
import SchemaLedger.Proofs.Sql.Template
import SchemaLedger.Proofs.Value.Texts

set_option autoImplicit false

/-!
# Documents as templates

A document that is a template stays a document when its parameters are replaced and its percent signs
doubled: its texts change, each by itself. If its escapes change too, no reader takes it any more. So
a document whose meaning stays the same stays as it is.
-/
namespace SchemaLedger.Sql

open Json (Inert)

variable {d : Dialect} {cs xs ys : List Char} {c : Char} {before : Option Char} {skip : ℕ}

/-! ## Escaped texts -/

/-- The characters of a text inside a document. -/
def escapes (cs : List Char) : List Char := cs.flatMap (Json.escapeChar true)

theorem escapes_cons (c : Char) (rest : List Char) :
    escapes (c :: rest) = Json.escapeChar true c ++ escapes rest := List.flatMap_cons

theorem escapes_append (xs ys : List Char) : escapes (xs ++ ys) = escapes xs ++ escapes ys :=
  List.flatMap_append

theorem plain_escapeUnit (n : ℕ) : ':' ∉ Json.escapeUnit n ∧ '%' ∉ Json.escapeUnit n := by
  have hdigit := Text.isSome_of_hexFrom? (Text.hexFrom?_hex 4 n)
  have hne : ∀ a, Uuid.hexValue? a = none → a ∉ Text.hex 4 n := fun a ha hin => by
    have hsome := hdigit a hin
    rw [ha] at hsome
    cases hsome
  simp [Json.escapeUnit, hne ':' (by decide), hne '%' (by decide)]

/-- A character stands for itself, or behind a backslash for another one than a colon or a percent
sign. -/
theorem escapeChar_cases (c : Char) : Json.escapeChar true c = [c] ∨
    c ≠ ':' ∧ c ≠ '%' ∧ ∃ tail, Json.escapeChar true c = '\\' :: tail ∧ ':' ∉ tail ∧ '%' ∉ tail := by
  unfold Json.escapeChar
  split
  case h_8 =>
    split
    case isFalse => exact Or.inl rfl
    case isTrue hcode =>
      refine Or.inr ⟨?_, ?_, ?_⟩
      · rintro rfl
        exact absurd hcode (by decide)
      · rintro rfl
        exact absurd hcode (by decide)
      · rw [Json.escapeCodePoint]
        dsimp only
        split
        · have hunit := plain_escapeUnit c.toNat
          exact ⟨_, rfl, fun h => hunit.1 (List.mem_cons_of_mem _ h),
            fun h => hunit.2 (List.mem_cons_of_mem _ h)⟩
        · generalize 0xD800 + (c.toNat - 0x10000) / 0x400 = high
          generalize 0xDC00 + (c.toNat - 0x10000) % 0x400 = low
          have hhigh := plain_escapeUnit high
          have hlow := plain_escapeUnit low
          refine ⟨'u' :: Text.hex 4 high ++ Json.escapeUnit low, rfl, ?_, ?_⟩
          · rw [List.mem_append, not_or]
            exact ⟨fun h => hhigh.1 (List.mem_cons_of_mem _ h), hlow.1⟩
          · rw [List.mem_append, not_or]
            exact ⟨fun h => hhigh.2 (List.mem_cons_of_mem _ h), hlow.2⟩
  all_goals exact Or.inr ⟨by decide, by decide, _, rfl, by decide, by decide⟩

theorem count_escapes (hc : c = ':' ∨ c = '%') (cs : List Char) :
    (escapes cs).count c = cs.count c := by
  induction cs with
  | nil => rfl
  | cons x rest ih =>
    rw [escapes_cons, List.count_append, ih, List.count_cons, Nat.add_comm]
    congr 1
    rcases escapeChar_cases x with h | ⟨hcolon, hpercent, tail, h, htail⟩
    · rw [h, List.count_singleton]
    · have hx : x ≠ c := by rcases hc with rfl | rfl <;> assumption
      have hzero : (Json.escapeChar true x).count c = 0 := by
        rw [h, List.count_eq_zero, List.mem_cons, not_or]
        rcases hc with rfl | rfl
        · exact ⟨by decide, htail.1⟩
        · exact ⟨by decide, htail.2⟩
      rw [hzero, if_neg (by simpa using hx)]

theorem escapes_injective (h : escapes xs = escapes ys) : xs = ys := by
  have hread : ∀ zs, Json.readString 0 (escapes zs ++ '"' :: []) = .ok (zs, []) :=
    fun zs => Json.readString_escaped_text true zs []
  have hx := hread xs
  rw [h, hread ys] at hx
  exact (Prod.mk.inj (Except.ok.inj hx)).1.symm

theorem dropParameters_append (h : ':' ∉ xs) (before : Option Char) (ys : List Char) :
    ∃ before', dropParameters before 0 (xs ++ ys) = xs ++ dropParameters before' 0 ys := by
  induction xs generalizing before with
  | nil => exact ⟨before, rfl⟩
  | cons x rest ih =>
    rw [List.mem_cons, not_or] at h
    obtain ⟨before', hrest⟩ := ih h.2 (some x)
    refine ⟨before', ?_⟩
    rw [List.cons_append, dropParameters_cons, if_neg fun hx => h.1 hx.1.symm, hrest]
    rfl

/-- Parameters of an escaped text are replaced in the text: none reaches into an escape, for no word
has a backslash in it. -/
theorem exists_dropParameters_escapes (before : Option Char) (skip : ℕ) {cs : List Char}
    (hs : skip ≤ ((escapes cs).takeWhile Text.isWordChar).length) :
    ∃ ds, dropParameters before skip (escapes cs) = escapes ds := by
  induction cs generalizing before skip with
  | nil => exact ⟨[], rfl⟩
  | cons c rest ih =>
    rw [escapes_cons] at hs ⊢
    rcases escapeChar_cases c with hplain | ⟨-, -, tail, hescape, htail, -⟩
    · rw [hplain, List.singleton_append] at hs ⊢
      cases skip with
      | succ n =>
        have hword : Text.isWordChar c = true := by
          by_contra hno
          rw [List.takeWhile_cons_of_neg hno] at hs
          exact Nat.not_succ_le_zero n hs
        rw [List.takeWhile_cons_of_pos hword, List.length_cons] at hs
        exact ih (some c) n (Nat.le_of_succ_le_succ hs)
      | zero =>
        rw [dropParameters_cons]
        split
        case isTrue =>
          obtain ⟨ds, hds⟩ := ih (some c) _ (parameterLength_le_word (escapes rest))
          refine ⟨"NULL".toList ++ ds, ?_⟩
          rw [hds, escapes_append]
          rfl
        case isFalse =>
          obtain ⟨ds, hds⟩ := ih (some c) 0 (Nat.zero_le _)
          exact ⟨c :: ds, by rw [hds, escapes_cons, hplain, List.singleton_append]⟩
    · rw [hescape, List.cons_append, List.takeWhile_cons_of_neg (by decide)] at hs
      obtain rfl : skip = 0 := Nat.le_zero.1 hs
      have hcolon : ':' ∉ Json.escapeChar true c := by
        rw [hescape, List.mem_cons, not_or]
        exact ⟨by decide, htail⟩
      obtain ⟨before', hrest⟩ := dropParameters_append hcolon before (escapes rest)
      obtain ⟨ds, hds⟩ := ih before' 0 (Nat.zero_le _)
      exact ⟨c :: ds, by rw [hrest, hds, escapes_cons]⟩

theorem doublePercent_append (xs ys : List Char) :
    doublePercent (xs ++ ys) = doublePercent xs ++ doublePercent ys := List.flatMap_append

theorem doublePercent_escapes (cs : List Char) :
    doublePercent (escapes cs) = escapes (doublePercent cs) := by
  induction cs with
  | nil => rfl
  | cons c rest ih =>
    rw [escapes_cons, doublePercent_append, doublePercent_cons, escapes_append, ih]
    congr 1
    by_cases hc : c = '%'
    · subst hc
      rfl
    · have hnone : '%' ∉ Json.escapeChar true c := by
        rcases escapeChar_cases c with h | ⟨-, -, tail, h, -, htail⟩
        · simpa [h] using Ne.symm hc
        · simp [h, htail]
      rw [doublePercent_of_notMem hnone, if_neg hc, escapes, List.flatMap_singleton]

theorem exists_fillTemplate_escapes (d : Dialect) (cs : List Char) :
    ∃ ds, fillTemplate d (escapes cs) = escapes ds := by
  cases d with
  | sqlite => exact exists_dropParameters_escapes none 0 (Nat.zero_le _)
  | postgresql =>
    rw [fillTemplate_postgresql, doublePercent_escapes]
    exact exists_dropParameters_escapes none 0 (Nat.zero_le _)

/-- How much of a text is left to change: its colons, then the percent signs that it does not have. -/
def templateWeight (s : String) : ℕ ×ₗ ℕᵒᵈ :=
  toLex (s.toList.count ':', OrderDual.toDual (s.toList.count '%'))

/-- What the texts of a document become, each by itself. -/
theorem exists_fillTexts (d : Dialect) : ∃ g : String → String, ∀ s,
    fillTemplate d (escapes s.toList) = escapes (g s).toList ∧
      (g s = s ∨ templateWeight (g s) < templateWeight s) := by
  have hone : ∀ s : String, ∃ t : String, fillTemplate d (escapes s.toList) = escapes t.toList ∧
      (t = s ∨ templateWeight t < templateWeight s) := by
    intro s
    obtain ⟨ds, hds⟩ := exists_fillTemplate_escapes d s.toList
    have hlist : (String.ofList ds).toList = ds := String.toList_ofList
    refine ⟨String.ofList ds, by rw [hds, hlist], ?_⟩
    have hcases := fillTemplate_cases d (escapes s.toList)
    simp only [hds, count_escapes (Or.inl rfl), count_escapes (Or.inr rfl)] at hcases
    rw [templateWeight, templateWeight, hlist, Prod.Lex.lt_iff]
    rcases hcases with hless | ⟨hsame, hmore⟩ | hsame
    · exact Or.inr (Or.inl hless)
    · exact Or.inr (Or.inr ⟨hsame, OrderDual.toDual_lt_toDual.2 hmore⟩)
    · exact Or.inl (String.toList_inj.1 (hlist.trans (escapes_injective hsame)))
  choose g hg using hone
  exact ⟨g, hg⟩

/-! ## Documents filled in -/

theorem fillTemplate_of_inert (d : Dialect) (h : ∀ c ∈ cs, Inert c) : fillTemplate d cs = cs := by
  refine (fillTemplate_eq_self_iff d cs).2 ⟨?_, fun _ hin => (h '%' hin).2.2 rfl⟩
  rintro ⟨front, rest, rfl, -⟩
  exact (h ':' (by simp)).1 rfl

theorem fillTemplate_nil (d : Dialect) : fillTemplate d [] = [] := fillTemplate_of_inert d nofun

theorem fillTemplate_wall_cons (d : Dialect) (h : IsWall c) (ys : List Char) :
    fillTemplate d (c :: ys) = c :: fillTemplate d ys := by
  have hsplit := fillTemplate_wall d h [] ys
  rwa [fillTemplate_nil d] at hsplit

theorem fillTemplate_enclosed (d : Dialect) {opening closing : Char} (ho : IsWall opening)
    (hc : IsWall closing) (xs : List Char) :
    fillTemplate d (opening :: (xs ++ [closing])) = opening :: (fillTemplate d xs ++ [closing]) := by
  rw [fillTemplate_wall_cons d ho, fillTemplate_wall d hc, fillTemplate_nil d]

theorem fillTemplate_intercalate (d : Dialect) (parts : List (List Char)) :
    fillTemplate d ([',', ' '].intercalate parts) =
      [',', ' '].intercalate (parts.map (fillTemplate d)) := by
  induction parts with
  | nil => exact fillTemplate_nil d
  | cons x rest ih =>
    rw [List.map_cons, Json.intercalate_cons, Json.intercalate_cons]
    by_cases hrest : rest = []
    · rw [if_pos hrest, if_pos (by rw [hrest, List.map_nil])]
    · rw [if_neg hrest, if_neg (by simpa using hrest), List.append_assoc, List.cons_append,
        fillTemplate_wall d (by decide), List.singleton_append,
        fillTemplate_wall_cons d (by decide), ih, List.append_assoc]
      rfl

theorem toList_bracketed_spaced (level : ℕ) (opening closing : String) (parts : List String) :
    (Json.bracketed .spaced level opening closing parts).toList =
      opening.toList ++ ([',', ' '].intercalate (parts.map String.toList) ++ closing.toList) := by
  rw [Json.bracketed]
  split
  case isTrue hempty =>
    rw [List.isEmpty_iff.1 hempty]
    simp
  case isFalse =>
    simp [Json.Style.spaced, String.toList_intercalate]

/-- The text of an entry: its name in quotes, a colon and a blank, and its content. -/
theorem toList_arranged_spaced (entries : List (String × Value)) (level : ℕ) :
    (Json.arranged .spaced (Json.renderEntries .spaced level entries)).map String.toList =
      entries.map fun x => '"' :: (escapes x.1.toList ++ '"' :: ([':'] ++ ' ' ::
        (Json.renderAt .spaced level x.2).toList)) := by
  have hunsorted : Json.Style.spaced.sortNames = false := rfl
  rw [Json.arranged, hunsorted, Json.renderEntries_eq]
  simp only [Bool.false_eq_true, if_false, List.map_map]
  refine List.map_congr_left fun x _ => ?_
  simp only [Function.comp, String.toList_append, Json.toList_quote, escapes]
  simp [Json.Style.spaced]

theorem inert_of_number {cs : List Char} {v : Value} (h : Json.readNumber? (cs ++ []) = some (v, [])) :
    ∀ c ∈ cs, Inert c := by
  obtain ⟨front, hfront, hinert⟩ := Json.takes_readNumber? h
  rw [List.append_nil, List.append_nil] at hfront
  rwa [hfront]

theorem inert_int (n : ℤ) : ∀ c ∈ (toString n).toList, Inert c :=
  inert_of_number (Json.readNumber?_int n Json.ends_nil)

theorem inert_float (x : Double) : ∀ c ∈ (Json.number .spaced x).toList, Inert c := by
  cases x with
  | nan => exact List.all_iff_forall_prop.1 (by decide)
  | infinity negative => cases negative <;> exact List.all_iff_forall_prop.1 (by decide)
  | finite negative m => exact inert_of_number (Json.readNumber?_float .plain negative m Json.ends_nil)

section Filled

variable {g : String → String}

/-- What texts in quotes become. -/
def FillsTexts (d : Dialect) (g : String → String) : Prop :=
  ∀ s : String, fillTemplate d (escapes s.toList) = escapes (g s).toList

theorem fillTemplate_quote (hg : FillsTexts d g) (s : String) :
    fillTemplate d (Json.quote true s).toList = (Json.quote true (g s)).toList := by
  rw [Json.toList_quote, Json.toList_quote, fillTemplate_enclosed d (by decide) (by decide)]
  rw [← escapes, ← escapes, hg]

theorem fillTemplate_bracketed {opening closing : String} (hb : opening = "[" ∧ closing = "]" ∨
    opening = "\x7b" ∧ closing = "\x7d") (level : ℕ) {parts parts' : List String}
    (h : (parts.map String.toList).map (fillTemplate d) = parts'.map String.toList) :
    fillTemplate d (Json.bracketed .spaced level opening closing parts).toList =
      (Json.bracketed .spaced level opening closing parts').toList := by
  rw [toList_bracketed_spaced, toList_bracketed_spaced, ← h, ← fillTemplate_intercalate]
  rcases hb with ⟨rfl, rfl⟩ | ⟨rfl, rfl⟩
  · exact fillTemplate_enclosed d (by decide) (by decide) _
  · exact fillTemplate_enclosed d (by decide) (by decide) _

mutual

theorem fillTemplate_render (hg : FillsTexts d g) (v : Value)
    (hv : v.everywhere Json.Style.spaced.keeps = true) (level : ℕ) :
    fillTemplate d (Json.renderAt .spaced level v).toList =
      (Json.renderAt .spaced level (v.mapTexts g)).toList := by
  cases v with
  | null => exact fillTemplate_of_inert d (Json.inert_word (w := ("null", .null)) (by simp [Json.words]))
  | bool b =>
    cases b with
    | false =>
      exact fillTemplate_of_inert d (Json.inert_word (w := ("false", .bool false)) (by simp [Json.words]))
    | true =>
      exact fillTemplate_of_inert d (Json.inert_word (w := ("true", .bool true)) (by simp [Json.words]))
  | int n => exact fillTemplate_of_inert d (inert_int n)
  | float x => exact fillTemplate_of_inert d (inert_float x)
  | text s => exact fillTemplate_quote hg s
  | list items =>
    rw [Value.everywhere, Bool.and_eq_true] at hv
    exact fillTemplate_bracketed (Or.inl ⟨rfl, rfl⟩) level
      (fillTemplate_renderItems hg items hv.2 (level + 1))
  | object entries =>
    rw [Value.everywhere, Bool.and_eq_true] at hv
    refine fillTemplate_bracketed (Or.inr ⟨rfl, rfl⟩) level ?_
    rw [toList_arranged_spaced, toList_arranged_spaced]
    exact fillTemplate_renderEntries hg entries hv.2 (level + 1)
  | _ => simp [Value.everywhere, Json.Style.keeps] at hv

theorem fillTemplate_renderItems (hg : FillsTexts d g) (items : List Value)
    (hv : Value.everywhereItems Json.Style.spaced.keeps items = true) (level : ℕ) :
    ((Json.renderItems .spaced level items).map String.toList).map (fillTemplate d) =
      (Json.renderItems .spaced level (Value.mapTextsItems g items)).map String.toList := by
  match items with
  | [] => rfl
  | v :: rest =>
    rw [Value.everywhereItems, Bool.and_eq_true] at hv
    simp only [Json.renderItems, Value.mapTextsItems, List.map_cons]
    rw [fillTemplate_render hg v hv.1 level, fillTemplate_renderItems hg rest hv.2 level]

theorem fillTemplate_renderEntries (hg : FillsTexts d g) (entries : List (String × Value))
    (hv : Value.everywhereEntries Json.Style.spaced.keeps entries = true) (level : ℕ) :
    (entries.map fun x => '"' :: (escapes x.1.toList ++ '"' :: ([':'] ++ ' ' ::
      (Json.renderAt .spaced level x.2).toList))).map (fillTemplate d) =
        (Value.mapTextsEntries g entries).map fun x => '"' :: (escapes x.1.toList ++ '"' ::
          ([':'] ++ ' ' :: (Json.renderAt .spaced level x.2).toList)) := by
  match entries with
  | [] => rfl
  | (name, v) :: rest =>
    rw [Value.everywhereEntries, Bool.and_eq_true] at hv
    have hcolon : fillTemplate d [':'] = [':'] := by cases d <;> decide
    rw [Value.mapTextsEntries, List.map_cons, List.map_cons, List.map_cons,
      fillTemplate_renderEntries hg rest hv.2 level, fillTemplate_wall_cons d (by decide),
      fillTemplate_wall d (by decide), fillTemplate_wall d (by decide), hcolon, hg,
      fillTemplate_render hg v hv.1 level]

end

end Filled

/-! ## Documents read -/

/-- Where a backslash is dropped before a colon, the one before it is behind the colon's back. -/
theorem not_colonsPlain_dropEscapes {escaped : Bool} (h : Json.ColonsPlain escaped cs)
    (hne : dropEscapes cs ≠ cs) : ¬ Json.ColonsPlain escaped (dropEscapes cs) := by
  induction cs generalizing escaped with
  | nil => exact absurd rfl hne
  | cons c rest ih =>
    rw [dropEscapes_cons] at hne ⊢
    split
    case isTrue hescape =>
      obtain ⟨rfl, hname⟩ := hescape
      obtain ⟨name, after, rfl, -⟩ := (isEscapedName_iff rest).1 hname
      rw [dropEscapes_cons, if_neg (by simp)]
      cases escaped with
      | true => exact fun hplain => hplain.1 rfl
      | false => exact absurd rfl (And.left (show _ ∧ _ from h))
    case isFalse hescape =>
      rw [if_neg hescape] at hne
      have hrest : dropEscapes rest ≠ rest := fun hsame => hne (by rw [hsame])
      cases escaped with
      | true => exact fun hplain => ih h.2 hrest hplain.2
      | false => exact ih h hrest

mutual

theorem wellFormed_reread (v : Value) : (Json.reread v).wellFormed = true := by
  cases v with
  | list items =>
    rw [Json.reread, Value.wellFormed, Value.everywhere, Bool.and_eq_true]
    exact ⟨rfl, wellFormed_rereadItems items⟩
  | object entries =>
    rw [Json.reread, Value.wellFormed, Value.everywhere, Bool.and_eq_true]
    refine ⟨decide_eq_true (Entries.nodup_ofPairs _), (Value.everywhereEntries_iff _).2 fun x hx => ?_⟩
    exact wellFormed_rereadEntries entries x (Entries.mem_ofPairs hx)
  | _ => rfl

theorem wellFormed_rereadItems (items : List Value) :
    Value.everywhereItems Value.namesOnce (Json.rereadItems items) = true := by
  match items with
  | [] => rfl
  | v :: rest =>
    rw [Json.rereadItems, Value.everywhereItems, Bool.and_eq_true]
    exact ⟨wellFormed_reread v, wellFormed_rereadItems rest⟩

theorem wellFormed_rereadEntries (entries : List (String × Value)) :
    ∀ x ∈ Json.rereadEntries entries, x.2.wellFormed = true := by
  match entries with
  | [] => exact List.forall_mem_nil _
  | (name, v) :: rest =>
    exact List.forall_mem_cons.2 ⟨wellFormed_reread v, wellFormed_rereadEntries rest⟩

end

mutual

/-- No text is read that was not written. -/
theorem texts_reread (v : Value) : (Json.reread v).texts ⊆ v.texts := by
  cases v with
  | list items => exact texts_rereadItems items
  | object entries =>
    refine List.Subset.trans (fun s hs => ?_) (texts_rereadEntries entries)
    rw [Json.reread, Value.texts, Value.textsEntries_eq, List.mem_flatMap] at hs
    obtain ⟨x, hx, hin⟩ := hs
    rw [Value.textsEntries_eq]
    exact List.mem_flatMap.2 ⟨x, Entries.mem_ofPairs hx, hin⟩
  | _ => exact List.Subset.refl _

theorem texts_rereadItems (items : List Value) :
    Value.textsItems (Json.rereadItems items) ⊆ Value.textsItems items := by
  match items with
  | [] => exact List.Subset.refl _
  | v :: rest => exact Value.append_subset (texts_reread v) (texts_rereadItems rest)

theorem texts_rereadEntries (entries : List (String × Value)) :
    Value.textsEntries (Json.rereadEntries entries) ⊆ Value.textsEntries entries := by
  match entries with
  | [] => exact List.Subset.refl _
  | (name, v) :: rest =>
    exact List.cons_subset_cons _ (Value.append_subset (texts_reread v) (texts_rereadEntries rest))

end

theorem keeps_mapTexts {g : String → String} {v : Value}
    (h : v.everywhere Json.Style.spaced.keeps = true) :
    (v.mapTexts g).everywhere Json.Style.spaced.keeps = true := by
  refine Value.everywhere_mapTexts (fun v hv => ?_) v h
  cases v <;> first | rfl | exact hv

/-- A document that is still read as a value that agrees with it stays as it is. -/
theorem expandTemplate_of_agrees (d : Dialect) {w u : Value}
    (hk : w.everywhere Json.Style.spaced.keeps = true) (hw : w.wellFormed = true)
    (hu : Json.read (expandTemplate d (Json.render .spaced w)) = .ok u)
    (hagree : u.agrees w = true) :
    expandTemplate d (Json.render .spaced w) = Json.render .spaced w := by
  obtain ⟨g, hg⟩ := exists_fillTexts d
  have hfill : fillTemplate d (Json.render .spaced w).toList =
      (Json.render .spaced (w.mapTexts g)).toList :=
    fillTemplate_render (fun s => (hg s).1) w hk 0
  have hread := Json.read_render Json.readable_spaced (keeps_mapTexts (g := g) hk)
  have hdrop : dropEscapes (Json.render .spaced (w.mapTexts g)).toList =
      (Json.render .spaced (w.mapTexts g)).toList := by
    by_contra hne
    have hplain := Json.colonsPlain_of_read hu
    rw [toList_expandTemplate, expandChars, hfill] at hplain
    exact not_colonsPlain_dropEscapes (Json.colonsPlain_of_read hread) hne hplain
  have hexpand : expandTemplate d (Json.render .spaced w) = Json.render .spaced (w.mapTexts g) := by
    refine String.toList_inj.1 ?_
    rw [toList_expandTemplate, expandChars, hfill, hdrop]
  rw [hexpand, hread] at hu
  obtain rfl := Except.ok.inj hu
  have hback := Value.agrees_symm (wellFormed_reread _) hw hagree
  have hsubset : w.texts ⊆ w.texts.map g := by
    have htexts := List.Subset.trans (Value.texts_of_agrees hback) (texts_reread _)
    rwa [Value.texts_mapTexts] at htexts
  rw [hexpand, Value.mapTexts_self w
    (Value.fixed_of_subset_map templateWeight g (fun s => (hg s).2) hsubset)]

end SchemaLedger.Sql
