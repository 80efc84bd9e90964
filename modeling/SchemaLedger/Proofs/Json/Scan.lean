import Mathlib.Data.Bool.AllAny
import SchemaLedger.Proofs.Json.RoundTrip

set_option autoImplicit false

/-!
# What the reader takes

Words, numbers and blanks are made of characters that mean nothing to a template. In a text there is
no colon behind a backslash, unless the backslash is itself behind one: the reader refuses it.
-/
namespace SchemaLedger.Json

variable {cs rest after : List Char} {c : Char}

/-- Whether a character means nothing to a template. -/
def Inert (c : Char) : Prop := c ≠ ':' ∧ c ≠ '\\' ∧ c ≠ '%'

instance (c : Char) : Decidable (Inert c) := inferInstanceAs (Decidable (_ ∧ _ ∧ _))

/-! ## Numbers and words -/

/-- Whether a text goes on with the other after some characters that mean nothing to a template. -/
def Takes (cs rest : List Char) : Prop := ∃ front, cs = front ++ rest ∧ ∀ c ∈ front, Inert c

theorem Takes.refl (cs : List Char) : Takes cs cs := ⟨[], rfl, nofun⟩

theorem Takes.trans (h : Takes cs rest) (h' : Takes rest after) : Takes cs after := by
  obtain ⟨front, rfl, hfront⟩ := h
  obtain ⟨more, rfl, hmore⟩ := h'
  refine ⟨front ++ more, (List.append_assoc _ _ _).symm, fun c hc => ?_⟩
  exact (List.mem_append.1 hc).elim (hfront c) (hmore c)

theorem Takes.cons (hc : Inert c) (h : Takes cs rest) : Takes (c :: cs) rest :=
  Takes.trans ⟨[c], rfl, by simpa using hc⟩ h

theorem takes_dropWhile {p : Char → Bool} (hp : ∀ c, p c = true → Inert c) (cs : List Char) :
    Takes cs (cs.dropWhile p) :=
  ⟨cs.takeWhile p, List.takeWhile_append_dropWhile.symm,
    fun c hc => hp c (List.all_eq_true.1 List.all_takeWhile c hc)⟩

theorem inert_of_isDigit (h : c.isDigit = true) : Inert c := by
  refine ⟨?_, ?_, ?_⟩ <;> rintro rfl <;> exact absurd h (by decide)

theorem inert_of_isBlank (h : isBlank c = true) : Inert c := by
  refine ⟨?_, ?_, ?_⟩ <;> rintro rfl <;> exact absurd h (by decide)

theorem takes_spanDigits (cs : List Char) : Takes cs (Double.spanDigits cs).2 :=
  takes_dropWhile (fun _ => inert_of_isDigit) cs

theorem takes_skipBlanks (cs : List Char) : Takes cs (skipBlanks cs) :=
  takes_dropWhile (fun _ => inert_of_isBlank) cs

theorem takes_readWhole? {r : List Char × List Char} (h : readWhole? cs = some r) :
    Takes cs r.2 := by
  rw [readWhole?.eq_def] at h
  split at h
  · obtain rfl := Option.some.inj h
    exact .cons (by decide) (.refl _)
  · dsimp only at h
    split at h
    · cases h
    · obtain rfl := Option.some.inj h
      exact takes_spanDigits _

theorem takes_readFraction (cs : List Char) : Takes cs (readFraction cs).2 := by
  unfold readFraction
  split
  · dsimp only
    split
    · exact .refl _
    · exact .cons (by decide) (takes_spanDigits _)
  · exact .refl _

theorem takes_readExponent (cs : List Char) : Takes cs (readExponent cs).2 := by
  unfold readExponent
  split
  case h_2 => exact .refl _
  case h_1 mark rest =>
    split
    case isFalse => exact .refl _
    case isTrue hmark =>
      have hinert : Inert mark := by rcases hmark with rfl | rfl <;> decide
      split
      rename_i negative body hsign
      have hbody : Takes rest body := by
        split at hsign
        all_goals obtain ⟨-, rfl⟩ := Prod.mk.inj hsign
        · exact .cons (by decide) (.refl _)
        · exact .cons (by decide) (.refl _)
        · exact .refl _
      dsimp only
      split
      · exact .refl _
      · exact .cons hinert (hbody.trans (takes_spanDigits body))

theorem takes_readUnsigned? {negative : Bool} {r : Value × List Char}
    (h : readUnsigned? negative cs = some r) : Takes cs r.2 := by
  rw [readUnsigned?, Option.map_eq_some_iff] at h
  obtain ⟨⟨whole, rest⟩, hwhole, rfl⟩ := h
  have htakes := ((takes_readWhole? hwhole).trans (takes_readFraction rest)).trans
    (takes_readExponent _)
  dsimp only
  split <;> exact htakes

theorem takes_readNumber? {r : Value × List Char} (h : readNumber? cs = some r) :
    Takes cs r.2 := by
  rw [readNumber?.eq_def] at h
  split at h
  · exact .cons (by decide) (takes_readUnsigned? h)
  · exact takes_readUnsigned? h

theorem inert_word {w : String × Value} (hw : w ∈ words) : ∀ c ∈ w.1.toList, Inert c := by
  have hall : ∀ w ∈ words, w.1.toList.all (fun c => decide (Inert c)) = true := by
    simp only [words, List.forall_mem_cons]
    decide
  exact List.all_iff_forall_prop.1 (hall w hw)

theorem takes_readWord? {r : Value × List Char} (h : readWord? cs = some r) : Takes cs r.2 := by
  obtain ⟨⟨word, v⟩, hword, hfound⟩ := List.exists_of_findSome?_eq_some h
  rw [Option.map_eq_some_iff] at hfound
  obtain ⟨rest, hrest, rfl⟩ := hfound
  rw [afterWord?_eq] at hrest
  split at hrest
  case isFalse => cases hrest
  case isTrue hprefix =>
    obtain ⟨tail, rfl⟩ := hprefix
    obtain rfl := Option.some.inj hrest
    rw [List.drop_left]
    exact ⟨word.toList, rfl, inert_word hword⟩

/-! ## Colons -/

/-- Whether no colon stands behind a backslash that is not itself behind one. The flag says whether
the first character is behind one. -/
def ColonsPlain : Bool → List Char → Prop
  | _, [] => True
  | true, c :: cs => c ≠ ':' ∧ ColonsPlain false cs
  | false, c :: cs => ColonsPlain (c = '\\') cs

/-- What is taken off a text does not matter to the colons of the rest. -/
def KeepsColons (cs rest : List Char) : Prop := ColonsPlain false rest → ColonsPlain false cs

theorem ColonsPlain.cons (hc : c ≠ '\\') (h : ColonsPlain false cs) : ColonsPlain false (c :: cs) := by
  rw [ColonsPlain, decide_eq_false hc]
  exact h

theorem ColonsPlain.escaped (hc : c ≠ ':') (h : ColonsPlain false cs) :
    ColonsPlain false ('\\' :: c :: cs) := by
  rw [ColonsPlain, decide_eq_true rfl, ColonsPlain]
  exact ⟨hc, h⟩

theorem Takes.keepsColons (h : Takes cs rest) : KeepsColons cs rest := by
  obtain ⟨front, rfl, hfront⟩ := h
  intro hrest
  induction front with
  | nil => exact hrest
  | cons c front ih =>
    obtain ⟨hc, hfront⟩ := List.forall_mem_cons.1 hfront
    exact .cons hc.2.1 (ih hfront)

theorem ColonsPlain.unit {x₁ x₂ x₃ x₄ : Char} {n : ℕ} (hx : hexFour? x₁ x₂ x₃ x₄ = some n)
    (h : ColonsPlain false cs) :
    ColonsPlain false ('\\' :: 'u' :: x₁ :: x₂ :: x₃ :: x₄ :: cs) := by
  have hnone : Uuid.hexValue? '\\' = none := by decide
  refine .escaped (by decide) (.cons ?_ (.cons ?_ (.cons ?_ (.cons ?_ h))))
  all_goals
    rintro rfl
    simp [hexFour?, hnone] at hx

theorem keepsColons_readString {start : ℕ} {r : List Char × List Char}
    (h : readString start cs = .ok r) : KeepsColons cs r.2 := by
  fun_induction readString start cs generalizing r with
  | case2 rest =>
    obtain rfl := Except.ok.inj h
    exact .cons (by decide)
  | case7 a b c d high a' b' c' d' after hx _ low hy _ ih =>
    obtain ⟨q, hq, rfl⟩ := (Outcome.map_eq_ok _ _ _).1 h
    exact fun hrest => .unit hx (.unit hy (ih hq hrest))
  | case8 a b c d high a' b' c' d' after hx _ low hy _ ih =>
    obtain ⟨q, hq, rfl⟩ := (Outcome.map_eq_ok _ _ _).1 h
    exact fun hrest => .unit hx (ih hq hrest)
  | case9 a b c d high a' b' c' d' after hx _ ih =>
    obtain ⟨q, hq, rfl⟩ := (Outcome.map_eq_ok _ _ _).1 h
    exact fun hrest => .unit hx (ih hq hrest)
  | case10 a b c d n rest _ _ hx ih =>
    obtain ⟨q, hq, rfl⟩ := (Outcome.map_eq_ok _ _ _).1 h
    exact fun hrest => .unit hx (ih hq hrest)
  | case13 c rest _ _ plain hplain ih =>
    obtain ⟨q, hq, rfl⟩ := (Outcome.map_eq_ok _ _ _).1 h
    refine fun hrest => .escaped ?_ (ih hq hrest)
    rintro rfl
    cases hplain
  | case15 c rest _ hend hunit hpair _ ih =>
    obtain ⟨q, hq, rfl⟩ := (Outcome.map_eq_ok _ _ _).1 h
    refine fun hrest => .cons (fun hc => ?_) (ih hq hrest)
    cases rest with
    | nil => exact hend hc rfl
    | cons x tail => exact hpair x tail hc rfl
  | _ => cases h

theorem KeepsColons.trans (h : KeepsColons cs rest) (h' : KeepsColons rest after) :
    KeepsColons cs after := fun hafter => h (h' hafter)

theorem KeepsColons.cons (hc : c ≠ '\\') (h : KeepsColons cs rest) : KeepsColons (c :: cs) rest :=
  fun hrest => .cons hc (h hrest)

section Nested

variable {fuel : ℕ}

theorem keepsColons_readItems
    (hvalue : ∀ cs r, readValue fuel cs = .ok r → KeepsColons cs r.2)
    (hitems : ∀ cs r, readItems fuel cs = .ok r → KeepsColons cs r.2)
    {r : List Value × List Char} (h : readItems (fuel + 1) cs = .ok r) : KeepsColons cs r.2 := by
  rw [readItems, Outcome.bind_eq_ok] at h
  obtain ⟨⟨item, rest⟩, hitem, h⟩ := h
  refine ((hvalue cs _ hitem).trans (takes_skipBlanks rest).keepsColons).trans ?_
  dsimp only at h ⊢
  split at h
  case h_1 tail hskip =>
    obtain rfl := Except.ok.inj h
    rw [hskip]
    exact .cons (by decide) id
  case h_2 tail hskip =>
    obtain ⟨q, hq, h⟩ := (Outcome.bind_eq_ok _ _ _).1 h
    obtain rfl := Except.ok.inj h
    rw [hskip]
    exact .cons (by decide) ((takes_skipBlanks tail).keepsColons.trans (hitems _ q hq))
  case h_3 => cases h

theorem keepsColons_readEntries
    (hvalue : ∀ cs r, readValue fuel cs = .ok r → KeepsColons cs r.2)
    (hentries : ∀ cs r, readEntries fuel cs = .ok r → KeepsColons cs r.2)
    {r : List (String × Value) × List Char} (h : readEntries (fuel + 1) cs = .ok r) :
    KeepsColons cs r.2 := by
  obtain ⟨tail, rfl⟩ := front_of_readEntries h
  rw [readEntries, Outcome.bind_eq_ok] at h
  obtain ⟨⟨name, rest⟩, hname, h⟩ := h
  refine .cons (by decide) (((keepsColons_readString hname).trans
    (takes_skipBlanks rest).keepsColons).trans ?_)
  dsimp only at h ⊢
  split at h
  case h_2 => cases h
  case h_1 content hcolon =>
    obtain ⟨⟨v, after⟩, hv, h⟩ := (Outcome.bind_eq_ok _ _ _).1 h
    rw [hcolon]
    refine .cons (by decide) (((takes_skipBlanks content).keepsColons.trans
      (hvalue _ _ hv)).trans ((takes_skipBlanks after).keepsColons.trans ?_))
    dsimp only at h ⊢
    split at h
    case h_1 end' hskip =>
      obtain rfl := Except.ok.inj h
      rw [hskip]
      exact .cons (by decide) id
    case h_2 more hskip =>
      obtain ⟨q, hq, h⟩ := (Outcome.bind_eq_ok _ _ _).1 h
      obtain rfl := Except.ok.inj h
      rw [hskip]
      exact .cons (by decide) ((takes_skipBlanks more).keepsColons.trans (hentries _ q hq))
    case h_3 => cases h

theorem keepsColons_readValue
    (hitems : ∀ cs r, readItems fuel cs = .ok r → KeepsColons cs r.2)
    (hentries : ∀ cs r, readEntries fuel cs = .ok r → KeepsColons cs r.2)
    {r : Value × List Char} (h : readValue (fuel + 1) cs = .ok r) : KeepsColons cs r.2 := by
  rw [readValue.eq_def] at h
  dsimp only at h
  split at h
  case h_1 => cases h
  case h_2 rest _ hsome =>
    obtain rfl := Nat.succ.inj hsome
    obtain ⟨q, hq, h⟩ := (Outcome.bind_eq_ok _ _ _).1 h
    obtain rfl := Except.ok.inj h
    exact .cons (by decide) (keepsColons_readString hq)
  case h_3 rest hsome =>
    obtain rfl := Nat.succ.inj hsome
    refine .cons (by decide) ((takes_skipBlanks rest).keepsColons.trans ?_)
    split at h
    case h_1 tail hskip =>
      obtain rfl := Except.ok.inj h
      rw [hskip]
      exact .cons (by decide) id
    case h_2 =>
      obtain ⟨q, hq, h⟩ := (Outcome.bind_eq_ok _ _ _).1 h
      obtain rfl := Except.ok.inj h
      exact hitems _ q hq
  case h_4 rest hsome =>
    obtain rfl := Nat.succ.inj hsome
    refine .cons (by decide) ((takes_skipBlanks rest).keepsColons.trans ?_)
    split at h
    case h_1 tail hskip =>
      obtain rfl := Except.ok.inj h
      rw [hskip]
      exact .cons (by decide) id
    case h_2 =>
      obtain ⟨q, hq, h⟩ := (Outcome.bind_eq_ok _ _ _).1 h
      obtain rfl := Except.ok.inj h
      exact hentries _ q hq
  case h_5 =>
    split at h
    case h_1 found hword =>
      obtain rfl := Except.ok.inj h
      exact (takes_readWord? hword).keepsColons
    case h_2 =>
      split at h
      case h_1 found hnumber =>
        obtain rfl := Except.ok.inj h
        exact (takes_readNumber? hnumber).keepsColons
      case h_2 => cases h

end Nested

/-- Whatever a reader takes, in whichever depth. -/
theorem keepsColons_read (fuel : ℕ) :
    (∀ cs r, readValue fuel cs = .ok r → KeepsColons cs r.2) ∧
      (∀ cs r, readItems fuel cs = .ok r → KeepsColons cs r.2) ∧
      ∀ cs r, readEntries fuel cs = .ok r → KeepsColons cs r.2 := by
  induction fuel with
  | zero => exact ⟨nofun, nofun, nofun⟩
  | succ fuel ih =>
    obtain ⟨hvalue, hitems, hentries⟩ := ih
    exact ⟨fun cs r h => keepsColons_readValue hitems hentries h,
      fun cs r h => keepsColons_readItems hvalue hitems h,
      fun cs r h => keepsColons_readEntries hvalue hentries h⟩

/-- A text that is read holds no colon that a backslash escapes. -/
theorem colonsPlain_of_read {text : String} {v : Value} (h : read text = .ok v) :
    ColonsPlain false text.toList := by
  rw [read, Outcome.mapError_eq_ok, readDocument.eq_def] at h
  split at h
  case h_1 => cases h
  case h_2 =>
    obtain ⟨⟨w, rest⟩, hw, h⟩ := (Outcome.bind_eq_ok _ _ _).1 h
    dsimp only at h
    split at h
    case h_2 => cases h
    case h_1 hskip =>
      refine ((takes_skipBlanks _).keepsColons.trans (((keepsColons_read _).1 _ _ hw).trans
        (takes_skipBlanks rest).keepsColons)) ?_
      rw [hskip]
      trivial

end SchemaLedger.Json
