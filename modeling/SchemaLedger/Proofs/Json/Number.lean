import SchemaLedger.Json.Reader
import SchemaLedger.Proofs.Decimal.Shortest

set_option autoImplicit false

/-!
# Numbers read back

The text of an integer is read as the integer and the text of a finite double, in any layout, as the
double.
-/
namespace SchemaLedger.Json

/-- No digit stands at the front of the text. -/
def NoDigit (cs : List Char) : Prop := ∀ c ∈ cs.head?, c.isDigit = false

/-- Nothing at the front of the text would belong to a number before it. -/
def Ends (cs : List Char) : Prop :=
  ∀ c ∈ cs.head?, c.isDigit = false ∧ c ≠ '.' ∧ c ≠ 'e' ∧ c ≠ 'E'

theorem Ends.noDigit {cs : List Char} (h : Ends cs) : NoDigit cs := fun c hc => (h c hc).1

theorem noDigit_cons {c : Char} {cs : List Char} (h : c.isDigit = false) : NoDigit (c :: cs) := by
  intro d hd
  rw [List.head?_cons, Option.mem_some_iff] at hd
  exact hd ▸ h

/-- Digits with no zero before them. -/
structure Whole (ds : List Char) : Prop where
  digits : ∀ c ∈ ds, c.isDigit = true
  nonempty : ds ≠ []
  zero : ds.head? = some '0' → ds = ['0']

variable {ds tail : List Char}

theorem spanDigits_append (hd : ∀ c ∈ ds, c.isDigit = true) (ht : NoDigit tail) :
    Double.spanDigits (ds ++ tail) = (ds, tail) := by
  rw [Double.spanDigits, List.takeWhile_append_of_pos hd, List.dropWhile_append_of_pos hd]
  cases tail with
  | nil => simp
  | cons c rest => simp [ht c rfl]

theorem readWhole?_append (hd : Whole ds) (ht : NoDigit tail) :
    readWhole? (ds ++ tail) = some (ds, tail) := by
  have hspan := spanDigits_append hd.digits ht
  cases ds with
  | nil => exact absurd rfl hd.nonempty
  | cons c rest =>
    by_cases hc : c = '0'
    · subst hc
      have hone := hd.zero rfl
      rw [List.cons.injEq] at hone
      rw [hone.2]
      rfl
    · rw [List.cons_append] at hspan ⊢
      rw [readWhole?]
      · simp only [hspan, if_neg (List.cons_ne_nil c rest)]
      · intro r hr
        exact hc (List.cons.inj hr).1

theorem readFraction_append (hd : ∀ c ∈ ds, c.isDigit = true) (hn : ds ≠ []) (ht : NoDigit tail) :
    readFraction ('.' :: (ds ++ tail)) = (some ds, tail) := by
  simp only [readFraction, spanDigits_append hd ht, if_neg hn]

theorem readFraction_of_ne (h : ∀ c ∈ tail.head?, c ≠ '.') : readFraction tail = (none, tail) := by
  cases tail with
  | nil => rfl
  | cons c rest =>
    rw [readFraction]
    intro r hr
    exact h c rfl (List.cons.inj hr).1

theorem readExponent_append (negative : Bool) (hd : ∀ c ∈ ds, c.isDigit = true) (hn : ds ≠ [])
    (ht : NoDigit tail) :
    readExponent ('e' :: (if negative then '-' else '+') :: (ds ++ tail)) =
      (some (if negative then -(Double.digitsValue ds : Int) else Double.digitsValue ds), tail) := by
  cases negative with
  | false => simp [readExponent, spanDigits_append hd ht, hn]
  | true => simp [readExponent, spanDigits_append hd ht, hn]

theorem readExponent_of_ne (h : ∀ c ∈ tail.head?, c ≠ 'e' ∧ c ≠ 'E') :
    readExponent tail = (none, tail) := by
  cases tail with
  | nil => rfl
  | cons c rest =>
    have hc := h c rfl
    simp only [readExponent, if_neg (not_or.2 hc)]

theorem toDigits_digits (n : ℕ) : ∀ c ∈ Nat.toDigits 10 n, c.isDigit = true :=
  fun _ hc => Nat.isDigit_of_mem_toDigits (by decide) (by decide) hc

theorem toDigits_head (n : ℕ) (h : (Nat.toDigits 10 n).head? = some '0') : n = 0 := by
  induction n using Nat.strongRecOn with
  | ind n ih =>
    rw [Nat.toDigits_eq_if (by decide)] at h
    split_ifs at h with hlt
    · have hdigit := Nat.toNat_digitChar_of_lt_ten hlt
      rw [List.head?_cons, Option.some.injEq] at h
      rw [h] at hdigit
      simp at hdigit
      omega
    · rw [List.head?_append_of_ne_nil _ Nat.toDigits_ne_nil] at h
      have := ih (n / 10) (by omega) h
      omega

theorem whole_toDigits (n : ℕ) : Whole (Nat.toDigits 10 n) := by
  refine ⟨toDigits_digits n, Nat.toDigits_ne_nil, fun h => ?_⟩
  rw [toDigits_head n h, Nat.toDigits_zero]

theorem digitsValue_toDigits (n : ℕ) : Double.digitsValue (Nat.toDigits 10 n) = n :=
  Nat.ofDigitChars_ten_toDigits

theorem digitsValue_append (ds rest : List Char) : Double.digitsValue (ds ++ rest) =
    10 ^ rest.length * Double.digitsValue ds + Double.digitsValue rest :=
  (Nat.ofDigitChars_append 0).trans Nat.ofDigitChars_eq_ofDigitChars_zero

theorem digitsValue_zeros (n : ℕ) : Double.digitsValue (List.replicate n '0') = 0 :=
  Nat.ofDigitChars_replicate_zero

/-- The digits with zeros before them, as many as fill a width. -/
theorem digitsValue_padLeft (w : ℕ) (ds : List Char) :
    Double.digitsValue (Decimal.padLeft w ds) = Double.digitsValue ds := by
  rw [Decimal.padLeft, digitsValue_append, digitsValue_zeros, Nat.mul_zero, Nat.zero_add]

theorem padLeft_digits (w : ℕ) (hd : ∀ c ∈ ds, c.isDigit = true) :
    ∀ c ∈ Decimal.padLeft w ds, c.isDigit = true := by
  intro c hc
  rcases List.mem_append.1 hc with hz | hc
  · rw [List.eq_of_mem_replicate hz]
    rfl
  · exact hd c hc

/-! ## The three shapes of a number -/

theorem readUnsigned?_int (negative : Bool) (hd : Whole ds) (ht : Ends tail) :
    readUnsigned? negative (ds ++ tail) = some (.int (if negative
      then -(Double.digitsValue ds : Int) else Double.digitsValue ds), tail) := by
  rw [readUnsigned?, readWhole?_append hd ht.noDigit]
  simp [readFraction_of_ne fun c hc => (ht c hc).2.1,
    readExponent_of_ne fun c hc => (ht c hc).2.2]

theorem readUnsigned?_point (negative : Bool) {fs : List Char} (hd : Whole ds)
    (hf : ∀ c ∈ fs, c.isDigit = true) (hn : fs ≠ []) (ht : Ends tail) :
    readUnsigned? negative (ds ++ '.' :: (fs ++ tail)) = some (.float (.ofScientific negative
      (Double.digitsValue (ds ++ fs)) (-fs.length)), tail) := by
  rw [readUnsigned?, readWhole?_append hd (noDigit_cons (by decide))]
  simp [readFraction_append hf hn ht.noDigit, readExponent_of_ne fun c hc => (ht c hc).2.2]

theorem readUnsigned?_exponent (negative down : Bool) {es : List Char} (hd : Whole ds)
    (he : ∀ c ∈ es, c.isDigit = true) (hn : es ≠ []) (ht : Ends tail) :
    readUnsigned? negative (ds ++ 'e' :: (if down then '-' else '+') :: (es ++ tail)) =
      some (.float (.ofScientific negative (Double.digitsValue ds) (if down
        then -(Double.digitsValue es : Int) else Double.digitsValue es)), tail) := by
  rw [readUnsigned?, readWhole?_append hd (noDigit_cons (by decide))]
  have hf : ∀ cs, readFraction ('e' :: cs) = (none, 'e' :: cs) := fun cs =>
    readFraction_of_ne fun c hc => by cases hc; decide
  simp [hf, readExponent_append down he hn ht.noDigit]

theorem readUnsigned?_point_exponent (negative down : Bool) {fs es : List Char} (hd : Whole ds)
    (hf : ∀ c ∈ fs, c.isDigit = true) (hfn : fs ≠ []) (he : ∀ c ∈ es, c.isDigit = true)
    (hen : es ≠ []) (ht : Ends tail) :
    readUnsigned? negative
        (ds ++ '.' :: (fs ++ 'e' :: (if down then '-' else '+') :: (es ++ tail))) =
      some (.float (.ofScientific negative (Double.digitsValue (ds ++ fs)) ((if down
        then -(Double.digitsValue es : Int) else Double.digitsValue es) - fs.length)), tail) := by
  rw [readUnsigned?, readWhole?_append hd (noDigit_cons (by decide))]
  simp [readFraction_append hf hfn (noDigit_cons (show 'e'.isDigit = false from rfl)),
    readExponent_append down he hen ht.noDigit]

/-! ## Doubles -/

/-- A numeral read as scientific notation for a value. -/
def ReadsAs (negative : Bool) (cs tail : List Char) (x : ℚ) : Prop :=
  ∃ (n : ℕ) (p : ℤ), readUnsigned? negative (cs ++ tail) =
    some (.float (.ofScientific negative n p), tail) ∧ -800 ≤ p ∧ (n : ℚ) * 10 ^ p = x

variable {d : Decimal}

theorem whole_take (hd : Whole ds) (k : ℕ) : Whole (ds.take (k + 1)) := by
  cases ds with
  | nil => exact absurd rfl hd.nonempty
  | cons c rest =>
    refine ⟨fun x hx => hd.digits x (List.take_subset _ _ hx), by simp, fun h => ?_⟩
    rw [hd.zero h, List.take_succ_cons, List.take_nil]

theorem whole_zero : Whole ['0'] :=
  ⟨List.forall_mem_singleton.2 rfl, List.cons_ne_nil _ _, fun _ => rfl⟩

theorem positional_small (negative : Bool) {p : ℤ} (hp : p < 0) (ht : Ends tail)
    (hd : p = (d.text.length : ℤ) - 1 + d.power) (hpow : -800 ≤ d.power) :
    ReadsAs negative (Decimal.positional d.text p) tail d.value := by
  have hdigits : ∀ c ∈ List.replicate (-p - 1).toNat '0' ++ d.text, c.isDigit = true := by
    intro c hc
    rcases List.mem_append.1 hc with hz | hc
    · rw [List.eq_of_mem_replicate hz]
      rfl
    · exact toDigits_digits _ c hc
  have hlen : (-((List.replicate (-p - 1).toNat '0' ++ d.text).length : ℤ)) = d.power := by
    rw [List.length_append, List.length_replicate]
    omega
  have hval : Double.digitsValue (['0'] ++ (List.replicate (-p - 1).toNat '0' ++ d.text)) =
      d.digits := by
    have hone : Double.digitsValue ['0'] = 0 := rfl
    rw [digitsValue_append, digitsValue_append, digitsValue_zeros, Decimal.text,
      digitsValue_toDigits, hone]
    omega
  refine ⟨d.digits, d.power, ?_, hpow, rfl⟩
  rw [Decimal.positional, if_pos hp, ← hval, ← hlen]
  exact readUnsigned?_point negative whole_zero hdigits
    (List.append_ne_nil_of_right_ne_nil _ Nat.toDigits_ne_nil) ht

theorem whole_zeros (n k : ℕ) (h : n = 0 → k = 0) :
    Whole (Nat.toDigits 10 n ++ List.replicate k '0') := by
  refine ⟨fun c hc => ?_, List.append_ne_nil_of_left_ne_nil Nat.toDigits_ne_nil _, fun h0 => ?_⟩
  · rcases List.mem_append.1 hc with hc | hz
    · exact toDigits_digits n c hc
    · rw [List.eq_of_mem_replicate hz]
      rfl
  · rw [List.head?_append_of_ne_nil _ Nat.toDigits_ne_nil] at h0
    obtain rfl := toDigits_head n h0
    rw [h rfl]
    rfl

theorem positional_large (negative : Bool) {p : ℤ} (hp : 0 ≤ p) (ht : Ends tail)
    (hd : p = (d.text.length : ℤ) - 1 + d.power) (hpow : -800 ≤ d.power)
    (hz : d.digits = 0 → d.power = 0) :
    ReadsAs negative (Decimal.positional d.text p) tail d.value := by
  have hpos : 0 < d.text.length := Nat.length_toDigits_pos
  rw [Decimal.positional, if_neg (by omega)]
  simp only
  by_cases hlen : d.text.length ≤ p.toNat + 1
  · -- all digits stand before the point, with zeros for the places that are left
    generalize hk : p.toNat + 1 - d.text.length = k
    have hpk : d.power = (k + 1 : ℕ) + (-1) := by omega
    have hwhole : Whole (d.text ++ List.replicate k '0') := by
      refine whole_zeros _ _ fun h0 => ?_
      have := hz h0
      omega
    have hval : Double.digitsValue (d.text ++ List.replicate k '0' ++ ['0']) =
        d.digits * 10 ^ (k + 1) := by
      have hone : Double.digitsValue ['0'] = 0 := rfl
      rw [digitsValue_append, digitsValue_append, digitsValue_zeros, Decimal.text,
        digitsValue_toDigits, hone, List.length_replicate, List.length_singleton]
      ring
    rw [List.drop_eq_nil_of_le hlen, List.take_of_length_le hlen, List.isEmpty_nil, if_pos rfl]
    refine ⟨d.digits * 10 ^ (k + 1), -1, ?_, by decide, ?_⟩
    · have h := readUnsigned?_point negative hwhole whole_zero.digits whole_zero.nonempty ht
      rw [hval] at h
      simpa using h
    · rw [Decimal.value, hpk, zpow_add₀ (by norm_num), zpow_natCast]
      push_cast
      ring
  · have hright : d.text.drop (p.toNat + 1) ≠ [] := by
      intro h
      exact hlen (List.drop_eq_nil_iff.1 h)
    have hpk : -((d.text.drop (p.toNat + 1)).length : ℤ) = d.power := by
      rw [List.length_drop]
      omega
    rw [if_neg (by simpa using hright), show p.toNat + 1 - d.text.length = 0 by omega,
      List.replicate_zero, List.append_nil]
    refine ⟨d.digits, d.power, ?_, hpow, rfl⟩
    have h := readUnsigned?_point negative (whole_take (whole_toDigits d.digits) p.toNat)
      (fun c hc => toDigits_digits _ c (List.drop_subset _ _ hc)) hright ht
    rw [← Decimal.text, List.take_append_drop, hpk, Decimal.text, digitsValue_toDigits] at h
    simpa [Decimal.text] using h

theorem scientific_reads (layout : Decimal.Layout) (negative : Bool) {p : ℤ} (ht : Ends tail)
    (hd : p = (d.text.length : ℤ) - 1 + d.power) (hpow : -800 ≤ d.power) :
    ReadsAs negative (Decimal.scientific layout d.text p) tail d.value := by
  have hpos : 0 < d.text.length := Nat.length_toDigits_pos
  have hlead := whole_take (whole_toDigits d.digits) 0
  generalize he : Decimal.padLeft layout.exponentWidth (Nat.toDigits 10 p.natAbs) = es
  have hes : ∀ c ∈ es, c.isDigit = true := he ▸ padLeft_digits _ (toDigits_digits _)
  have hne : es ≠ [] := he ▸ List.append_ne_nil_of_right_ne_nil _ Nat.toDigits_ne_nil
  have hsign : (if decide (p < 0) then '-' else '+') = if p < 0 then '-' else '+' := by simp
  have hexp : (if decide (p < 0) = true then -(Double.digitsValue es : ℤ)
      else Double.digitsValue es) = p := by
    rw [← he, digitsValue_padLeft, digitsValue_toDigits]
    simp only [decide_eq_true_eq]
    split_ifs <;> omega
  refine ⟨d.digits, d.power, ?_, hpow, rfl⟩
  rw [Decimal.scientific, he]
  by_cases hrest : d.text.drop 1 = []
  · have htake : d.text.take 1 = d.text := by
      have := List.take_append_drop 1 d.text
      rwa [hrest, List.append_nil] at this
    have hone : d.text.length = 1 := by
      have := List.drop_eq_nil_iff.1 hrest
      omega
    have h := readUnsigned?_exponent negative (decide (p < 0)) (whole_toDigits d.digits) hes hne ht
    rw [hexp, digitsValue_toDigits, hsign, hd] at h
    rw [hrest, List.isEmpty_nil, if_pos rfl, htake, hd]
    rw [hone] at h ⊢
    simpa [Decimal.text] using h
  · have hpk : p - ((d.text.drop 1).length : ℤ) = d.power := by
      rw [List.length_drop]
      omega
    have h := readUnsigned?_point_exponent negative (decide (p < 0)) hlead
      (fun c hc => toDigits_digits _ c (List.drop_subset 1 _ hc)) hrest hes hne ht
    rw [hexp, ← Decimal.text, hpk, List.take_append_drop, Decimal.text, digitsValue_toDigits,
      hsign] at h
    rw [if_neg (by simpa using hrest)]
    simpa [Decimal.text] using h

theorem readUnsigned?_render (layout : Decimal.Layout) (negative : Bool) (ht : Ends tail)
    (hpow : -800 ≤ d.power) (hz : d.digits = 0 → d.power = 0) :
    ReadsAs negative (d.render layout) tail d.value := by
  have hp : (if d.digits = 0 then 0 else (d.text.length : ℤ) - 1 + d.power) =
      (d.text.length : ℤ) - 1 + d.power := by
    split_ifs with h0
    · rw [Decimal.text, h0, hz h0, Nat.toDigits_zero]
      rfl
    · rfl
  rw [Decimal.render]
  simp only [hp]
  split_ifs with hpos
  · rcases Int.lt_or_le ((d.text.length : ℤ) - 1 + d.power) 0 with hlt | hle
    · exact positional_small negative hlt ht rfl hpow
    · exact positional_large negative hle ht rfl hpow hz
  · exact scientific_reads layout negative ht rfl hpow

theorem head_of_readUnsigned? {negative : Bool} {cs : List Char} {r : Value × List Char}
    (h : readUnsigned? negative cs = some r) : ∃ c rest, cs = c :: rest ∧ c.isDigit = true := by
  rw [readUnsigned?, Option.map_eq_some_iff] at h
  obtain ⟨w, hw, -⟩ := h
  cases cs with
  | nil => cases hw
  | cons c rest =>
    refine ⟨c, rest, rfl, ?_⟩
    by_contra hc
    rw [readWhole?] at hw
    · simp [Double.spanDigits, hc] at hw
    · intro tail hcons
      cases hcons
      exact hc rfl

theorem readNumber?_of_digit {c : Char} {rest : List Char} (hc : c.isDigit = true) :
    readNumber? (c :: rest) = readUnsigned? false (c :: rest) := by
  rw [readNumber?]
  intro tail h
  cases h
  exact absurd hc (by decide)

/-- A sign and an unsigned number that is read. -/
theorem readNumber?_signed (negative : Bool) {cs : List Char} {r : Value × List Char}
    (h : readUnsigned? negative cs = some r) :
    readNumber? ((if negative then ['-'] else []) ++ cs) = some r := by
  cases negative with
  | true => exact h
  | false =>
    obtain ⟨c, rest, rfl, hc⟩ := head_of_readUnsigned? h
    exact (readNumber?_of_digit hc).trans h

theorem readNumber?_int (n : ℤ) (ht : Ends tail) :
    readNumber? ((toString n).toList ++ tail) = some (.int n, tail) := by
  cases n with
  | ofNat k =>
    have h := readUnsigned?_int false (whole_toDigits k) ht
    rw [digitsValue_toDigits] at h
    have hs : (toString (Int.ofNat k)).toList = Nat.toDigits 10 k := Nat.toList_repr
    rw [hs]
    exact readNumber?_signed false h
  | negSucc k =>
    have h := readUnsigned?_int true (whole_toDigits (k + 1)) ht
    rw [digitsValue_toDigits] at h
    have hs : (toString (Int.negSucc k)).toList = '-' :: Nat.toDigits 10 (k + 1) := by
      have : toString (Int.negSucc k) = "-" ++ Nat.repr (k + 1) := rfl
      rw [this, String.toList_append, Nat.toList_repr]
      rfl
    rw [hs]
    exact readNumber?_signed true h

theorem readNumber?_float (layout : Decimal.Layout) (negative : Bool) (m : Magnitude)
    (ht : Ends tail) : readNumber? (((Double.finite negative m).render layout).toList ++ tail) =
      some (.float (.finite negative m), tail) := by
  have hread : ReadsAs negative (m.shortest.render layout) tail m.shortest.value := by
    by_cases hs : m.significand = 0
    · rw [m.shortest_zero hs]
      exact readUnsigned?_render layout negative ht (by decide) fun _ => rfl
    · obtain ⟨hround, hpow⟩ := m.shortest_rounds hs
      refine readUnsigned?_render layout negative ht hpow fun h0 => absurd hround.1 ?_
      rw [not_le, Decimal.value, h0, Nat.cast_zero, zero_mul]
      exact m.low_pos hs
  obtain ⟨n, p, hr, hp, hval⟩ := hread
  rw [Double.ofScientific_shortest negative m hp hval] at hr
  rw [Double.render, String.toList_ofList, List.append_assoc]
  exact readNumber?_signed negative hr

/-- What a number is read from has a digit at its front or behind a sign. -/
theorem front_of_readNumber? {cs : List Char} {r : Value × List Char}
    (h : readNumber? cs = some r) : ∃ c rest, c.isDigit = true ∧
      (cs = c :: rest ∨ cs = '-' :: c :: rest) := by
  rw [readNumber?.eq_def] at h
  split at h
  · obtain ⟨c, rest, rfl, hc⟩ := head_of_readUnsigned? h
    exact ⟨c, rest, hc, Or.inr rfl⟩
  · obtain ⟨c, rest, rfl, hc⟩ := head_of_readUnsigned? h
    exact ⟨c, rest, hc, Or.inl rfl⟩

end SchemaLedger.Json
