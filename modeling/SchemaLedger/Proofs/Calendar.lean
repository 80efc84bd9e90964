import Mathlib.Data.Nat.Digits.Lemmas
import SchemaLedger.Calendar

set_option autoImplicit false

/-!
# Timestamps that are read back

The stored form of a timestamp, which has a fixed number of digits for each of its parts, denotes
that timestamp.
-/
namespace SchemaLedger

section Digits

variable {width n : ℕ} {rest : List Char}

theorem toList_paddedNat (width n : ℕ) : (paddedNat width n).toList =
    List.replicate (width - (Nat.toDigits 10 n).length) '0' ++ Nat.toDigits 10 n := by
  simp [paddedNat]

theorem length_paddedNat (hw : 0 < width) (hn : n < 10 ^ width) :
    (paddedNat width n).toList.length = width := by
  have hlen := (Nat.length_toDigits_le_iff (by decide) hw).2 hn
  rw [toList_paddedNat, List.length_append, List.length_replicate]
  omega

theorem isDigit_paddedNat (width n : ℕ) : ∀ c ∈ (paddedNat width n).toList, c.isDigit = true := by
  intro c hc
  rw [toList_paddedNat, List.mem_append] at hc
  rcases hc with hc | hc
  · rw [List.eq_of_mem_replicate hc]
    decide
  · exact Nat.isDigit_of_mem_toDigits (by decide) (by decide) hc

theorem ofDigitChars_paddedNat (width n : ℕ) :
    Nat.ofDigitChars 10 (paddedNat width n).toList 0 = n := by
  rw [toList_paddedNat, Nat.ofDigitChars_append, Nat.ofDigitChars_replicate_zero, Nat.mul_zero,
    Nat.ofDigitChars_ten_toDigits]

/-- A number with a fixed number of digits is read back, whatever follows. -/
theorem takeNat?_paddedNat (hw : 0 < width) (hn : n < 10 ^ width) :
    takeNat? width ((paddedNat width n).toList ++ rest) = some (n, rest) := by
  have hlen := length_paddedNat hw hn
  have htake : ((paddedNat width n).toList ++ rest).take width = (paddedNat width n).toList :=
    List.take_left' hlen
  have hdrop : ((paddedNat width n).toList ++ rest).drop width = rest := List.drop_left' hlen
  have hdigits : (paddedNat width n).toList.all Char.isDigit = true :=
    List.all_eq_true.2 (isDigit_paddedNat width n)
  have hvalue := ofDigitChars_paddedNat width n
  rw [Nat.ofDigitChars_eq_foldl] at hvalue
  simp only [takeNat?, htake, hdrop, hlen, hdigits, and_self, if_true, hvalue]

end Digits

/-! ## Dates -/

theorem Date.make?_self (d : Date) : Date.make? d.year d.month d.day = some d :=
  dif_pos d.valid

theorem daysInMonth_le (year month : ℕ) : daysInMonth year month ≤ 31 := by
  unfold daysInMonth
  repeat' split
  all_goals decide

theorem Date.read?_iso (d : Date) (rest : List Char) :
    Date.read? (d.iso.toList ++ rest) = some (d, rest) := by
  obtain ⟨-, hyear, -, hmonth, -, hday⟩ := d.valid
  have hle := daysInMonth_le d.year d.month
  have hy : d.year < 10 ^ 4 := by omega
  have hm : d.month < 10 ^ 2 := by omega
  have hd : d.day < 10 ^ 2 := by omega
  have htext : d.iso.toList ++ rest = (paddedNat 4 d.year).toList ++
      '-' :: ((paddedNat 2 d.month).toList ++ '-' :: ((paddedNat 2 d.day).toList ++ rest)) := by
    simp [Date.iso]
  have hposition : 0 < 2 := by decide
  rw [htext, Date.read?, takeNat?_paddedNat (by decide) hy]
  simp only [Option.bind_eq_bind, Option.bind_some, takeNat?_paddedNat hposition hm,
    takeNat?_paddedNat hposition hd, Date.make?_self]

/-! ## Times of day -/

theorem Clock.make?_self (t : Clock) :
    Clock.make? t.hour t.minute t.second t.microsecond = some t :=
  dif_pos t.valid

theorem Clock.readFraction?_paddedNat {n : ℕ} (h : n < 10 ^ 6) :
    Clock.readFraction? (paddedNat 6 n).toList = some n := by
  have hlen := length_paddedNat (by decide) h
  have hne : (paddedNat 6 n).toList ≠ [] := by
    intro hnil
    rw [hnil] at hlen
    cases hlen
  have hdigits : (paddedNat 6 n).toList.all Char.isDigit = true :=
    List.all_eq_true.2 (isDigit_paddedNat 6 n)
  have hsix : ((paddedNat 6 n).toList ++ List.replicate 6 '0').take 6 =
      (paddedNat 6 n).toList :=
    List.take_left' hlen
  have hread : takeNat? 6 ((paddedNat 6 n).toList ++ []) = some (n, []) :=
    takeNat?_paddedNat (by decide) h
  rw [List.append_nil] at hread
  rw [Clock.readFraction?, hsix]
  simp [hread, hne, hdigits]

theorem Clock.ofIso?_iso (t : Clock) : Clock.ofIso? (t.iso true).toList = some t := by
  obtain ⟨hhour, hminute, hsecond, hmicro⟩ := t.valid
  have hh : t.hour < 10 ^ 2 := by omega
  have hm : t.minute < 10 ^ 2 := by omega
  have hs : t.second < 10 ^ 2 := by omega
  have hu : t.microsecond < 10 ^ 6 := by omega
  have htext : (t.iso true).toList = (paddedNat 2 t.hour).toList ++
      ':' :: ((paddedNat 2 t.minute).toList ++
        ':' :: ((paddedNat 2 t.second).toList ++ '.' :: (paddedNat 6 t.microsecond).toList)) := by
    simp [Clock.iso]
  have hposition : 0 < 2 := by decide
  rw [htext, Clock.ofIso?, takeNat?_paddedNat hposition hh]
  simp [takeNat?_paddedNat hposition hm, takeNat?_paddedNat hposition hs, Clock.readTail?,
    Clock.readFraction?_paddedNat hu, Clock.make?_self]

/-- The stored form of a timestamp denotes it. -/
theorem Timestamp.ofIso?_stored (t : Timestamp) : Timestamp.ofIso? t.stored = some t := by
  have htext : t.stored.toList = t.date.iso.toList ++ ' ' :: (t.clock.iso true).toList := by
    simp [Timestamp.stored]
  have hne : (t.clock.iso true).toList ≠ [] := by
    simp [Clock.iso]
  rw [Timestamp.ofIso?, htext, Date.read?_iso]
  simp [Clock.ofIso?_iso]

end SchemaLedger
