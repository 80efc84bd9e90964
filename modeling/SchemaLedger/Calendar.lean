set_option autoImplicit false

/-!
# Dates and timestamps

Days of the proleptic Gregorian calendar from year 1 to 9999, and points of time on them to the
microsecond, without a time zone. Reading accepts the extended and the basic ISO forms.
-/
namespace SchemaLedger

def isLeapYear (year : Nat) : Bool := year % 4 = 0 && (year % 100 ≠ 0 || year % 400 = 0)

def daysInMonth (year month : Nat) : Nat :=
  if month = 2 then (if isLeapYear year then 29 else 28)
  else if month = 4 ∨ month = 6 ∨ month = 9 ∨ month = 11 then 30
  else 31

def Date.Valid (year month day : Nat) : Prop :=
  1 ≤ year ∧ year ≤ 9999 ∧ 1 ≤ month ∧ month ≤ 12 ∧ 1 ≤ day ∧ day ≤ daysInMonth year month

instance (year month day : Nat) : Decidable (Date.Valid year month day) :=
  inferInstanceAs (Decidable (_ ∧ _ ∧ _ ∧ _ ∧ _ ∧ _))

structure Date where
  year : Nat
  month : Nat
  day : Nat
  valid : Date.Valid year month day
  deriving DecidableEq

def Clock.Valid (hour minute second microsecond : Nat) : Prop :=
  hour < 24 ∧ minute < 60 ∧ second < 60 ∧ microsecond < 1000000

instance (h m s u : Nat) : Decidable (Clock.Valid h m s u) :=
  inferInstanceAs (Decidable (_ ∧ _ ∧ _ ∧ _))

/-- A time of day. -/
structure Clock where
  hour : Nat
  minute : Nat
  second : Nat
  microsecond : Nat
  valid : Clock.Valid hour minute second microsecond
  deriving DecidableEq

structure Timestamp where
  date : Date
  clock : Clock
  deriving DecidableEq

/-- The decimal digits of `n`, at least `width` of them. -/
def paddedNat (width n : Nat) : String :=
  let digits := Nat.toDigits 10 n
  String.ofList (List.replicate (width - digits.length) '0' ++ digits)

/-- The value of a text of exactly `width` decimal digits at the front, and the rest. -/
def takeNat? (width : Nat) (cs : List Char) : Option (Nat × List Char) :=
  let front := cs.take width
  if front.length = width ∧ front.all Char.isDigit then
    some (front.foldl (fun n c => 10 * n + (c.toNat - '0'.toNat)) 0, cs.drop width)
  else none

namespace Date

def make? (year month day : Nat) : Option Date :=
  if h : Valid year month day then some ⟨year, month, day, h⟩ else none

def iso (d : Date) : String :=
  paddedNat 4 d.year ++ "-" ++ paddedNat 2 d.month ++ "-" ++ paddedNat 2 d.day

/-- Reads `YYYY-MM-DD` or `YYYYMMDD` at the front of a text. -/
def read? (cs : List Char) : Option (Date × List Char) := do
  let (year, cs) ← takeNat? 4 cs
  match cs with
  | '-' :: cs => do
    let (month, cs) ← takeNat? 2 cs
    match cs with
    | '-' :: cs => do
      let (day, cs) ← takeNat? 2 cs
      let date ← make? year month day
      some (date, cs)
    | _ => none
  | _ => do
    let (month, cs) ← takeNat? 2 cs
    let (day, cs) ← takeNat? 2 cs
    let date ← make? year month day
    some (date, cs)

def ofIso? (s : String) : Option Date :=
  match read? s.toList with
  | some (date, []) => some date
  | _ => none

end Date

namespace Clock

def midnight : Clock := ⟨0, 0, 0, 0, by decide⟩

def make? (hour minute second microsecond : Nat) : Option Clock :=
  if h : Valid hour minute second microsecond then some ⟨hour, minute, second, microsecond, h⟩
  else none

/-- The digits after the seconds as microseconds; digits beyond the sixth are dropped. -/
def readFraction? (cs : List Char) : Option Nat :=
  if cs = [] ∨ !cs.all Char.isDigit then none
  else
    let six := (cs ++ List.replicate 6 '0').take 6
    (takeNat? 6 six).map (·.1)

/-- What may follow the seconds: nothing, or a point or comma and a fraction. -/
def readTail? (hour minute second : Nat) : List Char → Option Clock
  | [] => make? hour minute second 0
  | c :: cs =>
    if c = '.' ∨ c = ',' then (readFraction? cs).bind (make? hour minute second) else none

/-- Reads `HH`, `HH:MM`, `HH:MM:SS` with an optional fraction, or the same without colons. -/
def ofIso? (cs : List Char) : Option Clock := do
  let (hour, cs) ← takeNat? 2 cs
  match cs with
  | [] => make? hour 0 0 0
  | ':' :: cs => do
    let (minute, cs) ← takeNat? 2 cs
    match cs with
    | ':' :: cs => do
      let (second, cs) ← takeNat? 2 cs
      readTail? hour minute second cs
    | cs => readTail? hour minute 0 cs
  | '.' :: _ => readTail? hour 0 0 cs
  | ',' :: _ => readTail? hour 0 0 cs
  | cs => do
    let (minute, cs) ← takeNat? 2 cs
    match cs with
    | [] => make? hour minute 0 0
    | c :: _ =>
      if c.isDigit then do
        let (second, cs) ← takeNat? 2 cs
        readTail? hour minute second cs
      else readTail? hour minute 0 cs

/-- Hours, minutes and seconds, with six more digits if `full` or if they are not zero. -/
def iso (full : Bool) (t : Clock) : String :=
  let seconds := paddedNat 2 t.hour ++ ":" ++ paddedNat 2 t.minute ++ ":" ++ paddedNat 2 t.second
  if full ∨ t.microsecond ≠ 0 then seconds ++ "." ++ paddedNat 6 t.microsecond else seconds

end Clock

namespace Timestamp

/-- The ISO form; `separator` stands between the date and the time. -/
def iso (separator : String) (t : Timestamp) : String :=
  t.date.iso ++ separator ++ t.clock.iso false

/-- The stored form, always with six digits of a second. -/
def stored (t : Timestamp) : String := t.date.iso ++ " " ++ t.clock.iso true

/-- A date, and after any one character a time of day; the date alone means midnight. -/
def ofIso? (s : String) : Option Timestamp := do
  let (date, cs) ← Date.read? s.toList
  match cs with
  | [] => some ⟨date, .midnight⟩
  | [_] => some ⟨date, .midnight⟩
  | _ :: time => (Clock.ofIso? time).map (⟨date, ·⟩)

/-- `date_time` with milliseconds and without marks, as in the name of a migration. -/
def compact (t : Timestamp) : String :=
  toString t.date.year ++ paddedNat 2 t.date.month ++ paddedNat 2 t.date.day ++ "_" ++
    paddedNat 2 t.clock.hour ++ paddedNat 2 t.clock.minute ++ paddedNat 2 t.clock.second ++
    paddedNat 3 (t.clock.microsecond / 1000)

end Timestamp

/-! ## Time since the epoch

The timestamp of a number of microseconds since the first instant of 1970. The days are counted from
the first of March of the year 0, so that a leap day is the last day of its year. -/

/-- The days from the first of March of the year 0 to the first of January 1970. -/
def epochDays : Nat := 719468

/-- The date of a day counted from the first of March of the year 0. -/
def Date.ofDays? (days : Nat) : Option Date :=
  let era := days / 146097
  let day := days % 146097
  let year := (day - day / 1460 + day / 36524 - day / 146096) / 365
  let dayOfYear := day - (365 * year + year / 4 - year / 100)
  let month := (5 * dayOfYear + 2) / 153
  let dayOfMonth := dayOfYear - (153 * month + 2) / 5 + 1
  if month < 10 then Date.make? (era * 400 + year) (month + 3) dayOfMonth
  else Date.make? (era * 400 + year + 1) (month - 9) dayOfMonth

def Timestamp.ofMicroseconds? (n : Nat) : Option Timestamp := do
  let seconds := n / 1000000
  let ofDay := seconds % 86400
  let date ← Date.ofDays? (epochDays + seconds / 86400)
  let clock ← Clock.make? (ofDay / 3600) (ofDay / 60 % 60) (ofDay % 60) (n % 1000000)
  some ⟨date, clock⟩

/-- The first instant of 1970. -/
def Timestamp.epoch : Timestamp := ⟨⟨1970, 1, 1, by decide⟩, .midnight⟩

end SchemaLedger
