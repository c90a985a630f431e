/-!
# Removal dates

`RemovalDate` is a day of the proleptic Gregorian calendar in the years 1 to 9999, and its
written form is `YYYY-MM-DD`. `RemovalDate.ofText?` reads that form and nothing else.
-/

namespace PolicyLint

namespace Calendar

/-- Whether a year has a February 29. -/
def isLeapYear (year : Nat) : Bool :=
  year % 4 == 0 && (year % 100 != 0 || year % 400 == 0)

/-- The number of days of a month, 0 if there is no such month. -/
def daysInMonth (year month : Nat) : Nat :=
  match month with
  | 1 | 3 | 5 | 7 | 8 | 10 | 12 => 31
  | 4 | 6 | 9 | 11 => 30
  | 2 => if isLeapYear year then 29 else 28
  | _ => 0

/-- Whether there is such a day in a year of at most four digits. -/
def IsDay (year month day : Nat) : Prop :=
  1 ≤ year ∧ year ≤ 9999 ∧ 1 ≤ day ∧ day ≤ daysInMonth year month

instance (year month day : Nat) : Decidable (IsDay year month day) :=
  inferInstanceAs (Decidable (_ ∧ _))

/-- The digits of a number with zeros before them, `width` in all if the number has no
more. -/
def padded : (width : Nat) → (n : Nat) → List Char
  | 0, _ => []
  | width + 1, n => padded width (n / 10) ++ [Nat.digitChar (n % 10)]

/-- The number that digits spell, if they are digits of ASCII. -/
def number? (digits : List Char) : Option Nat :=
  digits.foldlM (fun n c => if c.isDigit then some (10 * n + (c.toNat - '0'.toNat)) else none) 0

end Calendar

/-- The day after which a deprecated usage is to be removed. -/
structure RemovalDate where
  year : Nat
  month : Nat
  day : Nat
  isDay : Calendar.IsDay year month day
deriving DecidableEq

namespace RemovalDate

/-- The date with these parts, if there is such a day. -/
def ofParts? (year month day : Nat) : Option RemovalDate :=
  if h : Calendar.IsDay year month day then some ⟨year, month, day, h⟩ else none

/-- The date written as `YYYY-MM-DD`. -/
def ofChars? : List Char → Option RemovalDate
  | [y₁, y₂, y₃, y₄, '-', m₁, m₂, '-', d₁, d₂] => do
    let year ← Calendar.number? [y₁, y₂, y₃, y₄]
    let month ← Calendar.number? [m₁, m₂]
    let day ← Calendar.number? [d₁, d₂]
    ofParts? year month day
  | _ => none

/-- The date written as `YYYY-MM-DD`. -/
def ofText? (text : String) : Option RemovalDate :=
  ofChars? text.toList

/-- The written form of a date. -/
def text (date : RemovalDate) : String :=
  String.ofList (Calendar.padded 4 date.year ++ '-' :: Calendar.padded 2 date.month ++
    '-' :: Calendar.padded 2 date.day)

end RemovalDate

end PolicyLint
