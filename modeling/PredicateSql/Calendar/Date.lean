/-!
# Calendar dates

Dates of the Gregorian calendar, extended to all years in both directions; year 0 comes before
year 1.

* `Date`: a year, a month and a day that the calendar has. `Date.ofCivil?` is the only way to
  make one from three numbers.
* `Date.dayNumber` counts the days since 0001-01-01; `Date.ofDayNumber?` is its inverse on the
  years that a date may have.
* `Date.addDays?`: the date some days later or earlier.
* `Date.render`: the text `2024-03-01`.
-/

namespace PredicateSql

/-- Every fourth year, except the hundredth ones that are not also four-hundredth ones. -/
def isLeapYear (year : Int) : Bool :=
  year % 4 == 0 && (year % 100 != 0 || year % 400 == 0)

/-- The lengths of the twelve months. -/
def monthLengths (leap : Bool) : List Nat :=
  [31, if leap then 29 else 28, 31, 30, 31, 30, 31, 31, 30, 31, 30, 31]

/-- The number of days in a month, zero for a month that the calendar does not have. -/
def daysInMonth (year : Int) (month : Nat) : Nat :=
  if month = 0 then 0 else ((monthLengths (isLeapYear year))[month - 1]?).getD 0

namespace Date

/-- The first year of a date. -/
def firstYear : Int := -262143

/-- The last year of a date. -/
def lastYear : Int := 262142

/-- The calendar has such a day. -/
def IsCivil (year : Int) (month day : Nat) : Prop :=
  firstYear ≤ year ∧ year ≤ lastYear ∧ 1 ≤ day ∧ day ≤ daysInMonth year month

instance (year : Int) (month day : Nat) : Decidable (IsCivil year month day) :=
  inferInstanceAs (Decidable (_ ∧ _ ∧ _ ∧ _))

end Date

/-- A day of the calendar. -/
structure Date where
  year : Int
  month : Nat
  day : Nat
  isCivil : Date.IsCivil year month day
  deriving Repr, DecidableEq

namespace Date

instance : Inhabited Date := ⟨⟨1, 1, 1, by decide⟩⟩

/-- The day with these numbers, if the calendar has it. -/
def ofCivil? (year month day : Int) : Option Date :=
  if h : IsCivil year month.toNat day.toNat then some ⟨year, month.toNat, day.toNat, h⟩ else none

/-! ### Counting days -/

/-- The days from 0001-01-01 to the first day of a year. -/
def daysBeforeYear (year : Int) : Int :=
  let y := year - 1
  365 * y + y / 4 - y / 100 + y / 400

/-- The days since 0001-01-01. -/
def dayNumber (d : Date) : Int :=
  let months := (monthLengths (isLeapYear d.year)).take (d.month - 1)
  let daysBeforeMonth : Nat := months.foldl (· + ·) 0
  daysBeforeYear d.year + daysBeforeMonth + d.day - 1

/-- The month and the day of the month that a day of the year falls on, both counted from zero. -/
def splitDayOfYear : List Nat → Nat → Nat × Nat
  | [], day => (0, day)
  | length :: rest, day =>
    if day < length then (0, day)
    else
      let (month, day) := splitDayOfYear rest (day - length)
      (month + 1, day)

/-- The day with a number. Cycles of 400, 100, 4 and 1 years are taken off in turn; the last
hundred of a cycle of four hundred years, and the last year of four, are a day longer. -/
def ofDayNumber? (n : Int) : Option Date :=
  let cycle := n / 146097
  let inCycle := (n % 146097).toNat
  let century := min (inCycle / 36524) 3
  let inCentury := inCycle - 36524 * century
  let quad := inCentury / 1461
  let inQuad := inCentury % 1461
  let single := min (inQuad / 365) 3
  let year : Int := 400 * cycle + 100 * century + 4 * quad + single + 1
  let (month, day) := splitDayOfYear (monthLengths (isLeapYear year)) (inQuad - 365 * single)
  ofCivil? year (month + 1) (day + 1)

/-- The date so many days later, or earlier if the number is negative. -/
def addDays? (d : Date) (days : Int) : Option Date :=
  ofDayNumber? (d.dayNumber + days)

/-! ### Order and text -/

/-- Earlier dates come first. -/
instance : Ord Date where
  compare a b := (compare a.year b.year).then ((compare a.month b.month).then (compare a.day b.day))

/-- A number with at least so many digits. -/
def padded (width n : Nat) : String :=
  let digits := toString n
  .ofList (List.replicate (width - digits.length) '0') ++ digits

/-- Four digits from year 0 to year 9999; outside of these a sign, then at least four digits. -/
def renderYear (year : Int) : String :=
  if 0 ≤ year ∧ year ≤ 9999 then padded 4 year.toNat
  else (if year < 0 then "-" else "+") ++ padded 4 year.natAbs

/-- Year, month and day, joined by hyphens. -/
def render (d : Date) : String :=
  renderYear d.year ++ "-" ++ padded 2 d.month ++ "-" ++ padded 2 d.day

end Date

end PredicateSql
