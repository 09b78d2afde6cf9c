import PredicateSql.Calendar.Date

/-!
# Points in time

A date with a time of day, without a time zone.

* `DateTime`: the fields of a clock. A nanosecond of 1 000 000 000 or more, in the last second of
  a minute, is a moment within a leap second, and shows as second 60.
* `DateTime.addSeconds?`: the point so many whole seconds later.
* `DateTime.render`: the text `2024-03-01 13:05:00.250`.
-/

namespace PredicateSql

namespace DateTime

/-- A clock shows such a time. -/
def IsClock (hour minute second nanosecond : Nat) : Prop :=
  hour < 24 ∧ minute < 60 ∧ second < 60 ∧ nanosecond < 2000000000 ∧
    (1000000000 ≤ nanosecond → second = 59)

instance (hour minute second nanosecond : Nat) :
    Decidable (IsClock hour minute second nanosecond) :=
  inferInstanceAs (Decidable (_ ∧ _ ∧ _ ∧ _ ∧ (_ → _)))

end DateTime

/-- A date and a time of day. -/
structure DateTime where
  date : Date
  hour : Nat
  minute : Nat
  second : Nat
  nanosecond : Nat
  isClock : DateTime.IsClock hour minute second nanosecond
  deriving Repr, DecidableEq

namespace DateTime

instance : Inhabited DateTime := ⟨⟨default, 0, 0, 0, 0, by decide⟩⟩

/-- Midnight at the start of a day. -/
def ofDate (date : Date) : DateTime :=
  ⟨date, 0, 0, 0, 0, by decide⟩

/-- The point with these numbers on its clock, if a clock shows them. -/
def ofClock? (date : Date) (hour minute second nanosecond : Int) : Option DateTime :=
  if h : IsClock hour.toNat minute.toNat second.toNat nanosecond.toNat ∧
      0 ≤ hour ∧ 0 ≤ minute ∧ 0 ≤ second ∧ 0 ≤ nanosecond then
    some ⟨date, hour.toNat, minute.toNat, second.toNat, nanosecond.toNat, h.1⟩
  else none

/-- The point so many nanoseconds after the start of 1970. -/
def ofUnixTime? (nanoseconds : Int) : Option DateTime :=
  let second := nanoseconds / 1000000000
  let inDay := second % 86400
  (Date.ofDayNumber? (719162 + second / 86400)).bind fun date =>
    ofClock? date (inDay / 3600) (inDay / 60 % 60) (inDay % 60) (nanoseconds % 1000000000)

/-! ### Adding seconds -/

/-- The seconds since midnight. -/
def secondOfDay (t : DateTime) : Nat :=
  3600 * t.hour + 60 * t.minute + t.second

/-- The point so many seconds later, or earlier if the number is negative. No other minute is known
to have a leap second, so a move out of one counts from a neighbouring second instead: from the
second before it when time goes on, and from the one after it when time goes back. -/
def addSeconds? (t : DateTime) (seconds : Int) : Option DateTime :=
  if seconds = 0 then some t
  else
    let leap := 1000000000 ≤ t.nanosecond
    let nanosecond := if leap then t.nanosecond - 1000000000 else t.nanosecond
    let start : Int := if leap ∧ seconds < 0 then t.secondOfDay + 1 else t.secondOfDay
    let total := start + seconds
    let inDay := total % 86400
    (t.date.addDays? (total / 86400)).bind fun date =>
      ofClock? date (inDay / 3600) (inDay / 60 % 60) (inDay % 60) nanosecond

/-! ### Order and text -/

/-- Earlier points come first. -/
instance : Ord DateTime where
  compare a b :=
    (compare a.date b.date).then
      ((compare a.secondOfDay b.secondOfDay).then (compare a.nanosecond b.nanosecond))

/-- The fraction of a second in three, six or nine digits, the fewest that are exact; nothing for
a whole second. -/
def renderFraction (nanosecond : Nat) : String :=
  let n := nanosecond % 1000000000
  if n = 0 then ""
  else if n % 1000000 = 0 then "." ++ Date.padded 3 (n / 1000000)
  else if n % 1000 = 0 then "." ++ Date.padded 6 (n / 1000)
  else "." ++ Date.padded 9 n

/-- Date and time, separated by a space. -/
def render (t : DateTime) : String :=
  t.date.render ++ " " ++ Date.padded 2 t.hour ++ ":" ++ Date.padded 2 t.minute ++ ":" ++
    Date.padded 2 (t.second + t.nanosecond / 1000000000) ++ renderFraction t.nanosecond

end DateTime

end PredicateSql
