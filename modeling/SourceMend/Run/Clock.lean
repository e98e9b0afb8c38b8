/-! Points in time as reports show them. -/
namespace SourceMend.Clock

def daysOfMonth (leap : Bool) : List Nat :=
  [31, if leap then 29 else 28, 31, 30, 31, 30, 31, 31, 30, 31, 30, 31]

def isLeap (year : Nat) : Bool := year % 4 = 0 && (year % 100 ≠ 0 || year % 400 = 0)

/-- The year in which a day lies that comes `days` days after the first of `year`, and the days
that are left in it. -/
def yearOf : (fuel : Nat) → (year days : Nat) → Nat × Nat
  | 0, year, days => (year, days)
  | fuel + 1, year, days =>
    let size := if isLeap year then 366 else 365
    if days < size then (year, days) else yearOf fuel (year + 1) (days - size)

/-- The month and the day of the month, both from one on. -/
def monthOf (month days : Nat) : List Nat → Nat × Nat
  | [] => (month, days + 1)
  | size :: rest =>
    if days < size then (month, days + 1) else monthOf (month + 1) (days - size) rest

def twoDigits (n : Nat) : String := if n < 10 then s!"0{n}" else toString n

/-- The point `seconds` seconds after the start of 1970, in coordinated universal time. -/
def stamp (seconds : Nat) : String :=
  let days := seconds / 86400
  let (year, dayOfYear) := yearOf days 1970 days
  let (month, day) := monthOf 1 dayOfYear (daysOfMonth (isLeap year))
  let time := seconds % 86400
  s!"{year}-{twoDigits month}-{twoDigits day}T" ++
    s!"{twoDigits (time / 3600)}:{twoDigits (time / 60 % 60)}:{twoDigits (time % 60)}+00:00"

end SourceMend.Clock
