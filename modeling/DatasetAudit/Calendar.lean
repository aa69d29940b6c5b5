/-!
Points in time as dates and times of day, in coordinated universal time. A point in time is given in
nanoseconds since the beginning of 1970.
-/

namespace DatasetAudit.Calendar

/-- A date and a time of day. -/
structure DateTime where
  year : Nat
  month : Nat
  day : Nat
  hour : Nat
  minute : Nat
  second : Nat
deriving DecidableEq, Repr

/-- The number of days from 1 March of the year zero to 1 January 1970. -/
def daysBeforeEpoch : Nat := 719468

/-- The number of days of four hundred years, after which the calendar repeats itself. -/
def daysOfEra : Nat := 146097

/-- The year of a day among four hundred years, which begin on 1 March. Leap days are taken out
first: one in four years, none at the end of a century, one at the end of the four hundred. -/
def yearOfEra (day : Nat) : Nat :=
  (day - day / 1460 + day / 36524 - day / 146096) / 365

/-- The number of days before a year among four hundred years. -/
def daysBeforeYear (year : Nat) : Nat :=
  365 * year + year / 4 - year / 100

/-- The year, month and day of a day, counted from the beginning of 1970. Years are taken to begin
on 1 March, so that the leap day is the last of its year. -/
def dateOfDay (day : Nat) : Nat × Nat × Nat :=
  let shifted := day + daysBeforeEpoch
  let dayOfEra := shifted % daysOfEra
  let yearOfEra := yearOfEra dayOfEra
  let dayOfYear := dayOfEra - daysBeforeYear yearOfEra
  let monthFromMarch := (5 * dayOfYear + 2) / 153
  let dayOfMonth := dayOfYear - (153 * monthFromMarch + 2) / 5 + 1
  let month := if monthFromMarch < 10 then monthFromMarch + 3 else monthFromMarch - 9
  let year := yearOfEra + 400 * (shifted / daysOfEra)
  (if month ≤ 2 then year + 1 else year, month, dayOfMonth)

/-- The number of nanoseconds of a second. -/
def nanosecondsOfSecond : Nat := 1000000000

/-- The number of seconds of a day. -/
def secondsOfDay : Nat := 86400

/-- The date and time of a point in time. -/
def ofNanoseconds (time : Nat) : DateTime :=
  let seconds := time / nanosecondsOfSecond
  let (year, month, day) := dateOfDay (seconds / secondsOfDay)
  let second := seconds % secondsOfDay
  { year, month, day
    hour := second / 3600, minute := second / 60 % 60, second := second % 60 }

/-- A number with zeros put in front to a width. -/
def padded (width n : Nat) : String :=
  let digits := toString n
  String.ofList (List.replicate (width - digits.length) '0') ++ digits

namespace DateTime

/-- The date and the time as digits only, an underscore between. -/
def stamp (t : DateTime) : String :=
  s!"{padded 4 t.year}{padded 2 t.month}{padded 2 t.day}_" ++
    s!"{padded 2 t.hour}{padded 2 t.minute}{padded 2 t.second}"

/-- The date and the time with separators and the letter of universal time. -/
def text (t : DateTime) : String :=
  s!"{padded 4 t.year}-{padded 2 t.month}-{padded 2 t.day}T" ++
    s!"{padded 2 t.hour}:{padded 2 t.minute}:{padded 2 t.second}Z"

end DateTime

end DatasetAudit.Calendar
