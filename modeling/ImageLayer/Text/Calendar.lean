/-!
Points in time by the calendar.

A point in time is a whole number of seconds from the start of 1970, days having 86400 seconds and
the calendar reaching back and forth without a break. Years from zero to 9999 are written with four
digits and all others with a sign.
-/

namespace ImageLayer.Calendar

/-- The earliest and the latest second that has a date. -/
def secondRange : Int × Int := (-8334601228800, 8210266876799)

/-- Whether a second has a date. -/
def hasDate (seconds : Int) : Bool := secondRange.1 ≤ seconds && seconds ≤ secondRange.2

/-- Year, month and day of a day counted from the start of 1970. Days are counted from the first of
March of the year zero, so that a leap day is the last of its year, and cut into eras of 400 years,
which have equally many days each. -/
def date (day : Int) : Int × Int × Int :=
  let shifted := day + 719468
  let era := shifted.fdiv 146097
  let ofEra := shifted.fmod 146097
  let yearOfEra := (ofEra - ofEra / 1460 + ofEra / 36524 - ofEra / 146096) / 365
  let ofYear := ofEra - (365 * yearOfEra + yearOfEra / 4 - yearOfEra / 100)
  let month := (5 * ofYear + 2) / 153
  let day := ofYear - (153 * month + 2) / 5 + 1
  let month := if month < 10 then month + 3 else month - 9
  (yearOfEra + era * 400 + (if month ≤ 2 then 1 else 0), month, day)

/-- A natural number with at least `width` digits. -/
def padded (width n : Nat) : String :=
  let digits := Nat.toDigits 10 n
  String.ofList (List.replicate (width - digits.length) '0' ++ digits)

/-- A year in written form. -/
def yearText (year : Int) : String :=
  if year < 0 then "-" ++ padded 4 year.natAbs
  else if 9999 < year then "+" ++ padded 4 year.natAbs
  else padded 4 year.natAbs

/-- A second as date and time of day in universal time. -/
def timestamp (seconds : Int) : String :=
  let (year, month, day) := date (seconds.fdiv 86400)
  let ofDay := (seconds.fmod 86400).toNat
  yearText year ++ "-" ++ padded 2 month.toNat ++ "-" ++ padded 2 day.toNat ++ "T" ++
    padded 2 (ofDay / 3600) ++ ":" ++ padded 2 (ofDay / 60 % 60) ++ ":" ++ padded 2 (ofDay % 60) ++
    "Z"

end ImageLayer.Calendar
