import CloneScan.Text

/-!
# Points in time

A point in time is a number of milliseconds since the start of 1970, without a time zone.
-/

namespace CloneScan

namespace Clock

/-- The decimal digits of a number, with zeros in front up to a width. -/
def padded (width n : Nat) : Text :=
  let digits := Text.ofNat n
  List.replicate (width - digits.length) 0x30 ++ digits

/-- The year, month and day of a number of days since the first of January 1970. -/
def civil (days : Int) : Int × Nat × Nat :=
  let z := days + 719468
  let era := z.fdiv 146097
  let doe := (z - era * 146097).toNat
  let yoe := (doe - doe / 1460 + doe / 36524 - doe / 146096) / 365
  let doy := doe - (365 * yoe + yoe / 4 - yoe / 100)
  let mp := (5 * doy + 2) / 153
  let day := doy - (153 * mp + 2) / 5 + 1
  let month := if mp < 10 then mp + 3 else mp - 9
  ((yoe : Int) + era * 400 + (if month ≤ 2 then 1 else 0), month, day)

/-- The year of a time stamp: four digits, or six with a sign. -/
def yearText (year : Int) : Text :=
  if 0 ≤ year && year ≤ 9999 then padded 4 year.toNat
  else (if year < 0 then 0x2D else 0x2B) :: padded 6 year.natAbs

/-- The time stamp of a number of milliseconds since the start of 1970. -/
def stamp (millis : Int) : Text :=
  let days := millis.fdiv 86400000
  let rest := (millis - days * 86400000).toNat
  let (year, month, day) := civil days
  yearText year ++ Text.ofString "-" ++ padded 2 month ++ Text.ofString "-" ++ padded 2 day ++
    Text.ofString "T" ++ padded 2 (rest / 3600000) ++ Text.ofString ":" ++
    padded 2 (rest / 60000 % 60) ++ Text.ofString ":" ++ padded 2 (rest / 1000 % 60) ++
    Text.ofString "." ++ padded 3 (rest % 1000) ++ Text.ofString "Z"

/-- The number of days from the start of 1970 to a day of a month; the months of a year count from
zero, and a month or a day beyond its year or month runs on. -/
def dayNumber (year month day : Int) : Int :=
  let months := month.fmod 12
  -- the year is taken to start in March
  let started := year + month.fdiv 12 - (if months ≤ 1 then 1 else 0)
  let sinceMarch := if months ≤ 1 then months + 10 else months - 2
  let era := started.fdiv 400
  let yearOfEra := started - era * 400
  era * 146097 + yearOfEra * 365 + yearOfEra / 4 - yearOfEra / 100 + (153 * sinceMarch + 2) / 5 +
    (day - 1) - 719468

/-- The names of the days, from the first day of 1970 on. -/
def dayNames : List String :=
  ["Thu", "Fri", "Sat", "Sun", "Mon", "Tue", "Wed"]

def monthNames : List String :=
  ["Jan", "Feb", "Mar", "Apr", "May", "Jun", "Jul", "Aug", "Sep", "Oct", "Nov", "Dec"]

/-- A point in time as it is shown, with the name of its day. -/
def shown (millis : Int) : Text :=
  let days := millis.fdiv 86400000
  let rest := (millis - days * 86400000).toNat
  let (year, month, day) := civil days
  Text.ofString (dayNames.getD (days.fmod 7).toNat "") ++ Text.ofString " " ++
    Text.ofString (monthNames.getD (month - 1) "") ++ Text.ofString " " ++ padded 2 day ++
    Text.ofString " " ++ padded 4 year.natAbs ++ Text.ofString " " ++
    padded 2 (rest / 3600000) ++ Text.ofString ":" ++ padded 2 (rest / 60000 % 60) ++
    Text.ofString ":" ++ padded 2 (rest / 1000 % 60) ++
    Text.ofString " GMT+0000 (Coordinated Universal Time)"

end Clock

end CloneScan
