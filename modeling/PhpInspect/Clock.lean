/-! # Moments as text -/

namespace PhpInspect.Clock

def padded (width n : Nat) : String :=
  let digits := Nat.toDigits 10 n
  String.ofList (List.replicate (width - digits.length) '0' ++ digits)

/-- The year, month and day that lie a number of days after the first of March of the year zero. Years are
counted from March, so that a leap day is the last of its year. -/
def dateOf (days : Nat) : Nat × Nat × Nat :=
  let era := days / 146097
  let ofEra := days % 146097
  let year := (ofEra - ofEra / 1460 + ofEra / 36524 - ofEra / 146096) / 365
  let ofYear := ofEra - (365 * year + year / 4 - year / 100)
  let month := (5 * ofYear + 2) / 153
  let day := ofYear - (153 * month + 2) / 5 + 1
  if month < 10 then (year + 400 * era, month + 3, day) else (year + 400 * era + 1, month - 9, day)

/-- The days from the first of March of the year zero to the first of January 1970. -/
def epoch : Nat := 719468

def text (seconds milliseconds : Nat) : String :=
  let (year, month, day) := dateOf (seconds / 86400 + epoch)
  let ofDay := seconds % 86400
  padded 4 year ++ "-" ++ padded 2 month ++ "-" ++ padded 2 day ++ " " ++ padded 2 (ofDay / 3600) ++ ":"
    ++ padded 2 (ofDay / 60 % 60) ++ ":" ++ padded 2 (ofDay % 60) ++ "." ++ padded 3 milliseconds

end PhpInspect.Clock
