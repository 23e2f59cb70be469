namespace LayeredDiagram.Log.Timestamp

def pad (places n : Nat) : String :=
  let digits := toString n
  String.ofList (List.replicate (places - digits.length) '0') ++ digits

-- Year, month and day. Years are counted from March on, so that a leap day is the last of its year,
-- and 719468 days lie between the first of March of year 0 and 1970.
def date (days : Nat) : Nat × Nat × Nat :=
  let shifted := days + 719468
  let era := shifted / 146097
  let dayOfEra := shifted % 146097
  let yearOfEra := (dayOfEra - dayOfEra / 1460 + dayOfEra / 36524 - dayOfEra / 146096) / 365
  let dayOfYear := dayOfEra - (365 * yearOfEra + yearOfEra / 4 - yearOfEra / 100)
  let shiftedMonth := (5 * dayOfYear + 2) / 153
  let day := dayOfYear - (153 * shiftedMonth + 2) / 5 + 1
  let month := if shiftedMonth < 10 then shiftedMonth + 3 else shiftedMonth - 9
  let year := yearOfEra + era * 400 + (if month ≤ 2 then 1 else 0)
  (year, month, day)

-- Milliseconds since 1970 as a date and a time of day.
def text (ms : Nat) : String :=
  let (year, month, day) := date (ms / 86400000)
  let inDay := ms % 86400000
  pad 4 year ++ "-" ++ pad 2 month ++ "-" ++ pad 2 day ++ "T" ++ pad 2 (inDay / 3600000) ++ ":" ++
    pad 2 (inDay / 60000 % 60) ++ ":" ++ pad 2 (inDay / 1000 % 60) ++ "." ++
    pad 3 (inDay % 1000) ++ "Z"

end LayeredDiagram.Log.Timestamp
