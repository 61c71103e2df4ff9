/-!
Instants of the UTC clock, counted in microseconds from the first of January of
year 1, and their ISO text as `datetime.isoformat` prints it.
-/

abbrev Time := Nat

namespace PyTime

def microsPerSecond : Nat := 1000000

def seconds (n : Nat) : Time := n * microsPerSecond

def isLeap (year : Nat) : Bool := year % 4 = 0 && (year % 100 ≠ 0 || year % 400 = 0)

def monthLengths (leap : Bool) : List Nat :=
  [31, if leap then 29 else 28, 31, 30, 31, 30, 31, 31, 30, 31, 30, 31]

/-- The month and day that lie `day` days after the first day of `month`. -/
def monthAndDay (month day : Nat) : List Nat → Nat × Nat
  | [] => (month, day + 1)
  | length :: rest =>
      if day < length then (month, day + 1) else monthAndDay (month + 1) (day - length) rest

/-- Year, month and day of the date `ordinal` days after the first one. -/
def civil (ordinal : Nat) : Nat × Nat × Nat :=
  let n400 := ordinal / 146097
  let r400 := ordinal % 146097
  let n100 := r400 / 36524
  let r100 := r400 % 36524
  let n4 := r100 / 1461
  let r4 := r100 % 1461
  let n1 := r4 / 365
  let year := n400 * 400 + n100 * 100 + n4 * 4 + n1 + 1
  if n1 = 4 ∨ n100 = 4 then (year - 1, 12, 31)
  else (year, monthAndDay 1 (r4 % 365) (monthLengths (isLeap year)))

def padded (width n : Nat) : List Char :=
  let digits := Nat.toDigits 10 n
  List.replicate (width - digits.length) '0' ++ digits

def isoformat (t : Time) : String :=
  let secs := t / microsPerSecond
  let micros := t % microsPerSecond
  let (year, month, day) := civil (secs / 86400)
  let ofDay := secs % 86400
  String.ofList
    (padded 4 year ++ '-' :: padded 2 month ++ '-' :: padded 2 day ++
      'T' :: padded 2 (ofDay / 3600) ++ ':' :: padded 2 (ofDay / 60 % 60) ++
      ':' :: padded 2 (ofDay % 60) ++ (if micros = 0 then [] else '.' :: padded 6 micros) ++
      "+00:00".toList)

example : isoformat (seconds 63839664000) = "2024-01-01T00:00:00+00:00" := by
  decide +kernel

end PyTime
