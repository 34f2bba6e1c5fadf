import Ambient.Number.Written

/-!
# Calendar days and times of day

A day of the proleptic Gregorian calendar from year 1 to year 9999, or a time on
such a day to the microsecond, possibly with its offset from universal time.
-/

namespace Ambient

/-- A day, or a time on a day.  An offset is counted in minutes, east
positive. -/
inductive Moment where
  | day (year month day : Nat)
  | time (year month day hour minute second micro : Nat) (offset : Option Int)
deriving DecidableEq, Repr

namespace Moment

def isLeap (year : Nat) : Bool :=
  year % 4 == 0 && (year % 100 != 0 || year % 400 == 0)

def daysIn (year month : Nat) : Nat :=
  if month == 2 then (if isLeap year then 29 else 28)
  else if month == 4 || month == 6 || month == 9 || month == 11 then 30
  else 31

def isDay (year month day : Nat) : Bool :=
  1 ≤ year && year ≤ 9999 && 1 ≤ month && month ≤ 12 && 1 ≤ day &&
    day ≤ daysIn year month

def isTime (hour minute second : Nat) (offset : Option Int) : Bool :=
  hour < 24 && minute < 60 && second < 60 && offset.all fun o =>
    -1440 < o && o < 1440

def isValid : Moment -> Bool
  | day y m d => isDay y m d
  | time y mo d h mi s _ offset => isDay y mo d && isTime h mi s offset

/-- The number of days from the first day of year 1 to a day, both included. -/
def dayNumber (year month day : Nat) : Nat :=
  let years := year - 1
  let months := (List.range (month - 1)).map fun m => daysIn year (m + 1)
  years * 365 + years / 4 - years / 100 + years / 400 +
    months.foldr (· + ·) 0 + day

def instant? : Moment -> Option Int
  | time y mo d h mi s micro (some offset) =>
      some ((((dayNumber y mo d * 24 + h) * 60 + mi - offset) * 60 + s) *
        1000000 + micro)
  | _ => none

def same (s t : Moment) : Bool :=
  match s.instant?, t.instant? with
  | some m, some n => m == n
  | _, _ => s == t

def padded (width n : Nat) : String :=
  String.ofList (Decimal.paddedDigits width n)

def offsetText (offset : Int) : String :=
  (if offset < 0 then "-" else "+") ++ padded 2 (offset.natAbs / 60) ++ ":" ++
    padded 2 (offset.natAbs % 60)

def dayText (year month day : Nat) : String :=
  padded 4 year ++ "-" ++ padded 2 month ++ "-" ++ padded 2 day

def isoText (separator : String) : Moment -> String
  | day y m d => dayText y m d
  | time y mo d h mi s micro offset =>
      dayText y mo d ++ separator ++ padded 2 h ++ ":" ++ padded 2 mi ++ ":" ++
        padded 2 s ++
        (if micro = 0 then "" else "." ++ padded 6 micro) ++
        (offset.elim "" offsetText)

def commaList (ns : List Nat) : String :=
  ", ".intercalate (ns.map fun n => String.ofList (Decimal.digitsOf n))

/-- An offset as it is written inside a list or a mapping: days and seconds,
neither of them negative but the days. -/
def offsetTerm (offset : Int) : String :=
  if offset = 0 then "datetime.timezone.utc"
  else
    let days := offset / 1440
    let seconds := (offset % 1440).toNat * 60
    let dayPart :=
      if days = 0 then []
      else ["days=-" ++ String.ofList (Decimal.digitsOf days.natAbs)]
    let secondPart :=
      if seconds = 0 then []
      else ["seconds=" ++ String.ofList (Decimal.digitsOf seconds)]
    "datetime.timezone(datetime.timedelta(" ++
      ", ".intercalate (dayPart ++ secondPart) ++ "))"

def term : Moment -> String
  | day y m d => "datetime.date(" ++ commaList [y, m, d] ++ ")"
  | time y mo d h mi s micro offset =>
      let tail := if micro ≠ 0 then [s, micro] else if s ≠ 0 then [s] else []
      "datetime.datetime(" ++ commaList ([y, mo, d, h, mi] ++ tail) ++
        offset.elim "" (fun o => ", tzinfo=" ++ offsetTerm o) ++ ")"

end Moment
end Ambient
