import PocketMips.Number.Radix

/-!
Days and moments of the calendar, and the texts that messages show for them.
-/
namespace PocketMips.Value.Calendar

open Number

/-- What is wrong with a day, a time of day or a distance from the universal time. -/
inductive Error
  | year (y : Nat)
  | month
  | day
  | hour
  | minute
  | second
  | offset (shown : List Char)
  deriving DecidableEq, Repr

def Error.message : Error → String
  | year y => s!"year {y} is out of range"
  | month => "month must be in 1..12"
  | day => "day is out of range for month"
  | hour => "hour must be in 0..23"
  | minute => "minute must be in 0..59"
  | second => "second must be in 0..59"
  | offset shown =>
    "offset must be a timedelta strictly between -timedelta(hours=24) and timedelta(hours=24), not " ++
      String.ofList shown ++ "."

structure Day where
  year : Nat
  month : Nat
  day : Nat
  deriving DecidableEq, Repr

/-- A time of day with its millionths of a second. -/
structure Time where
  hour : Nat
  minute : Nat
  second : Nat
  millionths : Nat
  deriving DecidableEq, Repr

/-- Whether a year has a leap day. -/
def isLeap (year : Nat) : Bool := year % 4 = 0 && (year % 100 ≠ 0 || year % 400 = 0)

/-- The count of days of a month. -/
def daysIn (year month : Nat) : Nat :=
  if month = 2 then (if isLeap year then 29 else 28)
  else if [4, 6, 9, 11].contains month then 30
  else 31

/-- Fails for a day that the calendar does not have. -/
def Day.check (d : Day) : Except Error Unit :=
  if d.year = 0 then .error (.year d.year)
  else if d.month < 1 ∨ 12 < d.month then .error .month
  else if d.day < 1 ∨ daysIn d.year d.month < d.day then .error .day
  else .ok ()

/-- Fails for a time that no day has. -/
def Time.check (t : Time) : Except Error Unit :=
  if 23 < t.hour then .error .hour
  else if 59 < t.minute then .error .minute
  else if 59 < t.second then .error .second
  else .ok ()

/-- Numbers with commas between them. -/
def listed (ns : List Nat) : List Char :=
  (", ".toList).intercalate (ns.map (Nat.toDigits 10 ·))

/-- The text of a span of time in seconds, as whole days and the seconds after them. -/
def spanText (seconds : Int) : List Char :=
  let days := seconds.fdiv 86400
  let rest := seconds.fmod 86400
  let parts :=
    (if days = 0 then [] else ["days=".toList ++ decimal days]) ++
      (if rest = 0 then [] else ["seconds=".toList ++ decimal rest])
  "datetime.timedelta(".toList ++
    (if parts = [] then ['0'] else (", ".toList).intercalate parts) ++ [')']

/-- The text of a distance from the universal time in seconds. -/
def zoneText (seconds : Int) : List Char :=
  if seconds = 0 then "datetime.timezone.utc".toList
  else "datetime.timezone(".toList ++ spanText seconds ++ [')']

/-- The text of a day. -/
def Day.text (d : Day) : List Char :=
  "datetime.date(".toList ++ listed [d.year, d.month, d.day] ++ [')']

/-- The text of a moment, with the distance of its clock from the universal time if that is known.
Seconds and their millionths are left out if they are zero. -/
def momentText (d : Day) (t : Time) (zone : Option Int) : List Char :=
  let parts := [d.year, d.month, d.day, t.hour, t.minute] ++
    (if t.millionths ≠ 0 then [t.second, t.millionths]
      else if t.second ≠ 0 then [t.second]
      else [])
  let zoneParts := match zone with
    | some seconds => ", tzinfo=".toList ++ zoneText seconds
    | none => []
  "datetime.datetime(".toList ++ listed parts ++ zoneParts ++ [')']

/-- The text of a day that the calendar has. -/
def day? (d : Day) : Except Error (List Char) := do
  d.check
  return d.text

/-- The text of a moment that the calendar and the clock have. A distance from the universal time is
shorter than a day. -/
def moment? (d : Day) (t : Time) (zone : Option Int) : Except Error (List Char) := do
  match zone with
  | some seconds => if 86400 ≤ seconds.natAbs then throw (.offset (spanText seconds))
  | none => pure ()
  d.check
  t.check
  return momentText d t zone

end PocketMips.Value.Calendar
