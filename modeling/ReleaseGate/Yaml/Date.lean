import ReleaseGate.Json.Token

/-!
Dates as plain scalars: four digits of a year, two of a month and two of a day. Whether the calendar
has such a day is a question of its own; a date that it lacks is a date none the less, and no text.
-/

namespace ReleaseGate.Yaml

/-- The first part of a date that the calendar lacks. -/
inductive DateFault where
  | year (n : Nat)
  | month
  | day
  deriving DecidableEq

def DateFault.message : DateFault → String
  | .year n => "year " ++ intText n ++ " is out of range"
  | .month => "month must be in 1..12"
  | .day => "day is out of range for month"

/-- Four, two and two digits with hyphens in between. -/
def isDate (s : List Char) : Bool :=
  match s with
  | [a, b, c, d, '-', e, f, '-', g, h] => [a, b, c, d, e, f, g, h].all Json.isDigit
  | _ => false

def isLeapYear (year : Nat) : Bool := year % 4 = 0 && (year % 100 ≠ 0 || year % 400 = 0)

def daysIn (year month : Nat) : Nat :=
  if month = 2 then if isLeapYear year then 29 else 28
  else if month ∈ [4, 6, 9, 11] then 30
  else 31

/-- What the calendar lacks of a day; its years begin with one. -/
def dayFault? (year month day : Nat) : Option DateFault :=
  if year = 0 then some (.year year)
  else if month = 0 ∨ 12 < month then some .month
  else if day = 0 ∨ daysIn year month < day then some .day
  else none

def dateFault? (iso : String) : Option DateFault :=
  let part (start length : Nat) : Nat :=
    ((iso.toList.drop start).take length).foldl (fun n d => 10 * n + Json.digitValue d) 0
  dayFault? (part 0 4) (part 5 2) (part 8 2)

end ReleaseGate.Yaml
