/-!
# Dates

A date is a day of the proleptic Gregorian calendar, counted from 1970-01-01, within the years
-262143 to 262142. Its year, month and day of the month are worked out from that count.
-/

namespace ChartLint

structure Civil where
  year : Int
  month : Nat
  day : Nat
  deriving DecidableEq, Repr

namespace Civil

def isLeap (year : Int) : Bool :=
  year % 4 == 0 && (year % 100 != 0 || year % 400 == 0)

def monthLength (year : Int) (month : Nat) : Nat :=
  match month with
  | 2 => if isLeap year then 29 else 28
  | 4 | 6 | 9 | 11 => 30
  | _ => 31

def daysBeforeMonth : Nat → Nat
  | 0 | 1 => 0
  | 2 => 31
  | 3 => 59
  | 4 => 90
  | 5 => 120
  | 6 => 151
  | 7 => 181
  | 8 => 212
  | 9 => 243
  | 10 => 273
  | 11 => 304
  | _ => 334

/-- The day on which a year starts, counted from 1970-01-01. -/
def yearStart (year : Int) : Int :=
  let y := year - 1
  365 * y + y / 4 - y / 100 + y / 400 - 719162

def monthStart (year : Int) (month : Nat) : Nat :=
  daysBeforeMonth month + if isLeap year && month > 2 then 1 else 0

def dayNumber (c : Civil) : Int :=
  yearStart c.year + monthStart c.year c.month + ((c.day : Int) - 1)

def isValid (c : Civil) : Bool :=
  1 ≤ c.month && c.month ≤ 12 && 1 ≤ c.day && c.day ≤ monthLength c.year c.month

/-- The year that a day lies in. The average year gives a guess that is off by one at most. -/
def yearOf (day : Int) : Int :=
  let guess := (day + 719162) * 400 / 146097 + 1
  if day < yearStart guess then guess - 1
  else if yearStart (guess + 1) ≤ day then guess + 1
  else guess

def monthOf (year : Int) (dayOfYear : Nat) : Nat → Nat
  | 0 => 1
  | month + 1 =>
    if monthStart year (month + 1) ≤ dayOfYear then month + 1 else monthOf year dayOfYear month

def ofDayNumber (day : Int) : Civil :=
  let year := yearOf day
  let dayOfYear := (day - yearStart year).toNat
  let month := monthOf year dayOfYear 12
  ⟨year, month, dayOfYear - monthStart year month + 1⟩

end Civil

inductive Weekday where
  | mon | tue | wed | thu | fri | sat | sun
  deriving DecidableEq, Repr

def Weekday.sinceMonday : Weekday → Nat
  | .mon => 0
  | .tue => 1
  | .wed => 2
  | .thu => 3
  | .fri => 4
  | .sat => 5
  | .sun => 6

structure Date where
  day : Int
  /-- Not before -262143-01-01. -/
  first_le : -96465292 ≤ day
  /-- Not after 262142-12-31. -/
  le_last : day ≤ 95026236
  deriving DecidableEq, Repr

namespace Date

instance : Nonempty Date := ⟨⟨0, by decide, by decide⟩⟩

def ofDay? (day : Int) : Option Date :=
  if h : -96465292 ≤ day ∧ day ≤ 95026236 then some ⟨day, h.1, h.2⟩ else none

def ofCivil? (c : Civil) : Option Date :=
  if c.isValid then ofDay? c.dayNumber else none

def civil (d : Date) : Civil :=
  .ofDayNumber d.day

def sinceMonday (d : Date) : Nat :=
  ((d.day + 3) % 7).toNat

def isVacation (d : Date) : Bool :=
  d.sinceMonday ≥ 5

def isWorking (d : Date) : Bool :=
  !d.isVacation

def addDays? (d : Date) (days : Int) : Option Date :=
  ofDay? (d.day + days)

/-- The date some months later. A day that the month does not have becomes its last day. -/
def addMonths? (d : Date) (months : Int) : Option Date :=
  let c := d.civil
  let total := c.year * 12 + (c.month - 1) + months
  let year := total / 12
  let month := (total % 12).toNat + 1
  ofCivil? ⟨year, month, min c.day (Civil.monthLength year month)⟩

end Date
end ChartLint
