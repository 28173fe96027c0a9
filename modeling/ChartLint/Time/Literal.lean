import ChartLint.Time.Iso
import ChartLint.Time.Error

/-!
# Date and time literals

A literal is a year, a month, a date, a date with a time, or a time alone, which then belongs to
today. A time may carry an offset from UTC.
-/

namespace ChartLint

structure DateLiteral where
  /-- Absent for a time alone. -/
  date : Option Date
  /-- Midnight if none is written. -/
  time : TimeOfDay
  offset : Option Int
  deriving DecidableEq, Repr

namespace DateLiteral

def number? (cs : List Char) : Option Nat :=
  let digits := (Text.dropLead? ['+'] cs).getD cs
  if digits.isEmpty || !digits.all Char.isDigit then none
  else some (Decimal.natOfDigits digits)

/-- The signed minutes of `±hh:mm` or `±hhmm`, by its sign and what follows it. -/
def offset? (negative : Bool) (cs : List Char) : Option Int :=
  let digits := cs.filter (· != ':')
  if digits.length = 4 ∧ digits.all Char.isDigit then
    let hours := Decimal.natOfDigits (digits.take 2)
    let minutes := Decimal.natOfDigits (digits.drop 2)
    if hours ≤ 23 ∧ minutes ≤ 59 then
      let total : Int := hours * 60 + minutes
      some (if negative then -total else total)
    else none
  else none

def isSign (c : Char) : Bool :=
  c == '+' || c == '-'

def splitOffset? (cs : List Char) : Option (List Char × Option Int) :=
  match Text.dropLast? 'z' cs with
  | some clock => some (clock, some 0)
  | none =>
    -- The offset starts at the last sign.
    let back := cs.reverse
    match back.dropWhile (!isSign ·) with
    | [] => some (cs, none)
    | sign :: clock =>
      (offset? (sign == '-') (back.takeWhile (!isSign ·)).reverse).map fun minutes =>
        (clock.reverse, some minutes)

def nanos? (cs : List Char) : Option Nat :=
  if cs.isEmpty || !cs.all Char.isDigit then none else some (Iso.nanosOfFraction cs)

def clock? (cs : List Char) : Option (TimeOfDay × Option Int) := do
  let (clock, offset) ← splitOffset? cs
  let (clock, nano) ←
    match Text.splitOnce? '.' clock with
    | some (clock, decimals) => (nanos? decimals).map fun nano => (clock, nano)
    | none => some (clock, 0)
  let fields := Text.splitOn ':' clock
  let hour ← fields[0]?.bind number?
  let minute ← fields[1]?.bind number?
  let second ← fields[2]?.elim (some 0) number?
  let time ← TimeOfDay.of? hour minute second nano
  return (time, offset)

def readClock (text : List Char) : Except TimeError (TimeOfDay × Option Int) :=
  (clock? text).elim (.error (.invalidLiteral (String.ofList text))) .ok

/-- A date of two or three fields; a missing day is the first. -/
def date? (cs : List Char) : Option Date := do
  let fields := Text.splitOn '-' cs
  let year ← fields[0]?.bind number?
  let month ← fields[1]?.bind number?
  let day ← fields[2]?.elim (some 1) number?
  Date.ofCivil? ⟨year, month, day⟩

/-- A date, with the time it carries after a `t` or the time that follows it. -/
def ofDate (text : String) (time : Option String) : Except TimeError DateLiteral :=
  let (datePart, inline) :=
    match Text.splitOnce? 't' text.toList with
    | some (datePart, timePart) => (datePart, some timePart)
    | none => (text.toList, none)
  match inline, time with
  | some _, some extra => .error (.unexpectedToken extra)
  | _, _ =>
    match date? datePart with
    | none => .error (.invalidLiteral text)
    | some date =>
      match inline.or (time.map String.toList) with
      | none => .ok ⟨date, .midnight, none⟩
      | some clock => (readClock clock).map fun (time, offset) => ⟨date, time, offset⟩

def ofYear (text : String) : Except TimeError DateLiteral :=
  match Iso.digits? 4 text.toList with
  | some (year, []) =>
    (Date.ofCivil? ⟨year, 1, 1⟩).elim (.error (.invalidLiteral text)) fun date =>
      .ok ⟨date, .midnight, none⟩
  | _ => .error (.invalidLiteral text)

def ofTime (text : String) : Except TimeError DateLiteral :=
  (readClock text.toList).map fun (time, offset) => ⟨none, time, offset⟩

def clock (l : DateLiteral) (today : Date) : WallClock :=
  .ofDate (l.date.getD today) l.time

end DateLiteral
end ChartLint
