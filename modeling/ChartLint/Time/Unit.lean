import ChartLint.Decimal.Binary
import ChartLint.Text.Basic
import ChartLint.Time.Error
import ChartLint.Time.WallClock

/-!
# Time units

Milliseconds to weeks have a fixed length on the wall clock and may be counted in fractions. Months,
quarters and years move the calendar and take whole counts.
-/

namespace ChartLint

inductive TimeUnit where
  | millisecond | second | minute | hour | day | week | month | quarter | year
  deriving DecidableEq, Repr

namespace TimeUnit

def all : List TimeUnit :=
  [.millisecond, .second, .minute, .hour, .day, .week, .month, .quarter, .year]

def name : TimeUnit → String
  | .millisecond => "millisecond"
  | .second => "second"
  | .minute => "minute"
  | .hour => "hour"
  | .day => "day"
  | .week => "week"
  | .month => "month"
  | .quarter => "quarter"
  | .year => "year"

def ofName? (name : List Char) : Option TimeUnit :=
  let name := Text.trim name
  let singular := (Text.dropLast? 's' name).getD name
  all.find? fun unit => unit.name.toList == singular || unit.name.toList == name

inductive Length where
  | millis (n : Nat)
  | months (n : Nat)
  deriving DecidableEq, Repr

def length : TimeUnit → Length
  | .millisecond => .millis 1
  | .second => .millis 1000
  | .minute => .millis 60000
  | .hour => .millis 3600000
  | .day => .millis 86400000
  | .week => .millis 604800000
  | .month => .months 1
  | .quarter => .months 3
  | .year => .months 12

def fixedMillis? (unit : TimeUnit) : Option Nat :=
  match unit.length with
  | .millis n => some n
  | .months _ => none

end TimeUnit

namespace WallClock

def orOutOfRange (w : Option WallClock) : Except TimeError WallClock :=
  w.elim (.error .outOfRange) .ok

def shiftMonths (w : WallClock) (months : Int) : Except TimeError WallClock :=
  orOutOfRange (w.addMonths? months)

/-- The clock moved by a number of milliseconds, rounded to a whole number; what is no number moves
nothing, and an infinite number leaves the calendar. -/
def shiftMillis (w : WallClock) (millis : Binary) : Except TimeError WallClock :=
  match millis with
  | .nan => .ok w
  | .infinite _ => .error .outOfRange
  | .finite negative m e =>
    orOutOfRange (w.addNanos? (Binary.signed negative (Binary.roundedMagnitude m e) * 1000000))

def shift (w : WallClock) (unit : TimeUnit) (count : Float) : Except TimeError WallClock :=
  match unit.length with
  | .months n =>
    match (Binary.ofFloat count).whole? with
    | none => .error (.fractionalCount unit.name)
    | some whole => w.shiftMonths (whole * n)
  | .millis n => w.shiftMillis (.ofFloat (count * Float.ofNat n))

end WallClock
end ChartLint
