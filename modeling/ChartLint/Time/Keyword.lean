import ChartLint.Time.WallClock

/-!
# Calendar keywords

A calendar keyword names a time by its place relative to the clock: the start of a period, a day of
the month, a neighbouring working or vacation day, or a day of the week. Where the result would
leave the calendar, the step that would leave it is not taken. A search for a working or a vacation
day that has come to an end of the calendar so stays there.
-/

namespace ChartLint

inductive Period where
  | minute | hour | day | week | month | quarter | year
  deriving DecidableEq, Repr

inductive Turn where
  | previous | current | next
  deriving DecidableEq, Repr

/-- Working days are Monday to Friday, vacation days Saturday and Sunday. -/
inductive DayClass where
  | working | vacation
  deriving DecidableEq, Repr

def DayClass.admits : DayClass → Date → Bool
  | .working => Date.isWorking
  | .vacation => Date.isVacation

inductive CalendarKeyword where
  | now
  | start (turn : Turn) (period : Period)
  | firstDay
  | lastDay
  | firstOf (kind : DayClass)
  | lastOf (kind : DayClass)
  | previousOf (kind : DayClass)
  | nextOf (kind : DayClass)
  /-- The last such day of the week, today included. -/
  | weekday (day : Weekday)
  deriving DecidableEq, Repr

namespace Date

def plusDays (d : Date) (days : Int) : Date :=
  (d.addDays? days).getD d

def plusMonths (d : Date) (months : Int) : Date :=
  (d.addMonths? months).getD d

def startOfWeek (d : Date) : Date :=
  d.plusDays (-d.sinceMonday)

def startOfMonth (d : Date) (month : Nat) : Date :=
  (ofCivil? ⟨d.civil.year, month, 1⟩).getD d

/-- The start of the period around a date; periods shorter than a day start with the day. -/
def startOf (d : Date) : Period → Date
  | .minute | .hour | .day => d
  | .week => d.startOfWeek
  | .month => d.startOfMonth d.civil.month
  | .quarter => d.startOfMonth ((d.civil.month - 1) / 3 * 3 + 1)
  | .year => d.startOfMonth 1

def plusPeriods (d : Date) (count : Int) : Period → Date
  | .minute | .hour => d
  | .day => d.plusDays count
  | .week => d.plusDays (7 * count)
  | .month => d.plusMonths count
  | .quarter => d.plusMonths (3 * count)
  | .year => d.plusMonths (12 * count)

def endOfMonth (d : Date) : Date :=
  ((d.startOf .month).plusMonths 1).plusDays (-1)

def RollsOn (accept : Date → Bool) (step : Int) (next d : Date) : Prop :=
  accept d = false ∧ next = d.plusDays step

/-- The first accepted day, going on by `step` days from a date. If there is none up to the end of
the calendar, the search does not end. -/
def roll (accept : Date → Bool) (step : Int) : Date → Date :=
  WellFounded.partialExtrinsicFix (RollsOn accept step) fun d search =>
    if refused : accept d = false then search (d.plusDays step) ⟨refused, rfl⟩ else d

def rollForward (kind : DayClass) (d : Date) : Date :=
  roll kind.admits 1 d

def rollBack (kind : DayClass) (d : Date) : Date :=
  roll kind.admits (-1) d

end Date

namespace Turn

def count : Turn → Int
  | .previous => -1
  | .current => 0
  | .next => 1

end Turn

namespace WallClock

def plusNanos (w : WallClock) (nanos : Int) : WallClock :=
  (w.addNanos? nanos).getD w

def startOf (w : WallClock) (turn : Turn) : Period → WallClock
  | .minute => w.startOfMinute.plusNanos (turn.count * nanosPerMinute)
  | .hour => w.startOfHour.plusNanos (turn.count * nanosPerHour)
  | period =>
    let start := w.date.startOf period
    midnight (if turn = .current then start else start.plusPeriods turn.count period)

end WallClock

namespace CalendarKeyword

def resolve (keyword : CalendarKeyword) (now : WallClock) : WallClock :=
  let today := now.date
  match keyword with
  | .now => now
  | .start turn period => now.startOf turn period
  | .firstDay => .midnight (today.startOf .month)
  | .lastDay => .midnight today.endOfMonth
  | .firstOf kind => .midnight (Date.rollForward kind (today.startOf .month))
  | .lastOf kind => .midnight (Date.rollBack kind today.endOfMonth)
  | .previousOf kind => .midnight (Date.rollBack kind (today.plusDays (-1)))
  | .nextOf kind => .midnight (Date.rollForward kind (today.plusDays 1))
  | .weekday day =>
    let back := (7 + today.sinceMonday - day.sinceMonday) % 7
    .midnight (today.plusDays (-(back : Int)))

def table : List (String × CalendarKeyword) :=
  [ ("now", .now),
    ("current_minute", .start .current .minute),
    ("previous_minute", .start .previous .minute),
    ("next_minute", .start .next .minute),
    ("current_hour", .start .current .hour),
    ("previous_hour", .start .previous .hour),
    ("next_hour", .start .next .hour),
    ("current_day", .start .current .day),
    ("today", .start .current .day),
    ("previous_day", .start .previous .day),
    ("yesterday", .start .previous .day),
    ("next_day", .start .next .day),
    ("tomorrow", .start .next .day),
    ("current_week", .start .current .week),
    ("previous_week", .start .previous .week),
    ("next_week", .start .next .week),
    ("current_month", .start .current .month),
    ("previous_month", .start .previous .month),
    ("next_month", .start .next .month),
    ("current_quarter", .start .current .quarter),
    ("previous_quarter", .start .previous .quarter),
    ("next_quarter", .start .next .quarter),
    ("current_year", .start .current .year),
    ("previous_year", .start .previous .year),
    ("next_year", .start .next .year),
    ("first_day", .firstDay),
    ("last_day", .lastDay),
    ("first_working_day", .firstOf .working),
    ("last_working_day", .lastOf .working),
    ("first_vacation_day", .firstOf .vacation),
    ("last_vacation_day", .lastOf .vacation),
    ("previous_working_day", .previousOf .working),
    ("next_working_day", .nextOf .working),
    ("previous_vacation_day", .previousOf .vacation),
    ("next_vacation_day", .nextOf .vacation),
    ("monday", .weekday .mon), ("mon", .weekday .mon),
    ("tuesday", .weekday .tue), ("tue", .weekday .tue),
    ("wednesday", .weekday .wed), ("wed", .weekday .wed),
    ("thursday", .weekday .thu), ("thu", .weekday .thu),
    ("friday", .weekday .fri), ("fri", .weekday .fri),
    ("saturday", .weekday .sat), ("sat", .weekday .sat),
    ("sunday", .weekday .sun), ("sun", .weekday .sun) ]

def ofName? (name : String) : Option CalendarKeyword :=
  table.lookup name

end CalendarKeyword
end ChartLint
