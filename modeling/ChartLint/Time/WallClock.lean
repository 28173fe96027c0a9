import ChartLint.Time.Date

/-!
# Wall clocks

A wall clock shows a date and a time of day, to the nanosecond. It is kept as the nanoseconds since
1970-01-01T00:00:00 on the same clock. There are no leap seconds: a reading such as 23:59:60, which
a timestamp may have elsewhere, is no time of day here and is refused.
-/

namespace ChartLint

def nanosPerSecond : Int := 1000000000

def nanosPerMinute : Int := 60000000000

def nanosPerHour : Int := 3600000000000

def nanosPerDay : Int := 86400000000000

structure TimeOfDay where
  nanos : Nat
  lt_day : nanos < 86400000000000
  deriving DecidableEq, Repr

namespace TimeOfDay

def midnight : TimeOfDay := ⟨0, by decide⟩

def of? (hour minute second nano : Nat) : Option TimeOfDay :=
  if h : hour < 24 ∧ minute < 60 ∧ second < 60 ∧ nano < 1000000000 then
    some ⟨((hour * 60 + minute) * 60 + second) * 1000000000 + nano, by omega⟩
  else none

end TimeOfDay

structure WallClock where
  nanos : Int
  first_le : -8334601228800000000000 ≤ nanos
  le_last : nanos ≤ 8210266876799999999999
  deriving DecidableEq, Repr

namespace WallClock

instance : LT WallClock := ⟨fun a b => a.nanos < b.nanos⟩

instance : LE WallClock := ⟨fun a b => a.nanos ≤ b.nanos⟩

instance (a b : WallClock) : Decidable (a < b) :=
  inferInstanceAs (Decidable (a.nanos < b.nanos))

instance (a b : WallClock) : Decidable (a ≤ b) :=
  inferInstanceAs (Decidable (a.nanos ≤ b.nanos))

def ofNanos? (nanos : Int) : Option WallClock :=
  if h : -8334601228800000000000 ≤ nanos ∧ nanos ≤ 8210266876799999999999 then
    some ⟨nanos, h.1, h.2⟩
  else none

def ofDate (date : Date) (time : TimeOfDay) : WallClock where
  nanos := date.day * nanosPerDay + time.nanos
  first_le := by have := date.first_le; simp only [nanosPerDay]; omega
  le_last := by have := date.le_last; have := time.lt_day; simp only [nanosPerDay]; omega

def midnight (date : Date) : WallClock :=
  ofDate date .midnight

def date (w : WallClock) : Date where
  day := w.nanos / nanosPerDay
  first_le := by have := w.first_le; simp only [nanosPerDay]; omega
  le_last := by have := w.le_last; simp only [nanosPerDay]; omega

def time (w : WallClock) : TimeOfDay where
  nanos := (w.nanos % nanosPerDay).toNat
  lt_day := by simp only [nanosPerDay]; omega

def addNanos? (w : WallClock) (nanos : Int) : Option WallClock :=
  ofNanos? (w.nanos + nanos)

def addMinutes? (w : WallClock) (minutes : Int) : Option WallClock :=
  w.addNanos? (minutes * nanosPerMinute)

def addMonths? (w : WallClock) (months : Int) : Option WallClock :=
  (w.date.addMonths? months).map fun date => ofDate date w.time

def seconds (w : WallClock) : Int :=
  w.nanos / nanosPerSecond

def millis (w : WallClock) : Int :=
  w.nanos / 1000000

def startOfMinute (w : WallClock) : WallClock where
  nanos := w.nanos / nanosPerMinute * nanosPerMinute
  first_le := by have := w.first_le; simp only [nanosPerMinute]; omega
  le_last := by have := w.le_last; simp only [nanosPerMinute]; omega

def startOfHour (w : WallClock) : WallClock where
  nanos := w.nanos / nanosPerHour * nanosPerHour
  first_le := by have := w.first_le; simp only [nanosPerHour]; omega
  le_last := by have := w.le_last; simp only [nanosPerHour]; omega

end WallClock
end ChartLint
