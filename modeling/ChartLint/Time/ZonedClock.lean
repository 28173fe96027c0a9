import ChartLint.Time.Unit
import ChartLint.Time.Iso
import ChartLint.Time.Zone.Basic

/-!
# Clocks in a zone

A zoned clock is a wall clock with the offset it is read with. Whenever the wall clock is set, the
offset is worked out again, so that the two together are one moment. A wall clock that a change of
offset skips or repeats leaves two candidates: the offset that was in force before is kept if it
fits, and otherwise the larger candidate is taken.
-/

namespace ChartLint

/-- A moment, with the offset in minutes of the clock it was read from. -/
structure Instant where
  utc : WallClock
  offset : Int
  deriving DecidableEq, Repr

def Instant.render (i : Instant) : String :=
  let shown := (i.utc.addMinutes? i.offset).getD i.utc
  s!"{Iso.clockText shown}{Iso.offsetText i.offset}"

structure ZonedClock where
  wall : WallClock
  offset : Int
  deriving DecidableEq, Repr

namespace ZonedClock

def moved (w : WallClock) (minutes : Int) : Except TimeError WallClock :=
  WallClock.orOutOfRange (w.addMinutes? minutes)

/-- The offset to read a wall clock with, if `prior` was in force before. -/
def correctOffset (zone : Zone) (w : WallClock) (prior : Int) : Except TimeError Int := do
  let first := zone.offsetAt (← moved w (-prior))
  if first = prior then return prior
  else
    let second := zone.offsetAt (← moved w (-first))
    return if first = second then first else max first second

def ofUtc (zone : Zone) (utc : WallClock) : Except TimeError ZonedClock := do
  let offset := zone.offsetAt utc
  return ⟨← moved utc offset, offset⟩

def ofWall (zone : Zone) (w : WallClock) : Except TimeError ZonedClock := do
  return ⟨w, ← correctOffset zone w (zone.offsetAt w)⟩

/-- Where a clock stands after an attempt to move it, and what went wrong with the attempt. -/
structure Moved where
  clock : ZonedClock
  failure : Option TimeError
  deriving DecidableEq, Repr

def Moved.toExcept (m : Moved) : Except TimeError ZonedClock :=
  m.failure.elim (.ok m.clock) .error

/-- The clock set to another time. If no offset can be worked out, it shows that time with the
offset it had. -/
def setWall (z : ZonedClock) (zone : Zone) (w : WallClock) : Moved :=
  match correctOffset zone w z.offset with
  | .ok offset => ⟨⟨w, offset⟩, none⟩
  | .error e => ⟨{ z with wall := w }, some e⟩

def shift (z : ZonedClock) (zone : Zone) (unit : TimeUnit) (count : Float) : Moved :=
  match z.wall.shift unit count with
  | .ok w => z.setWall zone w
  | .error e => ⟨z, some e⟩

def utc (z : ZonedClock) : Except TimeError WallClock :=
  moved z.wall (-z.offset)

/-- The moment a clock shows. Its offset has to be less than a day. -/
def instant (z : ZonedClock) : Except TimeError Instant :=
  if z.offset.natAbs < 1440 then do return ⟨← z.utc, z.offset⟩ else .error .outOfRange

end ZonedClock
end ChartLint
