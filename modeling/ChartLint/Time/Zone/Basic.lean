import ChartLint.Text.Basic
import ChartLint.Time.Error
import ChartLint.Time.WallClock

/-!
# Time zones

All that counts about a zone is how many minutes its clocks are ahead of UTC at each UTC time. Which
zones there are, and what the clocks of a place show, is for a database to say: a name stands for a
zone only with respect to one.
-/

namespace ChartLint

structure Zone where
  name : String
  /-- Minutes ahead of UTC at a UTC time. -/
  offsetAt : WallClock → Int

namespace Zone

def fixed (name : String) (minutes : Int) : Zone :=
  ⟨name, fun _ => minutes⟩

/-- A zone's past as a list of changes. Each change comes some seconds after the one before it and
puts the clocks some minutes ahead of the zone's base. -/
structure History where
  initial : Int
  /-- The smallest offset that a change brings. -/
  base : Int
  origin : Int
  changes : List (Nat × Nat)

/-- The offset at a UTC second, if `offset` holds up to the next change, counted from `last`. -/
def History.follow (base second : Int) : Int → Int → List (Nat × Nat) → Int
  | _, offset, [] => offset
  | last, offset, (gap, ahead) :: rest =>
    if last + gap ≤ second then follow base second (last + gap) (base + ahead) rest else offset

def ofHistory (name : String) (h : History) : Zone where
  name := name
  offsetAt utc := History.follow h.base utc.seconds h.origin h.initial h.changes

def utc : Zone := fixed "UTC" 0

end Zone

/-- The zones with names of their own, and the zone of the place where a check runs. -/
class ZoneDatabase where
  named : List Zone
  host : Zone

/-- The zone with a name, in any letter case and without regard to blanks around it. -/
def Zone.parse [ZoneDatabase] (text : String) : Except TimeError Zone :=
  let name := Text.trimmed text
  let key := Text.lowered name
  if key = "utc" ∨ key = "gmt" ∨ key = "z" then .ok utc
  else if key = "local" ∨ key = "browser" then .ok ZoneDatabase.host
  else
    match ZoneDatabase.named.find? fun zone => Text.sameIgnoringCase zone.name name with
    | some zone => .ok zone
    | none => .error (.unknownZone name)

def ZoneDatabase.zoneOr (zones : ZoneDatabase) (name : String) (other : Zone) : Zone :=
  (Zone.parse name).toOption.getD other

end ChartLint
