import ChartLint.Proofs.Outcome
import ChartLint.Proofs.Time.Progress

/-!
# Dates that stay the same

An expression that starts from a written date does not depend on the clock. Evaluation still looks
at the clock first, so the two runs to compare are those in which the zone can show the present at
all. After that the clock only supplies a date that is not missing.

With a written offset and nothing added, the moment does not depend on the zone either: the zone is
asked for its offset there, which is added and taken away again.
-/

namespace ChartLint

/-- The clocks of a zone can show a UTC time: it lies within the calendar there. -/
def Zone.Shows (zone : Zone) (utc : WallClock) : Prop :=
  (utc.addMinutes? (zone.offsetAt utc)).isSome

def Zone.WithinDay (zone : Zone) : Prop :=
  ∀ utc, (zone.offsetAt utc).natAbs < 1440

namespace Zone

theorem withinDay_ofHistory (name : String) (h : History)
    (initial : -1440 < h.initial ∧ h.initial < 1440)
    (within : ∀ change ∈ h.changes, -1440 < h.base + change.2 ∧ h.base + change.2 < 1440) :
    (ofHistory name h).WithinDay := by
  intro utc
  have bounds := @History.follow_within h.base utc.seconds (-1439) 1439 h.changes
    (fun change member => by have := within change member; omega) h.origin h.initial (by omega)
  change (History.follow _ _ _ _ _).natAbs < 1440
  omega

theorem shows_of_inside {zone : Zone} (small : zone.WithinDay) {utc : WallClock}
    (first : -8334601228800000000000 + nanosPerDay ≤ utc.nanos)
    (last : utc.nanos ≤ 8210266876799999999999 - nanosPerDay) : zone.Shows utc := by
  have offset := small utc
  unfold Shows WallClock.addMinutes? WallClock.addNanos? WallClock.ofNanos?
  rw [dif_pos]
  · rfl
  · simp only [nanosPerDay, nanosPerMinute] at *
    omega

end Zone

namespace ZonedClock

variable {zone : Zone} {utc : WallClock}

theorem shows_iff : zone.Shows utc ↔ ∃ z, ofUtc zone utc = .ok z := by
  unfold Zone.Shows ofUtc moved WallClock.orOutOfRange
  cases shown : utc.addMinutes? (zone.offsetAt utc) with
  | none => simp [shown, bind, Except.bind]
  | some w => simp [shown, bind, Except.bind, pure, Except.pure]

theorem instant_ofUtc_iff (small : zone.WithinDay) {i : Instant} :
    (ofUtc zone utc >>= instant) = .ok i ↔
      zone.Shows utc ∧ i = ⟨utc, zone.offsetAt utc⟩ := by
  rw [bind_eq_ok_iff, shows_iff]
  constructor
  · rintro ⟨z, made, shown⟩
    obtain ⟨offset, back⟩ := ofUtc_eq_ok made
    obtain ⟨there, same⟩ := instant_eq_ok shown
    obtain rfl : utc = i.utc := Except.ok.inj (back.symm.trans there)
    refine ⟨⟨z, made⟩, ?_⟩
    rw [← offset, same]
  · rintro ⟨⟨z, made⟩, rfl⟩
    obtain ⟨offset, back⟩ := ofUtc_eq_ok made
    refine ⟨z, made, ?_⟩
    rw [instant, if_pos (offset ▸ small utc), back, ← offset]
    rfl

end ZonedClock

namespace DateExpression

open ZonedClock

variable {zone : Zone} {now now' : WallClock} {e : DateExpression}

theorem exists_of_not_dependsOnNow (dated : e.dependsOnNow = false) :
    ∃ l date, e.base = .literal l ∧ l.date = some date := by
  unfold dependsOnNow at dated
  split at dated
  · cases dated
  · rename_i l base
    obtain ⟨date, found⟩ := Option.isSome_iff_exists.mp (Option.isNone_eq_false_iff.mp dated)
    exact ⟨l, date, base, found⟩

theorem clock_of_dated {l : DateLiteral} {date : Date} (dated : l.date = some date)
    (today : Date) : l.clock today = .ofDate date l.time := by
  rw [DateLiteral.clock, dated]
  rfl

def datedStart (zone : Zone) (date : Date) (l : DateLiteral) : Except TimeError ZonedClock :=
  match l.offset with
  | some offset => moved (.ofDate date l.time) (-offset) >>= ofUtc zone
  | none => ofWall zone (.ofDate date l.time)

theorem startClock_dated {l : DateLiteral} {date : Date} (dated : l.date = some date)
    (shows : zone.Shows now) : startClock (.literal l) now zone = datedStart zone date l := by
  obtain ⟨current, made⟩ := shows_iff.mp shows
  have clock := clock_of_dated dated current.wall.date
  rw [startClock, made]
  change (match l.offset with
    | some offset => moved (l.clock current.wall.date) (-offset) >>= ofUtc zone
    | none => ofWall zone (l.clock current.wall.date)) = datedStart zone date l
  rw [clock]
  rfl

theorem evaluate_dated {l : DateLiteral} {date : Date} (base : e.base = .literal l)
    (dated : l.date = some date) (shows : zone.Shows now) :
    e.evaluate now zone =
      (datedStart zone date l >>= fun z => applySummands zone z e.summands) >>= instant := by
  rw [evaluate, base, startClock_dated dated shows]
  cases datedStart zone date l <;> rfl

theorem evaluate_dated_offset_iff {l : DateLiteral} {date : Date} {offset : Int}
    (base : e.base = .literal l) (dated : l.date = some date) (written : l.offset = some offset)
    (alone : e.summands = []) (small : zone.WithinDay) (shows : zone.Shows now) {i : Instant} :
    e.evaluate now zone = .ok i ↔
      ∃ utc, moved (.ofDate date l.time) (-offset) = .ok utc ∧ zone.Shows utc ∧
        i = ⟨utc, zone.offsetAt utc⟩ := by
  have unmoved : (fun z => applySummands zone z e.summands) = Except.ok := by
    rw [alone]
    rfl
  have start : (datedStart zone date l >>= fun z => applySummands zone z e.summands) =
      datedStart zone date l := by
    rw [unmoved]
    cases datedStart zone date l <;> rfl
  rw [evaluate_dated base dated shows, start, datedStart, written]
  change ((moved _ (-offset) >>= ofUtc zone) >>= instant) = .ok i ↔ _
  rw [bind_assoc, bind_eq_ok_iff]
  simp only [instant_ofUtc_iff small]

/-- An expression that does not depend on the clock has the same value, or fails in the same way,
whenever it is evaluated. If it is nothing but a date with an offset, the moment is the written time
less the offset, in every zone that can show it. -/
theorem evaluate_of_not_dependsOnNow (fixed : e.dependsOnNow = false) (small : zone.WithinDay)
    (shows : zone.Shows now) (shows' : zone.Shows now') :
    e.evaluate now zone = e.evaluate now' zone ∧
      ∀ l offset, e.base = .literal l → l.offset = some offset → e.summands = [] →
        ∀ i, e.evaluate now zone = .ok i →
          moved (l.clock now.date) (-offset) = .ok i.utc ∧
            ∀ (other : Zone) (when : WallClock), other.WithinDay → other.Shows when →
              ∀ i', e.evaluate when other = .ok i' ↔
                other.Shows i.utc ∧ i' = ⟨i.utc, other.offsetAt i.utc⟩ := by
  obtain ⟨l, date, base, dated⟩ := exists_of_not_dependsOnNow fixed
  constructor
  · rw [evaluate_dated base dated shows, evaluate_dated base dated shows']
  · intro l' offset base' written alone i evaluated
    cases base.symm.trans base'
    obtain ⟨utc, moved, -, rfl⟩ :=
      (evaluate_dated_offset_iff base dated written alone small shows).mp evaluated
    refine ⟨clock_of_dated dated now.date ▸ moved, ?_⟩
    intro other when otherSmall otherShows i'
    rw [evaluate_dated_offset_iff base dated written alone otherSmall otherShows]
    constructor
    · rintro ⟨utc', moved', shown, rfl⟩
      cases Except.ok.inj (moved.symm.trans moved')
      exact ⟨shown, rfl⟩
    · rintro ⟨shown, rfl⟩
      exact ⟨utc, moved, shown, rfl⟩

/-- 2021-10-31T02:30-02:30, which is a time that Berlin's clocks show twice. -/
def stamp : DateExpression :=
  ⟨.literal ⟨some ⟨18931, by decide, by decide⟩, ⟨9000000000000, by decide⟩, some (-150)⟩, []⟩

/-- Five o'clock in UTC, in spring and later in Berlin, and in Apia too. -/
theorem evaluate_of_not_dependsOnNow_stamp :
    ∃ utc, moved utc (-150) = .ok ⟨1635647400000000000, by decide, by decide⟩ ∧
      stamp.evaluate beforeSpring .berlin = .ok ⟨utc, 60⟩ ∧
      stamp.evaluate utc .berlin = .ok ⟨utc, 60⟩ ∧ stamp.evaluate utc .apia = .ok ⟨utc, 780⟩ := by
  have berlin : Zone.berlin.WithinDay :=
    Zone.withinDay_ofHistory _ _ (by decide) (by decide +kernel)
  have apia : Zone.apia.WithinDay := Zone.withinDay_ofHistory _ _ (by decide) (by decide +kernel)
  have spring (zone : Zone) (small : zone.WithinDay) : zone.Shows beforeSpring :=
    Zone.shows_of_inside small (by decide) (by decide)
  let five : WallClock := ⟨1635656400000000000, by decide, by decide⟩
  have shows (zone : Zone) (small : zone.WithinDay) : zone.Shows five :=
    Zone.shows_of_inside small (by decide) (by decide)
  have evaluated : stamp.evaluate beforeSpring .berlin = .ok ⟨five, 60⟩ := by decide +kernel
  obtain ⟨same, everywhere⟩ := evaluate_of_not_dependsOnNow (e := stamp) rfl berlin
    (spring _ berlin) (shows _ berlin)
  obtain ⟨-, others⟩ := everywhere _ (-150) rfl rfl rfl _ evaluated
  refine ⟨five, by decide, evaluated, same ▸ evaluated, ?_⟩
  have offset : Zone.apia.offsetAt five = 780 := by decide +kernel
  rw [← offset]
  exact (others .apia five apia (shows _ apia) _).mpr ⟨shows _ apia, rfl⟩

end DateExpression
end ChartLint
