import ChartLint.Proofs.Decimal.Binary
import ChartLint.Proofs.Time.Calendar
import ChartLint.Proofs.Time.ZonedClock
import ChartLint.Time.Expression.Basic
import ChartLint.Time.Zone.Name

/-!
# Going forward

Adding a count of units to the clock moves what the clock shows forward
(`WallClock.nanos_lt_of_shift`). The moment goes forward too, unless the offset that is worked out
for the new time has gone up by as much (`DateExpression.utc_lt_of_plus`). In a zone whose changes
lie far apart this takes a time that a change skips.
-/

namespace ChartLint

/-! ## Moving what a clock shows -/

theorem TimeUnit.atLeastOne_millis {unit : TimeUnit} {n : Nat} (length : unit.length = .millis n) :
    Binary.AtLeastOne (Float.ofNat n) := by
  cases unit <;> cases length
  · exact ⟨2 ^ 52, -52, by decide, by decide, by decide, by decide⟩
  · exact ⟨1000 * 2 ^ 43, -43, by decide, by decide, by decide, by decide⟩
  · exact ⟨60000 * 2 ^ 37, -37, by decide, by decide, by decide, by decide⟩
  · exact ⟨3600000 * 2 ^ 31, -31, by decide, by decide, by decide, by decide⟩
  · exact ⟨86400000 * 2 ^ 26, -26, by decide, by decide, by decide, by decide⟩
  · exact ⟨604800000 * 2 ^ 23, -23, by decide, by decide, by decide, by decide⟩

theorem TimeUnit.months_pos {unit : TimeUnit} {n : Nat} (length : unit.length = .months n) :
    0 < n := by
  cases unit <;> cases length <;> decide

namespace WallClock

variable {w w' : WallClock}

theorem orOutOfRange_eq_ok_iff {moved : Option WallClock} :
    orOutOfRange moved = .ok w ↔ moved = some w := by
  cases moved <;> simp [orOutOfRange]

theorem eq_of_nanos (same : w.nanos = w'.nanos) : w = w' := by
  cases w
  cases w'
  cases same
  rfl

theorem nanos_addNanos? {nanos : Int} (moved : w.addNanos? nanos = some w') :
    w'.nanos = w.nanos + nanos := by
  unfold addNanos? ofNanos? at moved
  split at moved
  · cases moved
    rfl
  · cases moved

theorem nanos_lt_of_shiftMillis {x : Float} (large : Binary.AtLeastOne x)
    (moved : w.shiftMillis (.ofFloat x) = .ok w') : w.nanos < w'.nanos := by
  obtain ⟨m, e, value, normal⟩ := large
  have := Binary.roundedMagnitude_pos normal
  simp only [shiftMillis, value, orOutOfRange_eq_ok_iff, Binary.signed, Bool.false_eq_true,
    if_false] at moved
  have := nanos_addNanos? moved
  omega

theorem nanos_lt_of_shift {unit : TimeUnit} {count : Float} {n : Int}
    (whole : (Binary.ofFloat count).whole? = some n) (one_le : 1 ≤ n)
    (moved : w.shift unit count = .ok w') : w.nanos < w'.nanos := by
  unfold shift at moved
  cases length : unit.length with
  | months k =>
      simp only [length, whole, shiftMonths, orOutOfRange_eq_ok_iff] at moved
      apply nanos_lt_of_addMonths? moved
      exact Int.mul_pos (by omega) (by exact_mod_cast TimeUnit.months_pos length)
  | millis k =>
      simp only [length] at moved
      have large := Binary.atLeastOne_of_whole? whole one_le
      rcases large.mul (TimeUnit.atLeastOne_millis length) with large | infinite
      · exact nanos_lt_of_shiftMillis large moved
      · rw [infinite] at moved
        cases moved

end WallClock

/-! ## Changes that lie far apart -/

/-- Within the time by which two offsets of the zone can differ there is one change at most. -/
def Zone.Calm (zone : Zone) : Prop :=
  ∃ span : Int,
    (∀ a b, (zone.offsetAt a - zone.offsetAt b) * nanosPerMinute ≤ span) ∧
      ∀ a b c : WallClock, a ≤ b → b ≤ c → c.nanos - a.nanos ≤ span →
        zone.offsetAt a = zone.offsetAt b ∨ zone.offsetAt b = zone.offsetAt c

namespace Zone.History

theorem follow_within {base second low high : Int} {changes : List (Nat × Nat)}
    (within : ∀ change ∈ changes, low ≤ base + change.2 ∧ base + change.2 ≤ high)
    (last offset : Int) (known : low ≤ offset ∧ offset ≤ high) :
    low ≤ follow base second last offset changes ∧
      follow base second last offset changes ≤ high := by
  induction changes generalizing last offset with
  | nil => exact known
  | cons change rest ih =>
      obtain ⟨here, later⟩ := List.forall_mem_cons.mp within
      unfold follow
      split
      · exact ih later _ _ here
      · exact known

theorem follow_before_next {base second last offset : Int} {changes : List (Nat × Nat)}
    {apart : Nat} (spaced : ∀ change ∈ changes, apart ≤ change.1) (before : second < last + apart) :
    follow base second last offset changes = offset := by
  cases changes with
  | nil => rfl
  | cons change rest =>
      have := spaced change (by simp)
      unfold follow
      rw [if_neg (by omega)]

-- Of three seconds that lie closer together than two changes, the first change that is not before
-- all of them comes before at most one or two; the change after it is then too late for all.
theorem follow_eq_or {base first second third : Int} {apart : Nat} {changes : List (Nat × Nat)}
    (spaced : ∀ change ∈ changes.tail, apart ≤ change.1) (le : first ≤ second)
    (le' : second ≤ third) (near : third - first < apart) (last offset : Int) :
    follow base first last offset changes = follow base second last offset changes ∨
      follow base second last offset changes = follow base third last offset changes := by
  induction changes generalizing last offset with
  | nil => exact .inl rfl
  | cons change rest ih =>
      unfold follow
      by_cases early : second < last + change.1
      · rw [if_neg (by omega), if_neg (by omega)]
        exact .inl rfl
      · by_cases late : last + change.1 ≤ first
        · rw [if_pos late, if_pos (by omega), if_pos (by omega)]
          exact ih (fun change member => spaced change (List.mem_of_mem_tail member)) _ _
        · rw [List.tail_cons] at spaced
          right
          rw [if_pos (by omega), if_pos (by omega), follow_before_next spaced (by omega),
            follow_before_next spaced (by omega)]

end Zone.History

theorem Zone.calm_ofHistory (name : String) (h : History) {low high : Int} {apart : Nat}
    (initial : low ≤ h.initial ∧ h.initial ≤ high)
    (within : ∀ change ∈ h.changes, low ≤ h.base + change.2 ∧ h.base + change.2 ≤ high)
    (spaced : ∀ change ∈ h.changes.tail, apart ≤ change.1) (wide : (high - low) * 60 + 1 < apart) :
    (Zone.ofHistory name h).Calm := by
  refine ⟨(high - low) * nanosPerMinute, fun a b => ?_, fun a b c ab bc near => ?_⟩
  · have offsetA := @History.follow_within h.base a.seconds _ _ _ within h.origin _ initial
    have offsetB := @History.follow_within h.base b.seconds _ _ _ within h.origin _ initial
    simp only [ofHistory, nanosPerMinute]
    omega
  · change a.nanos ≤ b.nanos at ab
    change b.nanos ≤ c.nanos at bc
    have seconds : a.seconds ≤ b.seconds ∧ b.seconds ≤ c.seconds ∧
        c.seconds - a.seconds < apart := by
      simp only [WallClock.seconds, nanosPerSecond, nanosPerMinute] at near ⊢
      omega
    exact History.follow_eq_or spaced seconds.1 seconds.2.1 seconds.2.2 _ _

/-! ## The moment a count of units later -/

namespace ZonedClock

variable {zone : Zone} {now w : WallClock} {z z' : ZonedClock} {unit : TimeUnit} {count : Float}

theorem utc_eq_ok_iff {utc : WallClock} :
    z.utc = .ok utc ↔ z.wall.nanos = utc.nanos + z.offset * nanosPerMinute := by
  rw [ZonedClock.utc, moved_eq_ok_iff, Int.neg_mul]
  omega

theorem ofUtc_eq_ok (made : ofUtc zone now = .ok z) :
    z.offset = zone.offsetAt now ∧ z.utc = .ok now := by
  cases shown : moved now (zone.offsetAt now) with
  | error e =>
      simp only [ofUtc, shown, bind, Except.bind] at made
      cases made
  | ok w =>
      simp only [ofUtc, shown, bind, Except.bind, pure, Except.pure] at made
      cases made
      exact ⟨rfl, moved_back shown⟩

theorem instant_eq_ok {i : Instant} (shown : z.instant = .ok i) :
    z.utc = .ok i.utc ∧ z.offset = i.offset := by
  unfold instant at shown
  split at shown
  · cases utc : z.utc with
    | error e =>
        simp only [utc, bind, Except.bind] at shown
        cases shown
    | ok t =>
        simp only [utc, bind, Except.bind, pure, Except.pure] at shown
        cases shown
        exact ⟨rfl, rfl⟩
  · cases shown

theorem wall_shift_eq_ok (done : (z.shift zone unit count).toExcept = .ok z') :
    z.wall.shift unit count = .ok z'.wall := by
  rw [toExcept_shift] at done
  cases target : z.wall.shift unit count with
  | error e =>
      rw [target] at done
      cases done
  | ok w =>
      rw [target] at done
      simp only [Except.bind, toExcept_setWall] at done
      cases found : correctOffset zone w z.offset with
      | error e =>
          rw [found] at done
          cases done
      | ok offset =>
          rw [found] at done
          cases done
          rfl

/-- A clock that shows the right time for its zone and is then set forward, but to an earlier
moment or none later, shows a time that no offset fits. -/
theorem not_fits_of_calm (calm : zone.Calm) (right : z.offset = zone.offsetAt now)
    (shown : z.utc = .ok now) (set : SetFrom zone z.offset z')
    (forward : z.wall.nanos < z'.wall.nanos) {utc : WallClock} (shown' : z'.utc = .ok utc)
    (back : utc.nanos ≤ now.nanos) (offset : Int) : ¬ Fits zone z'.wall offset := by
  intro fits
  obtain ⟨span, near, apart⟩ := calm
  obtain ⟨guess, again, first, second, chosen⟩ := set.readings
  obtain ⟨utcFirst, movedFirst, guessed⟩ := offsetRead_eq_ok_iff.mp first
  obtain ⟨utcSecond, movedSecond, found⟩ := offsetRead_eq_ok_iff.mp second
  obtain ⟨utcFits, movedFits, fitted⟩ := offsetRead_eq_ok_iff.mp fits
  rw [utc_eq_ok_iff] at shown shown'
  rw [moved_eq_ok_iff, Int.neg_mul] at movedFirst movedSecond movedFits
  have spread (b : WallClock) : (z'.offset - zone.offsetAt b) * nanosPerMinute ≤ span := by
    have := near utcFirst b
    have := near utcSecond b
    rw [chosen, ← guessed, ← found]
    rcases Int.le_total (zone.offsetAt utcFirst) (zone.offsetAt utcSecond) with le | le
    · rw [Int.max_eq_right le]
      assumption
    · rw [Int.max_eq_left le]
      assumption
  -- The prior offset does not fit, for the clock would be kept on it and go forward.
  have changed : guess ≠ z.offset := by
    rintro rfl
    have same : utcSecond = utcFirst := WallClock.eq_of_nanos (by omega)
    rw [same, guessed] at found
    rw [chosen, ← found, Int.max_self] at shown'
    omega
  have other : offset ≠ z.offset := by
    rintro rfl
    have same : utcFits = utcFirst := WallClock.eq_of_nanos (by omega)
    rw [same, guessed] at fitted
    exact changed fitted
  -- The guess does not fit either, unless the moment it gives is the one that was chosen.
  have earlier (equal : offset = guess) : utcFits.nanos ≤ now.nanos := by
    subst equal
    have same : utcSecond = utcFits := WallClock.eq_of_nanos (by omega)
    rw [same, fitted] at found
    rw [chosen, ← found, Int.max_self] at shown'
    omega
  simp only [nanosPerMinute] at *
  have ahead : now.nanos ≤ utcFirst.nanos := by omega
  rcases Int.lt_or_le now.nanos utcFits.nanos with after | before
  · rcases Int.lt_or_le utcFirst.nanos utcFits.nanos with late | soon
    · have close := spread utcFits
      rcases apart now utcFirst utcFits ahead (Int.le_of_lt late) (by omega) with equal | equal
      · omega
      · have := earlier (by omega)
        omega
    · have close := spread now
      rcases apart now utcFits utcFirst (Int.le_of_lt after) soon (by omega) with equal | equal
      · omega
      · have := earlier (by omega)
        omega
  · have close := near utcFits now
    rcases apart utcFits now utcFirst before ahead (by omega) with equal | equal
    · omega
    · omega

end ZonedClock

namespace DateExpression

open ZonedClock

variable {zone : Zone} {now : WallClock} {i : Instant}

theorem evaluate_now_eq_ok {summands : List Summand}
    (evaluated : evaluate ⟨.keyword .now, summands⟩ now zone = .ok i) :
    ∃ z z', ofUtc zone now = .ok z ∧ applySummands zone z summands = .ok z' ∧
      z'.instant = .ok i := by
  cases made : ofUtc zone now with
  | error e =>
      simp only [evaluate, startClock, made, bind, Except.bind] at evaluated
      cases evaluated
  | ok z =>
      cases moved : applySummands zone z summands with
      | error e =>
          simp only [evaluate, startClock, made, moved, bind, Except.bind, pure, Except.pure]
            at evaluated
          cases evaluated
      | ok z' =>
          simp only [evaluate, startClock, made, moved, bind, Except.bind, pure, Except.pure]
            at evaluated
          exact ⟨z, z', rfl, moved, evaluated⟩

theorem applySummands_single {z z' : ZonedClock} {s : Summand}
    (moved : applySummands zone z [s] = .ok z') :
    (z.shift zone s.unit s.signedCount).toExcept = .ok z' := by
  cases shifted : (z.shift zone s.unit s.signedCount).toExcept with
  | error e =>
      simp only [applySummands, shifted, bind, Except.bind] at moved
      cases moved
  | ok z'' =>
      simp only [applySummands, shifted, bind, Except.bind] at moved
      exact moved

/-- Adding a whole count of units to the clock, from `w` on to `w'`, leads to a later moment exactly
if the offset does not go up by as much as the clock is moved. In a zone whose changes lie further
apart than its offsets differ, it does so wherever the zone's clocks show `w'` at all. -/
theorem utc_lt_of_plus {unit : TimeUnit} {count : Float} {n : Int} {start later : Instant}
    (whole : (Binary.ofFloat count).whole? = some n) (one_le : 1 ≤ n)
    (evaluated : evaluate ⟨.keyword .now, []⟩ now zone = .ok start)
    (evaluated' : evaluate ⟨.keyword .now, [⟨.plus, count, unit⟩]⟩ now zone = .ok later) :
    ∃ w w', moved start.utc start.offset = .ok w ∧ moved later.utc later.offset = .ok w' ∧
      w.shift unit count = .ok w' ∧ w < w' ∧
      (start.utc < later.utc ↔
        (later.offset - start.offset) * nanosPerMinute < w'.nanos - w.nanos) ∧
      (zone.Calm → ∀ offset, Fits zone w' offset → start.utc < later.utc) := by
  obtain ⟨z, _, made, unmoved, shown⟩ := evaluate_now_eq_ok evaluated
  cases Except.ok.inj unmoved
  obtain ⟨_, z', made', shifted, shown'⟩ := evaluate_now_eq_ok evaluated'
  cases Except.ok.inj (made.symm.trans made')
  have done := applySummands_single shifted
  obtain ⟨right, utc⟩ := ofUtc_eq_ok made
  obtain ⟨startUtc, startOffset⟩ := instant_eq_ok shown
  obtain ⟨laterUtc, laterOffset⟩ := instant_eq_ok shown'
  have wall := wall_shift_eq_ok done
  have forward := WallClock.nanos_lt_of_shift whole one_le wall
  refine ⟨z.wall, z'.wall, ?_, ?_, wall, forward, ?_, ?_⟩
  · rw [moved_eq_ok_iff, ← startOffset]
    exact utc_eq_ok_iff.mp startUtc
  · rw [moved_eq_ok_iff, ← laterOffset]
    exact utc_eq_ok_iff.mp laterUtc
  · rw [utc_eq_ok_iff] at startUtc laterUtc
    rw [← startOffset, ← laterOffset, Int.sub_mul]
    change start.utc.nanos < later.utc.nanos ↔ _
    omega
  · intro calm offset fits
    cases Except.ok.inj (startUtc.symm.trans utc)
    apply Int.not_le.mp
    intro back
    exact not_fits_of_calm calm right utc (.move (.shift unit count done)) forward laterUtc back
      offset fits

/-- A minute before Berlin goes over to summer time, in UTC. -/
def beforeSpring : WallClock :=
  ⟨1616893140000000000, by decide, by decide⟩

/-- The same time of the day after, which is an hour less than a day later. -/
theorem utc_lt_of_plus_day :
    ∃ start later, evaluate ⟨.keyword .now, []⟩ beforeSpring .berlin = .ok start ∧
      evaluate ⟨.keyword .now, [⟨.plus, 1, .day⟩]⟩ beforeSpring .berlin = .ok later ∧
      start.utc < later.utc := by
  have evaluated : evaluate ⟨.keyword .now, []⟩ beforeSpring .berlin = .ok ⟨beforeSpring, 60⟩ := by
    decide +kernel
  have evaluated' : evaluate ⟨.keyword .now, [⟨.plus, 1, .day⟩]⟩ beforeSpring .berlin =
      .ok ⟨⟨1616975940000000000, by decide, by decide⟩, 120⟩ := by
    decide +kernel
  obtain ⟨w, w', -, shown, -, -, -, later⟩ :=
    utc_lt_of_plus (n := 1) (by decide) (by decide) evaluated evaluated'
  have wall : moved ⟨1616975940000000000, by decide, by decide⟩ 120 =
      .ok ⟨1616983140000000000, by decide, by decide⟩ := by
    decide
  cases Except.ok.inj (shown.symm.trans wall)
  have calm : Zone.berlin.Calm := @Zone.calm_ofHistory _ _ 53 180 1000000 (by decide)
    (by decide +kernel) (by decide +kernel) (by decide)
  exact ⟨_, _, evaluated, evaluated', later calm 120 (by decide +kernel)⟩

/-- A minute before the change, one minute on is a time that the change skips: it is taken to be
almost an hour before. -/
theorem utc_of_plus_minute :
    (Binary.ofFloat 1).whole? = some 1 ∧
      evaluate ⟨.keyword .now, []⟩ beforeSpring .berlin = .ok ⟨beforeSpring, 60⟩ ∧
      ∃ later, evaluate ⟨.keyword .now, [⟨.plus, 1, .minute⟩]⟩ beforeSpring .berlin = .ok later ∧
        ¬ beforeSpring < later.utc := by
  refine ⟨by decide, by decide +kernel, ⟨⟨1616889600000000000, by decide, by decide⟩, 120⟩, ?_⟩
  decide +kernel

end DateExpression
end ChartLint
