import ChartLint.Proofs.Time.Periods

/-!
# The nearest day of a kind

The keywords for working days, vacation days and days of the week name the nearest such day: the
greatest date of a set of earlier ones, or the least of a set of later ones
(`CalendarKeyword.resolve_nearest`). Going on day by day finds it, since seven days in a row have
every day of the week.
-/

namespace ChartLint

def Date.FallsOn (d : Date) (name : Weekday) : Prop :=
  d.sinceMonday = name.sinceMonday

def DayClass.weekdays : DayClass → List Weekday
  | .working => [.mon, .tue, .wed, .thu, .fri]
  | .vacation => [.sat, .sun]

def DayClass.Covers (kind : DayClass) (d : Date) : Prop :=
  ∃ name ∈ kind.weekdays, d.FallsOn name

theorem DayClass.admits_iff {kind : DayClass} {d : Date} :
    kind.admits d = true ↔ kind.Covers d := by
  have week : d.sinceMonday < 7 := by
    unfold Date.sinceMonday
    omega
  cases kind with
  | working =>
      simp [admits, Covers, weekdays, Date.FallsOn, Weekday.sinceMonday, Date.isWorking,
        Date.isVacation]
      omega
  | vacation =>
      simp [admits, Covers, weekdays, Date.FallsOn, Weekday.sinceMonday, Date.isVacation]
      omega

namespace Date

theorem natCast_sinceMonday (d : Date) : (d.sinceMonday : Int) = (d.day + 3) % 7 := by
  unfold sinceMonday
  omega

theorem fallsOn_iff {d : Date} {name : Weekday} :
    d.FallsOn name ↔ (d.day + 3) % 7 = name.sinceMonday := by
  rw [← natCast_sinceMonday, FallsOn, Int.natCast_inj]

theorem exists_fallsOn (name : Weekday) {first : Int} (first_le : -96465292 ≤ first)
    (le_last : first + 6 ≤ 95026236) :
    ∃ e : Date, first ≤ e.day ∧ e.day ≤ first + 6 ∧ e.FallsOn name := by
  have week : name.sinceMonday < 7 := by cases name <;> decide
  refine ⟨⟨first + (name.sinceMonday - (first + 3)) % 7, by omega, by omega⟩, ?_⟩
  rw [fallsOn_iff]
  dsimp only
  omega

theorem exists_covers (kind : DayClass) {first : Int} (first_le : -96465292 ≤ first)
    (le_last : first + 6 ≤ 95026236) :
    ∃ e : Date, first ≤ e.day ∧ e.day ≤ first + 6 ∧ kind.Covers e := by
  obtain ⟨name, member⟩ : ∃ name, name ∈ kind.weekdays := by
    cases kind with
    | working => exact ⟨.mon, List.mem_cons_self⟩
    | vacation => exact ⟨.sat, List.mem_cons_self⟩
  obtain ⟨e, low, high, falls⟩ := exists_fallsOn name first_le le_last
  exact ⟨e, low, high, name, member, falls⟩

/-! ## Day by day -/

variable {accept : Date → Bool} {step : Int} {n : Nat} {d e x : Date} {kind : DayClass}

theorem day_plusDays_unit (unit : step = 1 ∨ step = -1) (d : Date) :
    (d.plusDays step).day = max (-96465292) (min (d.day + step) 95026236) := by
  have within := And.intro d.first_le d.le_last
  rcases d.plusDays_or step with moved | ⟨kept, beyond⟩
  · have within' := And.intro (d.plusDays step).first_le (d.plusDays step).le_last
    omega
  · have outside : ¬ (-96465292 ≤ d.day + step ∧ d.day + step ≤ 95026236) := by
      rintro ⟨first_le, le_last⟩
      exact beyond ⟨_, first_le, le_last⟩ rfl
    rw [kept]
    rcases unit with rfl | rfl <;> omega

inductive RollsTo (accept : Date → Bool) (step : Int) : Date → Nat → Date → Prop
  | here {d : Date} (accepted : accept d = true) : RollsTo accept step d 0 d
  | further {d e : Date} {n : Nat} (refused : accept d = false)
      (rest : RollsTo accept step (d.plusDays step) n e) : RollsTo accept step d (n + 1) e

theorem RollsTo.accepted (run : RollsTo accept step d n e) : accept e = true := by
  induction run with
  | here accepted => exact accepted
  | further _ _ ih => exact ih

theorem RollsTo.acc (run : RollsTo accept step d n e) : Acc (RollsOn accept step) d := by
  induction run with
  | here accepted =>
      constructor
      rintro next ⟨refused, -⟩
      rw [accepted] at refused
      cases refused
  | further _ _ ih =>
      constructor
      rintro next ⟨-, rfl⟩
      exact ih

theorem RollsTo.roll_eq (run : RollsTo accept step d n e) : roll accept step d = e := by
  have ends := run.acc
  induction run with
  | here accepted =>
      rw [roll, WellFounded.partialExtrinsicFix_eq_apply_of_acc ends, dif_neg (by simp [accepted])]
  | further refused rest ih =>
      rw [roll, WellFounded.partialExtrinsicFix_eq_apply_of_acc ends, dif_pos refused]
      exact ih rest.acc

/-! Multiplied by the step, days ahead are greater in either direction. -/

theorem RollsTo.ahead (unit : step = 1 ∨ step = -1) (run : RollsTo accept step d n e) :
    d.day * step ≤ e.day * step := by
  induction run with
  | here => exact le_refl _
  | @further d e n _ _ ih =>
      have within := And.intro d.first_le d.le_last
      have next : d.day * step ≤ (d.plusDays step).day * step := by
        rw [day_plusDays_unit unit]
        rcases unit with rfl | rfl <;> omega
      exact le_trans next ih

theorem day_ne_of_refused (unit : step = 1 ∨ step = -1) (refused : accept d = false)
    (taken : accept x = true) : x.day * step ≠ d.day * step := by
  intro same
  have equal : x = d := by
    apply eq_of_day
    rcases unit with rfl | rfl <;> omega
  rw [equal, refused] at taken
  cases taken

-- A day that is refused is none of those looked for, so they are still ahead of the next one.
theorem RollsTo.nearest (unit : step = 1 ∨ step = -1) (run : RollsTo accept step d n e)
    (taken : accept x = true) (ahead : d.day * step ≤ x.day * step) :
    e.day * step ≤ x.day * step := by
  induction run with
  | here => exact ahead
  | @further d e n refused _ ih =>
      have apart := day_ne_of_refused unit refused taken
      have within := And.intro d.first_le d.le_last
      apply ih
      rw [day_plusDays_unit unit]
      rcases unit with rfl | rfl <;> omega

theorem exists_rollsTo (unit : step = 1 ∨ step = -1) (accepted : accept e = true)
    (ahead : d.day * step ≤ e.day * step) (near : e.day * step ≤ d.day * step + n) :
    ∃ m ≤ n, ∃ day, RollsTo accept step d m day := by
  induction n generalizing d with
  | zero =>
      cases here : accept d with
      | true => exact ⟨0, le_refl _, d, .here here⟩
      | false => exact absurd (by omega) (day_ne_of_refused unit here accepted)
  | succ n ih =>
      cases here : accept d with
      | true => exact ⟨0, Nat.zero_le _, d, .here here⟩
      | false =>
          have apart := day_ne_of_refused unit here accepted
          have within := And.intro d.first_le d.le_last
          have within' := And.intro e.first_le e.le_last
          have next : (d.plusDays step).day * step = d.day * step + 1 := by
            rw [day_plusDays_unit unit]
            rcases unit with rfl | rfl <;> omega
          obtain ⟨m, le, day, run⟩ := @ih (d.plusDays step) (by omega) (by omega)
          exact ⟨m + 1, Nat.succ_le_succ le, day, .further here run⟩

theorem rollForward_isLeast (covers : kind.Covers e) (le : d ≤ e) (near : e.day ≤ d.day + 6) :
    IsLeast {x | d ≤ x ∧ kind.Covers x} (rollForward kind d) := by
  rw [le_iff] at le
  obtain ⟨_, -, day, run⟩ := @exists_rollsTo kind.admits 1 6 d e (.inl rfl)
    (DayClass.admits_iff.mpr covers) (by omega) (by omega)
  have beyond := run.ahead (.inl rfl)
  rw [rollForward, run.roll_eq]
  refine ⟨⟨by rw [le_iff]; omega, DayClass.admits_iff.mp run.accepted⟩, ?_⟩
  rintro x ⟨le, covers⟩
  have least :=
    run.nearest (.inl rfl) (DayClass.admits_iff.mpr covers) (by rw [le_iff] at le; omega)
  rw [le_iff]
  omega

theorem rollBack_isGreatest (covers : kind.Covers e) (le : e ≤ d) (near : d.day ≤ e.day + 6) :
    IsGreatest {x | x ≤ d ∧ kind.Covers x} (rollBack kind d) := by
  rw [le_iff] at le
  obtain ⟨_, -, day, run⟩ := @exists_rollsTo kind.admits (-1) 6 d e (.inr rfl)
    (DayClass.admits_iff.mpr covers) (by omega) (by omega)
  have beyond := run.ahead (.inr rfl)
  rw [rollBack, run.roll_eq]
  refine ⟨⟨by rw [le_iff]; omega, DayClass.admits_iff.mp run.accepted⟩, ?_⟩
  rintro x ⟨le, covers⟩
  have least :=
    run.nearest (.inr rfl) (DayClass.admits_iff.mpr covers) (by rw [le_iff] at le; omega)
  rw [le_iff]
  omega

/-! ## Days around a date -/

variable {today : Date}

theorem previous_isGreatest (inner : today.Inner) :
    IsGreatest {x | x < today ∧ kind.Covers x} (rollBack kind (today.plusDays (-1))) := by
  obtain ⟨first_le, lt_last⟩ := inner.day
  have yesterday : (today.plusDays (-1)).day = today.day - 1 :=
    day_plusDays ⟨⟨today.day - 1, by omega, by omega⟩, rfl⟩
  obtain ⟨e, low, high, covers⟩ := @exists_covers kind (today.day - 7) (by omega) (by omega)
  have earlier (x : Date) : x < today ↔ x ≤ today.plusDays (-1) := by
    rw [lt_iff, le_iff, yesterday]
    omega
  simp only [earlier]
  exact rollBack_isGreatest covers (by rw [le_iff]; omega) (by omega)

theorem next_isLeast (inner : today.Inner) :
    IsLeast {x | today < x ∧ kind.Covers x} (rollForward kind (today.plusDays 1)) := by
  obtain ⟨first_le, lt_last⟩ := inner.day
  have tomorrow : (today.plusDays 1).day = today.day + 1 :=
    day_plusDays ⟨⟨today.day + 1, by omega, by omega⟩, rfl⟩
  obtain ⟨e, low, high, covers⟩ := @exists_covers kind (today.day + 1) (by omega) (by omega)
  have later (x : Date) : today < x ↔ today.plusDays 1 ≤ x := by
    rw [lt_iff, le_iff, tomorrow]
    omega
  simp only [later]
  exact rollForward_isLeast covers (by rw [le_iff]; omega) (by omega)

theorem weekday_isGreatest (inner : today.Inner) (name : Weekday) :
    let back := (7 + today.sinceMonday - name.sinceMonday) % 7
    IsGreatest {x | x ≤ today ∧ x.FallsOn name} (today.plusDays (-(back : Int))) ∧
      today.day < (today.plusDays (-(back : Int))).day + 7 := by
  intro back
  obtain ⟨first_le, lt_last⟩ := inner.day
  have week : name.sinceMonday < 7 := by cases name <;> decide
  have since := natCast_sinceMonday today
  have found : (today.plusDays (-(back : Int))).day = today.day - back :=
    day_plusDays ⟨⟨today.day - back, by omega, by omega⟩, rfl⟩
  refine ⟨⟨⟨?_, ?_⟩, ?_⟩, by omega⟩
  · rw [le_iff]
    omega
  · rw [fallsOn_iff]
    omega
  · rintro x ⟨le, falls⟩
    rw [le_iff] at le ⊢
    rw [fallsOn_iff] at falls
    omega

/-! ## Days of the month -/

def SameMonth (d e : Date) : Prop :=
  d.civil.year = e.civil.year ∧ d.civil.month = e.civil.month

theorem sameMonth_iff :
    d.SameMonth today ↔ Civil.monthOpens today.civil.monthIndex ≤ d.day ∧
      d.day < Civil.monthOpens (today.civil.monthIndex + 1) := by
  have valid := Civil.isValid_iff.mp (isValid_civil d)
  have valid' := Civil.isValid_iff.mp (isValid_civil today)
  rw [← monthIndex_eq_iff, SameMonth, Civil.monthIndex, Civil.monthIndex]
  omega

theorem day_startOf_month (d : Date) :
    (d.startOf .month).day = Civil.monthOpens d.civil.monthIndex := by
  have valid := Civil.isValid_iff.mp (isValid_civil d)
  exact day_startOfMonth valid.1.1 valid.1.2

theorem day_endOfMonth (inner : d.Inner) :
    d.endOfMonth.day = Civil.monthOpens (d.civil.monthIndex + 1) - 1 := by
  have valid := Civil.isValid_iff.mp (isValid_civil d)
  have next : ((d.startOf .month).plusMonths 1).day =
      Civil.monthOpens (d.civil.monthIndex + 1) := by
    apply day_plusMonths (day_startOf_month d)
    rw [hasMonth_iff, Civil.monthIndex]
    unfold Inner at inner
    omega
  have opens := (monthIndex_eq_iff.mp (rfl : d.civil.monthIndex = _))
  have first_le := d.first_le
  have le_last := ((d.startOf .month).plusMonths 1).le_last
  rw [endOfMonth, day_plusDays, next]
  · rfl
  · rw [next]
    exact ⟨⟨Civil.monthOpens (d.civil.monthIndex + 1) + -1, by omega, by omega⟩, rfl⟩

theorem monthOpens_add_le (index : Int) :
    Civil.monthOpens index + 28 ≤ Civil.monthOpens (index + 1) := by
  have := Civil.le_monthLength (index / 12) ((index % 12).toNat + 1)
  rw [Civil.monthOpens_succ]
  omega

theorem endOfMonth_isGreatest (inner : today.Inner) :
    IsGreatest {x | x.SameMonth today} today.endOfMonth := by
  have last := day_endOfMonth inner
  have long := monthOpens_add_le today.civil.monthIndex
  constructor
  · change today.endOfMonth.SameMonth today
    rw [sameMonth_iff]
    omega
  · intro x same
    have := (sameMonth_iff.mp same).2
    rw [le_iff]
    omega

theorem firstOfMonth_isLeast (inner : today.Inner) :
    IsLeast {x | x.SameMonth today ∧ kind.Covers x} (rollForward kind (today.startOf .month)) := by
  have first := day_startOf_month today
  have long := monthOpens_add_le today.civil.monthIndex
  have opens := (sameMonth_iff.mp (⟨rfl, rfl⟩ : today.SameMonth today)).1
  have lt_last := inner.day.2
  obtain ⟨e, low, high, covers⟩ := exists_covers kind (today.startOf .month).first_le (by omega)
  obtain ⟨⟨le, found⟩, least⟩ := rollForward_isLeast covers low high
  have soon : rollForward kind (today.startOf .month) ≤ e := least ⟨low, covers⟩
  rw [le_iff] at le soon
  refine ⟨⟨sameMonth_iff.mpr (by omega), found⟩, ?_⟩
  rintro x ⟨same, covers⟩
  refine least ⟨?_, covers⟩
  rw [le_iff, first]
  exact (sameMonth_iff.mp same).1

theorem lastOfMonth_isGreatest (inner : today.Inner) :
    IsGreatest {x | x.SameMonth today ∧ kind.Covers x} (rollBack kind today.endOfMonth) := by
  have last := day_endOfMonth inner
  have long := monthOpens_add_le today.civil.monthIndex
  have ends := (sameMonth_iff.mp (⟨rfl, rfl⟩ : today.SameMonth today)).2
  have first_le := inner.day.1
  have le_last := today.endOfMonth.le_last
  obtain ⟨e, low, high, covers⟩ :=
    @exists_covers kind (today.endOfMonth.day - 6) (by omega) (by omega)
  have le : e ≤ today.endOfMonth := by
    rw [le_iff]
    omega
  obtain ⟨⟨le', found⟩, greatest⟩ := rollBack_isGreatest covers le (by omega)
  have late : e ≤ rollBack kind today.endOfMonth := greatest ⟨le, covers⟩
  rw [le_iff] at le' late
  refine ⟨⟨sameMonth_iff.mpr (by omega), found⟩, ?_⟩
  rintro x ⟨same, covers⟩
  exact greatest ⟨(endOfMonth_isGreatest inner).2 same, covers⟩

end Date

/-- The working, vacation or other day that a keyword names is the nearest one: the last before
today or the first after it, the first or the last one of the month, and for a day of the week the
last one up to today, which is less than seven days ago. All are named at midnight. This holds in
every year but the first and the last of the calendar. -/
theorem CalendarKeyword.resolve_nearest (w : WallClock) (inner : w.date.Inner) :
    (∀ kind, ∃ day, (previousOf kind).resolve w = .midnight day ∧
      IsGreatest {d | d < w.date ∧ kind.Covers d} day) ∧
    (∀ kind, ∃ day, (nextOf kind).resolve w = .midnight day ∧
      IsLeast {d | w.date < d ∧ kind.Covers d} day) ∧
    (∀ kind, ∃ day, (firstOf kind).resolve w = .midnight day ∧
      IsLeast {d | d.SameMonth w.date ∧ kind.Covers d} day) ∧
    (∀ kind, ∃ day, (lastOf kind).resolve w = .midnight day ∧
      IsGreatest {d | d.SameMonth w.date ∧ kind.Covers d} day) ∧
    (∃ day, lastDay.resolve w = .midnight day ∧ IsGreatest {d | d.SameMonth w.date} day) ∧
    ∀ name, ∃ day, (weekday name).resolve w = .midnight day ∧
      IsGreatest {d | d ≤ w.date ∧ d.FallsOn name} day ∧ w.date.day < day.day + 7 := by
  refine ⟨?_, ?_, ?_, ?_, ?_, ?_⟩
  · exact fun kind => ⟨_, rfl, Date.previous_isGreatest inner⟩
  · exact fun kind => ⟨_, rfl, Date.next_isLeast inner⟩
  · exact fun kind => ⟨_, rfl, Date.firstOfMonth_isLeast inner⟩
  · exact fun kind => ⟨_, rfl, Date.lastOfMonth_isGreatest inner⟩
  · exact ⟨_, rfl, Date.endOfMonth_isGreatest inner⟩
  · exact fun name => ⟨_, rfl, Date.weekday_isGreatest inner name⟩

theorem WallClock.midnight_inj {d e : Date} (same : midnight d = midnight e) : d = e := by
  have dates := congrArg WallClock.date same
  rwa [midnight, midnight, date_ofDate, date_ofDate] at dates

/-- The leap day of 2020 was a Saturday: the last working day of the month was the day before, and
the last Monday five days before. -/
theorem CalendarKeyword.resolve_nearest_leap_day :
    let friday : Date := ⟨18320, by decide, by decide⟩
    let monday : Date := ⟨18316, by decide, by decide⟩
    WallClock.leapNoon.date.Inner ∧
      (lastOf .working).resolve WallClock.leapNoon = .midnight friday ∧
      IsGreatest {d | d.SameMonth WallClock.leapNoon.date ∧ DayClass.working.Covers d} friday ∧
      (weekday .mon).resolve WallClock.leapNoon = .midnight monday ∧
      IsGreatest {d | d ≤ WallClock.leapNoon.date ∧ d.FallsOn .mon} monday := by
  intro friday monday
  have inner : WallClock.leapNoon.date.Inner := by
    unfold Date.Inner
    decide
  have named : (lastOf .working).resolve WallClock.leapNoon = .midnight friday := by
    have leapDay : DayClass.working.admits WallClock.leapNoon.date.endOfMonth = false := by decide
    have before : WallClock.leapNoon.date.endOfMonth.plusDays (-1) = friday := by decide
    have run : Date.RollsTo DayClass.working.admits (-1) friday 0 friday := .here (by decide)
    rw [← before] at run
    exact congrArg WallClock.midnight ((Date.RollsTo.further leapDay run).roll_eq.trans before)
  have named' : (weekday .mon).resolve WallClock.leapNoon = .midnight monday := by decide
  obtain ⟨-, -, -, last, -, since⟩ := resolve_nearest WallClock.leapNoon inner
  obtain ⟨day, shown, greatest⟩ := last .working
  obtain ⟨day', shown', greatest', -⟩ := since .mon
  obtain rfl := WallClock.midnight_inj (named.symm.trans shown)
  obtain rfl := WallClock.midnight_inj (named'.symm.trans shown')
  exact ⟨inner, named, greatest, named', greatest'⟩

end ChartLint
