import ChartLint.Proofs.Time.Months

/-!
# Periods in a row

The periods of one kind are counted, and each ends where the next one opens (`Period.opens`). A
keyword for the start of a period names such an opening: that of the period around the clock, of the
one before or of the one after (`WallClock.nanos_startOf`). So these keywords cut time into periods
without gaps (`CalendarKeyword.resolve_start_tiles`).
-/

namespace ChartLint

/-! ## Dates within periods -/

namespace Date

variable {d : Date} {index : Int}

theorem day_plusDays {days : Int} (has : ∃ e : Date, e.day = d.day + days) :
    (d.plusDays days).day = d.day + days := by
  obtain ⟨e, day⟩ := has
  have within := And.intro e.first_le e.le_last
  rw [day] at within
  rw [plusDays, addDays?, ofDay?, dif_pos within, Option.getD_some]

theorem plusDays_or (d : Date) (days : Int) :
    (d.plusDays days).day = d.day + days ∨
      d.plusDays days = d ∧ ∀ e : Date, e.day ≠ d.day + days := by
  by_cases has : ∃ e : Date, e.day = d.day + days
  · exact .inl (day_plusDays has)
  · right
    rw [not_exists] at has
    refine ⟨?_, has⟩
    unfold plusDays addDays? ofDay?
    rw [dif_neg, Option.getD_none]
    rintro ⟨first_le, le_last⟩
    exact has ⟨_, first_le, le_last⟩ rfl

theorem day_eq_monthOpens (same : d.civil.monthIndex = index) (first : d.civil.day = 1) :
    d.day = Civil.monthOpens index := by
  rw [← dayNumber_civil, Civil.dayNumber_eq (isValid_civil d), same, first]
  simp

theorem monthIndex_of_day (opens : d.day = Civil.monthOpens index) :
    d.civil.monthIndex = index := by
  rw [monthIndex_eq_iff, opens]
  exact ⟨le_refl _, Civil.monthOpens_lt (Int.lt_succ index)⟩

theorem civil_day_of_day (opens : d.day = Civil.monthOpens index) : d.civil.day = 1 := by
  have same := monthIndex_of_day opens
  have number := Civil.dayNumber_eq (isValid_civil d)
  rw [dayNumber_civil, opens, same] at number
  omega

theorem day_plusMonths {months : Int} (opens : d.day = Civil.monthOpens index)
    (has : HasMonth (index + months)) :
    (d.plusMonths months).day = Civil.monthOpens (index + months) := by
  have same := monthIndex_of_day opens
  rw [← same] at has
  obtain ⟨e, moved⟩ := exists_addMonths?_iff.mpr has
  obtain ⟨there, day⟩ := addMonths?_eq_some_iff.mp moved
  have pos := Civil.monthLength_pos e.civil.year e.civil.month
  rw [plusMonths, moved, Option.getD_some]
  apply day_eq_monthOpens
  · rw [there, same]
  · rw [day, civil_day_of_day opens]
    omega

theorem day_startOfMonth {month : Nat} (one_le : 1 ≤ month) (le : month ≤ 12) :
    (d.startOfMonth month).day = Civil.monthOpens (d.civil.year * 12 + (month - 1)) := by
  have valid : (⟨d.civil.year, month, 1⟩ : Civil).isValid = true :=
    Civil.isValid_iff.mpr ⟨⟨one_le, le⟩, le_refl 1, Civil.monthLength_pos _ _⟩
  obtain ⟨e, civil⟩ := exists_civil_eq valid (year_civil d).1 (year_civil d).2
  have found : ofCivil? ⟨d.civil.year, month, 1⟩ = some e := ofCivil?_eq_some_iff.mpr ⟨valid, civil⟩
  rw [startOfMonth, found, Option.getD_some]
  apply day_eq_monthOpens
  · rw [civil]
    rfl
  · rw [civil]

theorem exists_day_eq_monthOpens (has : HasMonth index) :
    ∃ d : Date, d.day = Civil.monthOpens index := by
  obtain ⟨d, rfl⟩ := has
  have valid := Civil.isValid_iff.mp (isValid_civil d)
  exact ⟨d.startOfMonth d.civil.month, day_startOfMonth valid.1.1 valid.1.2⟩

end Date

namespace Period

def opensDay : Period → Int → Int
  | .minute, k | .hour, k | .day, k => k
  | .week, k => 7 * k - 3
  | .month, k => Civil.monthOpens k
  | .quarter, k => Civil.monthOpens (3 * k)
  | .year, k => Civil.monthOpens (12 * k)

/-- The time at which a period opens, in nanoseconds since 1970-01-01T00:00:00. The first week is
the one with this day, months are counted from January of year 0. -/
def opens : Period → Int → Int
  | .minute, k => k * nanosPerMinute
  | .hour, k => k * nanosPerHour
  | period, k => period.opensDay k * nanosPerDay

theorem opensDay_lt (period : Period) {k l : Int} (lt : k < l) :
    period.opensDay k < period.opensDay l := by
  cases period with
  | minute | hour | day | week => simp only [opensDay]; omega
  | month => exact Civil.monthOpens_lt lt
  | quarter => exact Civil.monthOpens_lt (by omega)
  | year => exact Civil.monthOpens_lt (by omega)

theorem opens_lt (period : Period) {k l : Int} (lt : k < l) : period.opens k < period.opens l := by
  have days := period.opensDay_lt lt
  cases period <;> simp only [opens, nanosPerMinute, nanosPerHour, nanosPerDay] <;> omega

theorem opens_le (period : Period) {k l : Int} (le : k ≤ l) : period.opens k ≤ period.opens l := by
  rcases Int.lt_or_eq_of_le le with lt | rfl
  · exact le_of_lt (period.opens_lt lt)
  · exact le_refl _

theorem exists_opensDay (period : Period) (d : Date) :
    ∃ k, period.opensDay k ≤ d.day ∧ d.day < period.opensDay (k + 1) := by
  cases period with
  | minute | hour | day => exact ⟨d.day, le_refl _, Int.lt_succ _⟩
  | week =>
      refine ⟨(d.day + 3) / 7, ?_⟩
      simp only [opensDay]
      omega
  | month =>
      refine ⟨d.civil.monthIndex, ?_⟩
      exact ⟨Date.monthOpens_le_iff.mpr (by omega), Date.lt_monthOpens_iff.mpr (by omega)⟩
  | quarter =>
      refine ⟨d.civil.monthIndex / 3, ?_⟩
      exact ⟨Date.monthOpens_le_iff.mpr (by omega), Date.lt_monthOpens_iff.mpr (by omega)⟩
  | year =>
      refine ⟨d.civil.monthIndex / 12, ?_⟩
      exact ⟨Date.monthOpens_le_iff.mpr (by omega), Date.lt_monthOpens_iff.mpr (by omega)⟩

-- Only a week can open before the calendar does; the others open with a month of a year.
theorem day_startOf_or {period : Period} {d : Date} {k : Int} (opens : period.opensDay k ≤ d.day)
    (ends : d.day < period.opensDay (k + 1)) :
    (d.startOf period).day = period.opensDay k ∨
      (d.startOf period).day = d.day ∧ ∀ e : Date, e.day ≠ period.opensDay k := by
  have valid := Civil.isValid_iff.mp (Date.isValid_civil d)
  have index : d.civil.monthIndex = d.civil.year * 12 + (d.civil.month - 1) := rfl
  cases period with
  | minute | hour | day =>
      left
      simp only [opensDay, Date.startOf] at *
      omega
  | week =>
      simp only [opensDay] at opens ends ⊢
      have monday : d.day + -(d.sinceMonday : Int) = 7 * k - 3 := by
        unfold Date.sinceMonday
        omega
      rw [← monday, Date.startOf, Date.startOfWeek]
      rcases d.plusDays_or (-(d.sinceMonday : Int)) with moved | ⟨kept, none_⟩
      · exact .inl moved
      · exact .inr ⟨by rw [kept], none_⟩
  | month | quarter | year =>
      left
      simp only [opensDay] at opens ends ⊢
      rw [Date.monthOpens_le_iff] at opens
      rw [Date.lt_monthOpens_iff] at ends
      rw [Date.startOf, Date.day_startOfMonth (by omega) (by omega)]
      apply congrArg
      omega

def Coarse (period : Period) : Prop :=
  period ≠ .minute ∧ period ≠ .hour

theorem coarse_or (period : Period) : period.Coarse ∨ period = .minute ∨ period = .hour := by
  cases period <;> simp [Coarse]

theorem day_plusPeriods {period : Period} {d : Date} {k n : Int} (coarse : period.Coarse)
    (opens : d.day = period.opensDay k) (has : ∃ e : Date, e.day = period.opensDay (k + n)) :
    (d.plusPeriods n period).day = period.opensDay (k + n) := by
  obtain ⟨e, there⟩ := has
  cases period with
  | minute => exact absurd rfl coarse.1
  | hour => exact absurd rfl coarse.2
  | day =>
      simp only [opensDay] at *
      rw [Date.plusPeriods, Date.day_plusDays ⟨e, by omega⟩, opens]
  | week =>
      simp only [opensDay] at *
      rw [Date.plusPeriods, Date.day_plusDays ⟨e, by omega⟩]
      omega
  | month => exact Date.day_plusMonths opens ⟨e, Date.monthIndex_of_day there⟩
  | quarter =>
      simp only [opensDay, Int.mul_add] at *
      exact Date.day_plusMonths opens ⟨e, Date.monthIndex_of_day there⟩
  | year =>
      simp only [opensDay, Int.mul_add] at *
      exact Date.day_plusMonths opens ⟨e, Date.monthIndex_of_day there⟩

/-! ## Clocks within periods -/

theorem opens_coarse {period : Period} (coarse : period.Coarse) (k : Int) :
    period.opens k = period.opensDay k * nanosPerDay := by
  cases period with
  | minute => exact absurd rfl coarse.1
  | hour => exact absurd rfl coarse.2
  | day | week | month | quarter | year => rfl

def Around (period : Period) (k : Int) (w : WallClock) : Prop :=
  period.opens k ≤ w.nanos ∧ w.nanos < period.opens (k + 1)

variable {period : Period} {k l : Int} {w : WallClock}

theorem around_coarse_iff (coarse : period.Coarse) :
    period.Around k w ↔
      period.opensDay k ≤ w.date.day ∧ w.date.day < period.opensDay (k + 1) := by
  have day : w.date.day = w.nanos / 86400000000000 := rfl
  have nanos : nanosPerDay = 86400000000000 := rfl
  constructor
  · rintro ⟨opens, ends⟩
    rw [opens_coarse coarse, nanos] at opens ends
    omega
  · rintro ⟨opens, ends⟩
    constructor <;> rw [opens_coarse coarse, nanos] <;> omega

theorem exists_around (period : Period) (w : WallClock) : ∃ k, period.Around k w := by
  rcases period.coarse_or with coarse | rfl | rfl
  · obtain ⟨k, here⟩ := period.exists_opensDay w.date
    exact ⟨k, (around_coarse_iff coarse).mpr here⟩
  · refine ⟨w.nanos / nanosPerMinute, ?_⟩
    simp only [Around, opens, nanosPerMinute]
    omega
  · refine ⟨w.nanos / nanosPerHour, ?_⟩
    simp only [Around, opens, nanosPerHour]
    omega

theorem Around.le (here : period.Around k w) (opened : period.opens l ≤ w.nanos) : l ≤ k := by
  by_contra later
  have := period.opens_le (Int.add_one_le_of_lt (not_le.mp later))
  have := here.2
  omega

theorem around_of_eq (boundary : w.nanos = period.opens k) : period.Around k w := by
  rw [Around, boundary]
  exact ⟨le_refl _, period.opens_lt (Int.lt_succ k)⟩

theorem exists_opens_iff (coarse : period.Coarse) :
    (∃ v : WallClock, v.nanos = period.opens k) ↔ ∃ e : Date, e.day = period.opensDay k := by
  rw [opens_coarse coarse]
  constructor
  · rintro ⟨v, there⟩
    have day : v.date.day = v.nanos / 86400000000000 := rfl
    rw [show nanosPerDay = 86400000000000 from rfl] at there
    exact ⟨v.date, by omega⟩
  · rintro ⟨e, there⟩
    exact ⟨.midnight e, by rw [← there]; exact Int.add_zero _⟩

end Period

namespace WallClock

variable {period : Period} {k : Int} {w : WallClock} {turn : Turn}

theorem nanos_plusNanos {nanos : Int} (has : ∃ v : WallClock, v.nanos = w.nanos + nanos) :
    (w.plusNanos nanos).nanos = w.nanos + nanos := by
  obtain ⟨v, there⟩ := has
  have within := And.intro v.first_le v.le_last
  rw [there] at within
  rw [plusNanos, addNanos?, ofNanos?, dif_pos within, Option.getD_some]

theorem nanos_midnight (d : Date) : (midnight d).nanos = d.day * nanosPerDay :=
  Int.add_zero _

theorem startOf_coarse (coarse : period.Coarse) (w : WallClock) (turn : Turn) :
    w.startOf turn period = midnight (if turn = .current then w.date.startOf period
      else (w.date.startOf period).plusPeriods turn.count period) := by
  cases period with
  | minute => exact absurd rfl coarse.1
  | hour => exact absurd rfl coarse.2
  | day | week | month | quarter | year => rfl

theorem nanos_startOf_coarse (coarse : period.Coarse) (here : period.Around k w)
    (has : ∃ v : WallClock, v.nanos = period.opens k)
    (has' : ∃ v : WallClock, v.nanos = period.opens (k + turn.count)) :
    (w.startOf turn period).nanos = period.opens (k + turn.count) := by
  obtain ⟨opens, ends⟩ := (Period.around_coarse_iff coarse).mp here
  have start : (w.date.startOf period).day = period.opensDay k := by
    obtain ⟨e, there⟩ := (Period.exists_opens_iff coarse).mp has
    rcases Period.day_startOf_or opens ends with same | ⟨-, none_⟩
    · exact same
    · exact absurd there (none_ e)
  rw [startOf_coarse coarse, nanos_midnight, Period.opens_coarse coarse]
  congr 1
  split
  · rename_i current
    rw [start, current]
    exact congrArg _ (Int.add_zero k).symm
  · exact Period.day_plusPeriods coarse start ((Period.exists_opens_iff coarse).mp has')

theorem nanos_startOfMinute (here : Period.minute.Around k w) :
    w.startOfMinute.nanos = Period.minute.opens k := by
  obtain ⟨opens, ends⟩ := here
  simp only [Period.opens, startOfMinute, nanosPerMinute] at *
  omega

theorem nanos_startOfHour (here : Period.hour.Around k w) :
    w.startOfHour.nanos = Period.hour.opens k := by
  obtain ⟨opens, ends⟩ := here
  simp only [Period.opens, startOfHour, nanosPerHour] at *
  omega

theorem nanos_startOf (here : period.Around k w) (has : ∃ v : WallClock, v.nanos = period.opens k)
    (has' : ∃ v : WallClock, v.nanos = period.opens (k + turn.count)) :
    (w.startOf turn period).nanos = period.opens (k + turn.count) := by
  rcases period.coarse_or with coarse | rfl | rfl
  · exact nanos_startOf_coarse coarse here has has'
  · have there : w.startOfMinute.nanos + turn.count * nanosPerMinute =
        Period.minute.opens (k + turn.count) := by
      rw [nanos_startOfMinute here]
      exact (Int.add_mul ..).symm
    rw [← there] at has' ⊢
    exact nanos_plusNanos has'
  · have there : w.startOfHour.nanos + turn.count * nanosPerHour =
        Period.hour.opens (k + turn.count) := by
      rw [nanos_startOfHour here]
      exact (Int.add_mul ..).symm
    rw [← there] at has' ⊢
    exact nanos_plusNanos has'

theorem startOf_of_boundary {v : WallClock} (boundary : w.nanos = period.opens k)
    (there : v.nanos = period.opens (k + turn.count)) : w.startOf turn period = v := by
  apply eq_of_nanos
  rw [nanos_startOf (Period.around_of_eq boundary) ⟨w, boundary⟩ ⟨v, there⟩, there]

theorem nanos_startOf_current (here : period.Around k w)
    (has : ∃ v : WallClock, v.nanos = period.opens k) :
    (w.startOf .current period).nanos = period.opens k := by
  have same : k + Turn.current.count = k := Int.add_zero k
  rw [nanos_startOf here has (by rwa [same]), same]

-- In the first days of the calendar the week may have opened too early. The day itself is its start
-- then, which is no opening of a week.
theorem startOf_current_between (here : period.Around k w) :
    period.opens k ≤ (w.startOf .current period).nanos ∧
      (w.startOf .current period).nanos ≤ w.nanos := by
  rcases period.coarse_or with coarse | rfl | rfl
  · obtain ⟨opens, ends⟩ := (Period.around_coarse_iff coarse).mp here
    have start : period.opensDay k ≤ (w.date.startOf period).day ∧
        (w.date.startOf period).day ≤ w.date.day := by
      rcases Period.day_startOf_or opens ends with same | ⟨same, -⟩ <;> omega
    have day : w.date.day = w.nanos / 86400000000000 := rfl
    rw [startOf_coarse coarse, if_pos rfl, nanos_midnight, Period.opens_coarse coarse,
      show nanosPerDay = 86400000000000 from rfl]
    omega
  · rw [nanos_startOf_current here ⟨w.startOfMinute, nanos_startOfMinute here⟩]
    exact ⟨le_refl _, here.1⟩
  · rw [nanos_startOf_current here ⟨w.startOfHour, nanos_startOfHour here⟩]
    exact ⟨le_refl _, here.1⟩

theorem startOf_current_eq_iff {v : WallClock} (boundary : v.nanos = period.opens k) :
    w.startOf .current period = v ↔ period.Around k w := by
  constructor
  · rintro rfl
    obtain ⟨l, here⟩ := period.exists_around w
    obtain ⟨low, high⟩ := startOf_current_between here
    have le : l ≤ k := by
      by_contra later
      have := period.opens_lt (not_le.mp later)
      omega
    obtain rfl : l = k := le_antisymm le (here.le (by omega))
    exact here
  · intro here
    apply eq_of_nanos
    rw [nanos_startOf_current here ⟨v, boundary⟩, boundary]

end WallClock

/-! ## Away from the ends of the calendar -/

def Date.Inner (d : Date) : Prop :=
  -262143 < d.civil.year ∧ d.civil.year < 262142

theorem Date.Inner.day {d : Date} (inner : d.Inner) : -96464927 ≤ d.day ∧ d.day < 95025872 := by
  have index := Civil.isValid_iff.mp (isValid_civil d)
  have first : Civil.monthOpens (-262142 * 12) = -96464927 := by decide
  have last : Civil.monthOpens (262142 * 12) = 95025872 := by decide
  rw [← first, ← last, monthOpens_le_iff, lt_monthOpens_iff, Civil.monthIndex]
  unfold Inner at inner
  omega

theorem Period.exists_opens {period : Period} {k j : Int} {w : WallClock} (inner : w.date.Inner)
    (here : period.Around k w) (low : k - 1 ≤ j) (high : j ≤ k + 1) :
    ∃ v : WallClock, v.nanos = period.opens j := by
  cases period with
  | minute | hour | day | week =>
      obtain ⟨opens, ends⟩ := here
      have days := inner.day
      have day : w.date.day = w.nanos / 86400000000000 := rfl
      simp only [Period.opens, opensDay, nanosPerMinute, nanosPerHour, nanosPerDay] at *
      exact ⟨⟨_, by omega, by omega⟩, rfl⟩
  | month | quarter | year =>
      obtain ⟨opens, ends⟩ := (around_coarse_iff (by simp [Coarse])).mp here
      simp only [opensDay, Date.monthOpens_le_iff, Date.lt_monthOpens_iff] at opens ends
      have valid := Civil.isValid_iff.mp (Date.isValid_civil w.date)
      have index : w.date.civil.monthIndex = w.date.civil.year * 12 + (w.date.civil.month - 1) :=
        rfl
      unfold Date.Inner at inner
      apply (exists_opens_iff (by simp [Coarse])).mpr
      apply Date.exists_day_eq_monthOpens
      apply Date.hasMonth_iff.mpr
      omega

/-- The keywords for one period cut time into pieces: the clock stands between the start of its own
period and the next start, and the current start is the same exactly for the times between these.
Going one period on and one back leads to the same start, and each start is that of its own period.
All this holds in every year but the first and the last of the calendar. -/
theorem CalendarKeyword.resolve_start_tiles (period : Period) (t : WallClock)
    (inner : t.date.Inner) :
    let c := (start .current period).resolve t
    let p := (start .previous period).resolve t
    let n := (start .next period).resolve t
    (p < c ∧ c ≤ t ∧ t < n) ∧
      (∀ u, (start .current period).resolve u = c ↔ c ≤ u ∧ u < n) ∧
      ((start .previous period).resolve n = c ∧ (start .next period).resolve p = c) ∧
      ∀ b ∈ [p, c, n], (start .current period).resolve b = b := by
  obtain ⟨k, here⟩ := period.exists_around t
  have has (j : Int) (low : k - 1 ≤ j) (high : j ≤ k + 1) :=
    Period.exists_opens inner here low high
  intro c p n
  have current : c.nanos = period.opens k :=
    WallClock.nanos_startOf_current here (has k (by omega) (by omega))
  have previous : p.nanos = period.opens (k - 1) :=
    WallClock.nanos_startOf here (has k (by omega) (by omega)) (has (k - 1) (by omega) (by omega))
  have next : n.nanos = period.opens (k + 1) :=
    WallClock.nanos_startOf here (has k (by omega) (by omega)) (has (k + 1) (by omega) (by omega))
  refine ⟨⟨?_, ?_, ?_⟩, ?_, ⟨?_, ?_⟩, ?_⟩
  · change p.nanos < c.nanos
    rw [previous, current]
    exact period.opens_lt (by omega)
  · change c.nanos ≤ t.nanos
    rw [current]
    exact here.1
  · change t.nanos < n.nanos
    rw [next]
    exact here.2
  · intro u
    apply (WallClock.startOf_current_eq_iff current).trans
    change _ ↔ c.nanos ≤ u.nanos ∧ u.nanos < n.nanos
    rw [current, next]
    exact Iff.rfl
  · apply WallClock.startOf_of_boundary next
    rw [current]
    exact congrArg _ (Int.add_sub_cancel k 1).symm
  · apply WallClock.startOf_of_boundary previous
    rw [current]
    exact congrArg _ (Int.sub_add_cancel k 1).symm
  · have fixed {j : Int} {b : WallClock} (boundary : b.nanos = period.opens j) :
        (start .current period).resolve b = b :=
      (WallClock.startOf_current_eq_iff boundary).mpr (Period.around_of_eq boundary)
    intro b member
    simp only [List.mem_cons, List.not_mem_nil, or_false] at member
    rcases member with rfl | rfl | rfl
    · exact fixed previous
    · exact fixed current
    · exact fixed next

/-- The week of the leap day of 2020 is that from Monday, 24 February, to Monday, 2 March. -/
theorem CalendarKeyword.resolve_start_tiles_leap_week :
    let monday : WallClock := .midnight ⟨18316, by decide, by decide⟩
    WallClock.leapNoon.date.Inner ∧ (start .current .week).resolve WallClock.leapNoon = monday ∧
      ∀ u, (start .current .week).resolve u = monday ↔
        monday ≤ u ∧ u < .midnight ⟨18323, by decide, by decide⟩ := by
  have inner : WallClock.leapNoon.date.Inner := by
    unfold Date.Inner
    decide
  have current : (start .current .week).resolve WallClock.leapNoon =
      .midnight ⟨18316, by decide, by decide⟩ := by decide
  have next : (start .next .week).resolve WallClock.leapNoon =
      .midnight ⟨18323, by decide, by decide⟩ := by decide
  obtain ⟨-, same, -⟩ := resolve_start_tiles .week WallClock.leapNoon inner
  rw [current, next] at same
  exact ⟨inner, current, same⟩

end ChartLint
