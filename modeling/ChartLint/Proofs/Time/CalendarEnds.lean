import ChartLint.Proofs.Time.NearestDay

/-!
# Searches at the ends of the calendar

The keywords for working and vacation days search the calendar day by day. A step that would leave
the calendar is not taken, so a search that comes to an end of the calendar stays there. It ends
exactly if a day of its class is left in its direction (`Search.Left`), and then within six steps.
The calendar starts on a Thursday and ends on a Monday, so that of both working days and vacation
days there are some from the start of every month on and up to its end. Only beyond the first and
the last vacation day of the calendar a search does not end (`CalendarKeyword.search_ends`).
-/

namespace ChartLint

/-! ## Runs of a search -/

namespace Date

variable {step : Int} {d x : Date} {kind : DayClass}

-- A day that is more than six days ahead leaves room for a whole week before it.
theorem exists_covers_near (unit : step = 1 ∨ step = -1) (covers : kind.Covers x)
    (ahead : d.day * step ≤ x.day * step) :
    ∃ e : Date, kind.Covers e ∧ d.day * step ≤ e.day * step ∧ e.day * step ≤ d.day * step + 6 := by
  by_cases near : x.day * step ≤ d.day * step + 6
  · exact ⟨x, covers, ahead, near⟩
  · have within := And.intro x.first_le x.le_last
    rcases unit with rfl | rfl
    · obtain ⟨e, low, high, covers⟩ := exists_covers kind d.first_le (by omega)
      exact ⟨e, covers, by omega, by omega⟩
    · have le_last := d.le_last
      obtain ⟨e, low, high, covers⟩ := @exists_covers kind (d.day - 6) (by omega) (by omega)
      exact ⟨e, covers, by omega, by omega⟩

end Date

structure Search where
  kind : DayClass
  start : Date
  step : Int
  unit : step = 1 ∨ step = -1

namespace Search

variable {s : Search} {n : Nat} {day : Date}

def result (s : Search) : Date :=
  Date.roll s.kind.admits s.step s.start

def EndsAt (s : Search) (n : Nat) (day : Date) : Prop :=
  Date.RollsTo s.kind.admits s.step s.start n day

def Left (s : Search) : Prop :=
  ∃ x, s.kind.Covers x ∧ s.start.day * s.step ≤ x.day * s.step

theorem EndsAt.covers (ends : s.EndsAt n day) : s.kind.Covers day :=
  DayClass.admits_iff.mp (Date.RollsTo.accepted ends)

theorem EndsAt.left (ends : s.EndsAt n day) : s.Left :=
  ⟨day, ends.covers, Date.RollsTo.ahead s.unit ends⟩

theorem Left.ends (left : s.Left) : ∃ n ≤ 6, s.EndsAt n s.result := by
  obtain ⟨x, covers, ahead⟩ := left
  obtain ⟨e, covers, ahead, near⟩ := Date.exists_covers_near s.unit covers ahead
  obtain ⟨n, le, day, run⟩ := Date.exists_rollsTo s.unit (DayClass.admits_iff.mpr covers) ahead near
  rw [result, run.roll_eq]
  exact ⟨n, le, run⟩

end Search

/-! ## The first and the last day of a class -/

namespace DayClass

variable {kind : DayClass} {d : Date}

/-- The first day of a class in the calendar: Thursday, -262143-01-01, or the Saturday after it. -/
def firstDay : DayClass → Date
  | .working => ⟨-96465292, by decide, by decide⟩
  | .vacation => ⟨-96465290, by decide, by decide⟩

/-- The last day of a class in the calendar: Monday, 262142-12-31, or the Sunday before it. -/
def lastDay : DayClass → Date
  | .working => ⟨95026236, by decide, by decide⟩
  | .vacation => ⟨95026235, by decide, by decide⟩

theorem covers_iff :
    kind.Covers d ↔ if kind = .vacation then 5 ≤ (d.day + 3) % 7 else (d.day + 3) % 7 < 5 := by
  rw [← admits_iff, ← Date.natCast_sinceMonday]
  cases kind with
  | working => simp [admits, Date.isWorking, Date.isVacation]
  | vacation => simp [admits, Date.isVacation]

theorem firstDay_isLeast (kind : DayClass) : IsLeast {d | kind.Covers d} kind.firstDay := by
  constructor
  · change kind.Covers kind.firstDay
    rw [covers_iff]
    cases kind <;> decide
  · intro d covers
    have first_le := d.first_le
    rw [Set.mem_ofPred_eq, covers_iff] at covers
    rw [Date.le_iff]
    cases kind with
    | working => exact first_le
    | vacation =>
        simp only [if_true] at covers
        simp only [firstDay]
        omega

theorem lastDay_isGreatest (kind : DayClass) : IsGreatest {d | kind.Covers d} kind.lastDay := by
  constructor
  · change kind.Covers kind.lastDay
    rw [covers_iff]
    cases kind <;> decide
  · intro d covers
    have le_last := d.le_last
    rw [Set.mem_ofPred_eq, covers_iff] at covers
    rw [Date.le_iff]
    cases kind with
    | working => exact le_last
    | vacation =>
        simp only [if_true] at covers
        simp only [lastDay]
        omega

theorem firstDay_le (kind : DayClass) : kind.firstDay.day ≤ -96465290 := by
  cases kind <;> decide

theorem le_lastDay (kind : DayClass) : 95026235 ≤ kind.lastDay.day := by
  cases kind <;> decide

end DayClass

namespace Search

variable {kind : DayClass} {start : Date}

theorem left_forward_iff : (⟨kind, start, 1, .inl rfl⟩ : Search).Left ↔ start ≤ kind.lastDay := by
  constructor
  · rintro ⟨x, covers, ahead⟩
    have le := kind.lastDay_isGreatest.2 covers
    rw [Date.le_iff] at le ⊢
    dsimp only at ahead
    omega
  · intro le
    rw [Date.le_iff] at le
    refine ⟨kind.lastDay, kind.lastDay_isGreatest.1, ?_⟩
    dsimp only
    omega

theorem left_backward_iff :
    (⟨kind, start, -1, .inr rfl⟩ : Search).Left ↔ kind.firstDay ≤ start := by
  constructor
  · rintro ⟨x, covers, ahead⟩
    have le := kind.firstDay_isLeast.2 covers
    rw [Date.le_iff] at le ⊢
    dsimp only at ahead
    omega
  · intro le
    rw [Date.le_iff] at le
    refine ⟨kind.firstDay, kind.firstDay_isLeast.1, ?_⟩
    dsimp only
    omega

end Search

/-! ## Months of the calendar -/

namespace Date

theorem monthIndex_civil (d : Date) :
    -262143 * 12 ≤ d.civil.monthIndex ∧ d.civil.monthIndex + 1 ≤ 262143 * 12 := by
  have valid := Civil.isValid_iff.mp (isValid_civil d)
  have year := year_civil d
  unfold Civil.monthIndex
  omega

theorem startOf_month_le (d : Date) : (d.startOf .month).day + 28 ≤ 95026236 + 1 := by
  have long := monthOpens_add_le d.civil.monthIndex
  have last := Civil.monthOpens_le (monthIndex_civil d).2
  rw [monthOpens_last] at last
  rw [day_startOf_month]
  omega

theorem le_plusMonths (d : Date) : d.day ≤ (d.plusMonths 1).day := by
  unfold plusMonths
  cases moved : d.addMonths? 1 with
  | none => exact le_refl _
  | some e => exact le_of_lt (day_lt_of_addMonths? moved Int.one_pos)

-- The last month of the calendar has no next one, so the end of the month before stands for its
-- end.
theorem le_endOfMonth (d : Date) : -96465292 + 27 ≤ d.endOfMonth.day := by
  have start := day_startOf_month d
  have next : -96465292 + 28 ≤ ((d.startOf .month).plusMonths 1).day := by
    rcases Int.lt_or_eq_of_le (monthIndex_civil d).1 with later | first
    · have long := monthOpens_add_le (-262143 * 12)
      have opens := Civil.monthOpens_le (Int.add_one_le_of_lt later)
      have moved := le_plusMonths (d.startOf .month)
      rw [monthOpens_first] at long
      omega
    · have has : HasMonth (d.civil.monthIndex + 1) := by
        rw [hasMonth_iff, ← first]
        decide
      have long := monthOpens_add_le d.civil.monthIndex
      have first_le := (d.startOf .month).first_le
      rw [day_plusMonths start has]
      omega
  rw [endOfMonth, day_plusDays_unit (.inr rfl)]
  omega

end Date

/-! ## Keywords -/

namespace CalendarKeyword

def search? (today : Date) : CalendarKeyword → Option Search
  | .firstOf kind => some ⟨kind, today.startOf .month, 1, .inl rfl⟩
  | .lastOf kind => some ⟨kind, today.endOfMonth, -1, .inr rfl⟩
  | .previousOf kind => some ⟨kind, today.plusDays (-1), -1, .inr rfl⟩
  | .nextOf kind => some ⟨kind, today.plusDays 1, 1, .inl rfl⟩
  | _ => none

def Stranded : CalendarKeyword → Date → Prop
  | .nextOf .vacation, today => DayClass.vacation.lastDay ≤ today
  | .previousOf .vacation, today => today ≤ DayClass.vacation.firstDay
  | _, _ => False

variable {keyword : CalendarKeyword} {today : Date} {w : WallClock} {s : Search}

theorem resolve_of_search? (searches : keyword.search? w.date = some s) :
    keyword.resolve w = .midnight s.result := by
  cases keyword with
  | firstOf | lastOf | previousOf | nextOf =>
      cases searches
      rfl
  | now | start | firstDay | lastDay | weekday => cases searches

-- The first and the last day of the calendar are working days, so for these any start will do.
theorem left_iff (searches : keyword.search? today = some s) :
    s.Left ↔ ¬ keyword.Stranded today := by
  have within := And.intro today.first_le today.le_last
  cases keyword with
  | now | start | firstDay | lastDay | weekday => cases searches
  | firstOf kind =>
      have early := today.startOf_month_le
      have late := kind.le_lastDay
      cases searches
      refine iff_of_true (Search.left_forward_iff.mpr ?_) not_false
      rw [Date.le_iff]
      omega
  | lastOf kind =>
      have late := today.le_endOfMonth
      have early := kind.firstDay_le
      cases searches
      refine iff_of_true (Search.left_backward_iff.mpr ?_) not_false
      rw [Date.le_iff]
      omega
  | previousOf kind =>
      cases searches
      cases kind with
      | working => exact iff_of_true (Search.left_backward_iff.mpr (Date.first_le _)) not_false
      | vacation =>
          have saturday : DayClass.vacation.firstDay.day = -96465290 := rfl
          rw [Search.left_backward_iff, Date.le_iff, Date.day_plusDays_unit (.inr rfl), Stranded,
            Date.le_iff]
          omega
  | nextOf kind =>
      cases searches
      cases kind with
      | working => exact iff_of_true (Search.left_forward_iff.mpr (Date.le_last _)) not_false
      | vacation =>
          have sunday : DayClass.vacation.lastDay.day = 95026235 := rfl
          rw [Search.left_forward_iff, Date.le_iff, Date.day_plusDays_unit (.inl rfl), Stranded,
            Date.le_iff]
          omega

/-- The keyword for a first, last, previous or next working or vacation day names what its search
finds. The search ends within six steps, at a day of the class that is asked for. Only the search
for the next vacation day from the last one of the calendar on, and that for the previous one up to
the first one, never end. -/
theorem search_ends (keyword : CalendarKeyword) (w : WallClock) (s : Search)
    (searches : keyword.search? w.date = some s) :
    keyword.resolve w = .midnight s.result ∧
      (¬ keyword.Stranded w.date → ∃ n ≤ 6, s.EndsAt n s.result ∧ s.kind.Covers s.result) ∧
      (keyword.Stranded w.date → ∀ n day, ¬ s.EndsAt n day) := by
  refine ⟨resolve_of_search? searches, ?_, ?_⟩
  · intro within
    obtain ⟨n, le, ends⟩ := ((left_iff searches).mpr within).ends
    exact ⟨n, le, ends, ends.covers⟩
  · intro stranded n day ends
    exact (left_iff searches).mp ends.left stranded

/-- On the last day of the calendar a last vacation day of the month is found, although there is no
next month. On the first Saturday no vacation day before it is. -/
theorem search_ends_outer_days :
    let last : WallClock := .midnight DayClass.working.lastDay
    let saturday : WallClock := .midnight DayClass.vacation.firstDay
    let back : Search := ⟨.vacation, last.date.endOfMonth, -1, .inr rfl⟩
    ((lastOf .vacation).resolve last = .midnight back.result ∧
      ∃ n ≤ 6, back.EndsAt n back.result ∧ DayClass.vacation.Covers back.result) ∧
    ∀ n day, ¬ Search.EndsAt ⟨.vacation, saturday.date.plusDays (-1), -1, .inr rfl⟩ n day := by
  intro last saturday back
  have stranded : (previousOf .vacation).Stranded saturday.date :=
    le_of_eq (WallClock.date_ofDate _ _)
  obtain ⟨named, found, -⟩ := search_ends (lastOf .vacation) last back rfl
  exact ⟨⟨named, found not_false⟩, (search_ends (previousOf .vacation) saturday _ rfl).2.2 stranded⟩

/-- The last day of the calendar is a Monday, with no vacation day after it. -/
theorem next_vacation_unending :
    let last : Date := DayClass.working.lastDay
    last.civil = ⟨262142, 12, 31⟩ ∧
      ∃ s, (nextOf .vacation).search? (WallClock.midnight last).date = some s ∧
        ¬ ∃ n day, s.EndsAt n day := by
  intro last
  have stranded : (nextOf .vacation).Stranded (WallClock.midnight last).date := by
    rw [WallClock.midnight, WallClock.date_ofDate, Stranded, Date.le_iff]
    decide
  refine ⟨by decide, _, rfl, ?_⟩
  rintro ⟨n, day, ends⟩
  exact (@left_iff (nextOf .vacation) _ _ rfl).mp ends.left stranded

end CalendarKeyword
end ChartLint
