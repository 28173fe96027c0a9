import ChartLint.Time.WallClock

/-!
# The calendar

The days of the calendar and the dates with year, month and day of the month are the same thing in
two notations: `Civil.dayNumber_ofDayNumber` and `Civil.ofDayNumber_dayNumber`. Both rest on the
days on which the months open (`Civil.monthOpens`): a month opens as many days after the one before
it as that one is long, and a valid date lies between the openings of its month and the next.
-/

namespace ChartLint
namespace Civil

variable {c c' : Civil} {month : Nat}

theorem isLeap_iff (year : Int) :
    isLeap year = true ↔ year % 4 = 0 ∧ (year % 100 ≠ 0 ∨ year % 400 = 0) := by
  simp [isLeap]

theorem monthLength_pos (year : Int) (month : Nat) : 0 < monthLength year month := by
  unfold monthLength
  split
  · split <;> decide
  all_goals decide

theorem monthStart_succ (year : Int) (one_le : 1 ≤ month) (lt : month < 12) :
    monthStart year (month + 1) = monthStart year month + monthLength year month := by
  match month, one_le, lt with
  | 1, _, _ | 2, _, _ | 3, _, _ | 4, _, _ | 5, _, _ | 6, _, _ | 7, _, _ | 8, _, _ | 9, _, _
  | 10, _, _ | 11, _, _ =>
    cases leap : isLeap year <;> simp [monthStart, monthLength, daysBeforeMonth, leap]

theorem yearStart_succ (year : Int) :
    yearStart (year + 1) = yearStart year + (monthStart year 12 + 31) := by
  cases leap : isLeap year with
  | true =>
      have last : monthStart year 12 = 335 := by simp [monthStart, daysBeforeMonth, leap]
      rw [isLeap_iff] at leap
      simp only [yearStart, last]
      omega
  | false =>
      have last : monthStart year 12 = 334 := by simp [monthStart, daysBeforeMonth, leap]
      rw [← Bool.not_eq_true, isLeap_iff] at leap
      simp only [yearStart, last]
      omega

/-! ## Months in a row -/

/-- The day on which a month opens, the months being counted from January of year 0. -/
def monthOpens (index : Int) : Int :=
  yearStart (index / 12) + monthStart (index / 12) ((index % 12).toNat + 1)

theorem monthOpens_succ (index : Int) :
    monthOpens (index + 1) =
      monthOpens index + monthLength (index / 12) ((index % 12).toNat + 1) := by
  by_cases last : index % 12 = 11
  · have year : (index + 1) / 12 = index / 12 + 1 := by omega
    have month : (index + 1) % 12 = 0 := by omega
    simp only [monthOpens, year, month, last, yearStart_succ]
    simp [monthStart, daysBeforeMonth, monthLength]
    omega
  · have year : (index + 1) / 12 = index / 12 := by omega
    have month : ((index + 1) % 12).toNat = (index % 12).toNat + 1 := by omega
    have next := @monthStart_succ ((index % 12).toNat + 1) (index / 12) (by omega) (by omega)
    simp only [monthOpens, year, month, next]
    omega

theorem monthOpens_lt {index later : Int} (lt : index < later) :
    monthOpens index < monthOpens later := by
  obtain ⟨n, rfl⟩ := Int.le.dest (Int.add_one_le_of_lt lt)
  clear lt
  induction n with
  | zero =>
      have := monthLength_pos (index / 12) ((index % 12).toNat + 1)
      rw [Int.natCast_zero, Int.add_zero, monthOpens_succ]
      omega
  | succ n ih =>
      have := monthLength_pos ((index + 1 + n) / 12) (((index + 1 + n) % 12).toNat + 1)
      rw [Int.natCast_succ, ← Int.add_assoc, monthOpens_succ]
      omega

theorem monthOpens_le {index later : Int} (le : index ≤ later) :
    monthOpens index ≤ monthOpens later := by
  rcases Int.lt_or_eq_of_le le with lt | rfl
  · exact Int.le_of_lt (monthOpens_lt lt)
  · exact Int.le_refl _

/-! ## Days and dates -/

def monthIndex (c : Civil) : Int :=
  c.year * 12 + (c.month - 1)

theorem isValid_iff : c.isValid = true ↔
    (1 ≤ c.month ∧ c.month ≤ 12) ∧ 1 ≤ c.day ∧ c.day ≤ monthLength c.year c.month := by
  simp [isValid, and_assoc]

theorem div_monthIndex (valid : c.isValid = true) : c.monthIndex / 12 = c.year := by
  rw [isValid_iff] at valid
  unfold monthIndex
  omega

theorem mod_monthIndex (valid : c.isValid = true) : (c.monthIndex % 12).toNat + 1 = c.month := by
  rw [isValid_iff] at valid
  unfold monthIndex
  omega

theorem dayNumber_eq (valid : c.isValid = true) :
    c.dayNumber = monthOpens c.monthIndex + ((c.day : Int) - 1) := by
  simp only [dayNumber, monthOpens, div_monthIndex valid, mod_monthIndex valid]

theorem monthOpens_le_dayNumber (valid : c.isValid = true) :
    monthOpens c.monthIndex ≤ c.dayNumber := by
  have := (isValid_iff.mp valid).2
  rw [dayNumber_eq valid]
  omega

theorem dayNumber_lt_monthOpens (valid : c.isValid = true) :
    c.dayNumber < monthOpens (c.monthIndex + 1) := by
  have := (isValid_iff.mp valid).2
  rw [dayNumber_eq valid, monthOpens_succ, div_monthIndex valid, mod_monthIndex valid]
  omega

theorem dayNumber_lt (valid : c.isValid = true) (valid' : c'.isValid = true)
    (lt : c.monthIndex < c'.monthIndex) : c.dayNumber < c'.dayNumber := by
  have ends := dayNumber_lt_monthOpens valid
  have opens := monthOpens_le_dayNumber valid'
  rcases Int.lt_or_eq_of_le (Int.add_one_le_of_lt lt) with later | next
  · have := monthOpens_lt later
    omega
  · rw [next] at ends
    omega

theorem eq_of_dayNumber_eq (valid : c.isValid = true) (valid' : c'.isValid = true)
    (same : c.dayNumber = c'.dayNumber) : c = c' := by
  have index : c.monthIndex = c'.monthIndex := by
    rcases Int.lt_trichotomy c.monthIndex c'.monthIndex with lt | eq | gt
    · have := dayNumber_lt valid valid' lt
      omega
    · exact eq
    · have := dayNumber_lt valid' valid gt
      omega
  have year : c.year = c'.year := by
    rw [← div_monthIndex valid, ← div_monthIndex valid', index]
  have month : c.month = c'.month := by
    rw [← mod_monthIndex valid, ← mod_monthIndex valid', index]
  have day : c.day = c'.day := by
    have := (isValid_iff.mp valid).2
    have := (isValid_iff.mp valid').2
    rw [dayNumber_eq valid, dayNumber_eq valid', index] at same
    omega
  cases c
  cases c'
  cases year
  cases month
  cases day
  rfl

theorem yearOf_spec (day : Int) :
    yearStart (yearOf day) ≤ day ∧ day < yearStart (yearOf day + 1) := by
  unfold yearOf
  dsimp only
  split
  · constructor
    · simp only [yearStart] at *
      omega
    · rename_i early
      rw [Int.sub_add_cancel]
      exact early
  · split
    · constructor
      · assumption
      · simp only [yearStart] at *
        omega
    · omega

theorem monthOf_spec (year : Int) (dayOfYear n : Nat) :
    monthStart year (monthOf year dayOfYear n) ≤ dayOfYear ∧ 1 ≤ monthOf year dayOfYear n ∧
      monthOf year dayOfYear n ≤ max 1 n ∧
        ∀ later, monthOf year dayOfYear n < later → later ≤ n →
          dayOfYear < monthStart year later := by
  induction n with
  | zero =>
      refine ⟨?_, by simp [monthOf], by simp [monthOf], ?_⟩
      · simp [monthOf, monthStart, daysBeforeMonth]
      · intro later lt le
        omega
  | succ n ih =>
      unfold monthOf
      split
      · rename_i started
        refine ⟨started, by omega, by omega, ?_⟩
        intro later lt le
        omega
      · rename_i early
        obtain ⟨started, one_le, le, after⟩ := ih
        refine ⟨started, one_le, by omega, ?_⟩
        intro later lt le
        by_cases last : later = n + 1
        · subst last
          omega
        · exact after later lt (by omega)

/-! ## There and back -/

theorem isValid_ofDayNumber (day : Int) : (ofDayNumber day).isValid = true := by
  obtain ⟨first, last⟩ := yearOf_spec day
  rw [yearStart_succ] at last
  unfold ofDayNumber
  dsimp only
  generalize within : (day - yearStart (yearOf day)).toNat = dayOfYear
  obtain ⟨started, one_le, le, after⟩ := monthOf_spec (yearOf day) dayOfYear 12
  rw [isValid_iff]
  dsimp only
  generalize monthOf (yearOf day) dayOfYear 12 = month at started one_le le after
  refine ⟨⟨one_le, by omega⟩, by omega, ?_⟩
  by_cases december : month = 12
  · subst december
    simp only [monthLength]
    omega
  · have next := after (month + 1) (by omega) (by omega)
    rw [monthStart_succ _ one_le (by omega)] at next
    omega

theorem dayNumber_ofDayNumber (day : Int) : (ofDayNumber day).dayNumber = day := by
  have first := (yearOf_spec day).1
  unfold ofDayNumber dayNumber
  dsimp only
  have started := (monthOf_spec (yearOf day) (day - yearStart (yearOf day)).toNat 12).1
  omega

theorem ofDayNumber_dayNumber (valid : c.isValid = true) : ofDayNumber c.dayNumber = c :=
  eq_of_dayNumber_eq (isValid_ofDayNumber _) valid (dayNumber_ofDayNumber _)

end Civil

namespace Date

theorem ofCivil?_eq_some_iff {c : Civil} {d : Date} :
    ofCivil? c = some d ↔ c.isValid = true ∧ d.civil = c := by
  obtain ⟨day, first_le, le_last⟩ := d
  unfold ofCivil? ofDay? civil
  constructor
  · intro found
    split at found
    · rename_i valid
      split at found
      · cases found
        exact ⟨valid, Civil.ofDayNumber_dayNumber valid⟩
      · cases found
    · cases found
  · rintro ⟨valid, rfl⟩
    simp only [valid, if_true, Civil.dayNumber_ofDayNumber]
    rw [dif_pos ⟨first_le, le_last⟩]

theorem dayNumber_civil (d : Date) : d.civil.dayNumber = d.day :=
  Civil.dayNumber_ofDayNumber d.day

/-! The calendar is made of whole years. -/

theorem monthOpens_first : Civil.monthOpens (-262143 * 12) = -96465292 := by decide

theorem monthOpens_last : Civil.monthOpens (262143 * 12) = 95026236 + 1 := by decide

theorem year_civil (d : Date) : -262143 ≤ d.civil.year ∧ d.civil.year ≤ 262142 := by
  have valid : d.civil.isValid = true := Civil.isValid_ofDayNumber d.day
  have opens := Civil.monthOpens_le_dayNumber valid
  have ends := Civil.dayNumber_lt_monthOpens valid
  have year := Civil.div_monthIndex valid
  have first := d.first_le
  have last := d.le_last
  rw [dayNumber_civil] at opens ends
  rw [← monthOpens_first] at first
  rw [Int.le_iff_lt_add_one, ← monthOpens_last] at last
  constructor
  · apply Int.not_lt.mp
    intro early
    have := Civil.monthOpens_le (show d.civil.monthIndex + 1 ≤ -262143 * 12 by omega)
    omega
  · apply Int.not_lt.mp
    intro late
    have := Civil.monthOpens_le (show 262143 * 12 ≤ d.civil.monthIndex by omega)
    omega

theorem exists_civil_eq {c : Civil} (valid : c.isValid = true) (first_le : -262143 ≤ c.year)
    (le_last : c.year ≤ 262142) : ∃ d : Date, d.civil = c := by
  have index : -262143 * 12 ≤ c.monthIndex ∧ c.monthIndex + 1 ≤ 262143 * 12 := by
    have := Civil.isValid_iff.mp valid
    unfold Civil.monthIndex
    omega
  have first : Civil.monthOpens (-262143 * 12) ≤ c.dayNumber :=
    Int.le_trans (Civil.monthOpens_le index.1) (Civil.monthOpens_le_dayNumber valid)
  have last : c.dayNumber < Civil.monthOpens (262143 * 12) :=
    Int.lt_of_lt_of_le (Civil.dayNumber_lt_monthOpens valid) (Civil.monthOpens_le index.2)
  rw [monthOpens_first] at first
  rw [monthOpens_last] at last
  exact ⟨⟨c.dayNumber, first, Int.le_of_lt_add_one last⟩, Civil.ofDayNumber_dayNumber valid⟩

theorem addMonths?_eq_some {d d' : Date} {months : Int} (moved : d.addMonths? months = some d') :
    d'.civil.isValid = true ∧ d'.civil.monthIndex = d.civil.monthIndex + months := by
  obtain ⟨valid, civil⟩ := ofCivil?_eq_some_iff.mp moved
  rw [civil]
  refine ⟨valid, ?_⟩
  simp only [Civil.monthIndex]
  omega

theorem day_lt_of_addMonths? {d d' : Date} {months : Int} (moved : d.addMonths? months = some d')
    (pos : 0 < months) : d.day < d'.day := by
  obtain ⟨valid, index⟩ := addMonths?_eq_some moved
  rw [← dayNumber_civil d, ← dayNumber_civil d']
  apply Civil.dayNumber_lt (Civil.isValid_ofDayNumber d.day) valid
  change d.civil.monthIndex < _
  omega

end Date

namespace WallClock

theorem nanos_lt_of_addMonths? {w w' : WallClock} {months : Int}
    (moved : w.addMonths? months = some w') (pos : 0 < months) : w.nanos < w'.nanos := by
  obtain ⟨date, found, rfl⟩ := Option.map_eq_some_iff.mp moved
  have later := Date.day_lt_of_addMonths? found pos
  simp only [WallClock.date, ofDate, time, nanosPerDay] at *
  omega

end WallClock
end ChartLint
