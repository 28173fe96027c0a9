import ChartLint.Proofs.Decimal.Whole
import ChartLint.Proofs.Time.Progress

/-!
# Months later

The months of the calendar follow one another without a gap, so a count of months leads from one
month to another one, and a date to the same day of that month or to its last day. The calendar ends
with whole years: a shift fails exactly if the month is not there (`WallClock.shift_months`).
-/

namespace ChartLint

namespace Civil

variable {c : Civil}

theorem le_monthLength (year : Int) (month : Nat) : 28 ≤ monthLength year month := by
  unfold monthLength
  split
  · split <;> decide
  all_goals decide

/-- A day of a month, or the last one of the month; the months are counted from January of year
0. -/
def inMonth (index : Int) (day : Nat) : Civil :=
  let year := index / 12
  let month := (index % 12).toNat + 1
  ⟨year, month, min day (monthLength year month)⟩

theorem monthIndex_inMonth (index : Int) (day : Nat) : (inMonth index day).monthIndex = index := by
  simp only [inMonth, monthIndex]
  omega

theorem isValid_inMonth (index : Int) {day : Nat} (pos : 1 ≤ day) :
    (inMonth index day).isValid = true := by
  rw [isValid_iff]
  have := monthLength_pos (index / 12) ((index % 12).toNat + 1)
  simp only [inMonth]
  omega

theorem eq_inMonth_iff (valid : c.isValid = true) {index : Int} {day : Nat} :
    c = inMonth index day ↔
      c.monthIndex = index ∧ c.day = min day (monthLength c.year c.month) := by
  constructor
  · rintro rfl
    exact ⟨monthIndex_inMonth index day, rfl⟩
  · rintro ⟨rfl, last⟩
    rw [inMonth, div_monthIndex valid, mod_monthIndex valid, ← last]

theorem inMonth_monthIndex (valid : c.isValid = true) : inMonth c.monthIndex c.day = c := by
  have le := (isValid_iff.mp valid).2.2
  exact ((eq_inMonth_iff valid).mpr ⟨rfl, (Nat.min_eq_left le).symm⟩).symm

end Civil

/-! ## Dates in a row -/

namespace Date

variable {d d' : Date}

theorem eq_of_day (same : d.day = d'.day) : d = d' := by
  cases d
  cases d'
  cases same
  rfl

instance : LinearOrder Date :=
  LinearOrder.lift' Date.day fun _ _ => eq_of_day

theorem le_iff : d ≤ d' ↔ d.day ≤ d'.day := Iff.rfl

theorem lt_iff : d < d' ↔ d.day < d'.day := Iff.rfl

theorem isValid_civil (d : Date) : d.civil.isValid = true :=
  Civil.isValid_ofDayNumber d.day

theorem lt_of_monthIndex_lt (lt : d.civil.monthIndex < d'.civil.monthIndex) : d < d' := by
  rw [lt_iff, ← dayNumber_civil d, ← dayNumber_civil d']
  exact Civil.dayNumber_lt (isValid_civil d) (isValid_civil d') lt

theorem monthIndex_le (le : d ≤ d') : d.civil.monthIndex ≤ d'.civil.monthIndex := by
  by_contra lt
  exact absurd le (not_le.mpr (lt_of_monthIndex_lt (not_le.mp lt)))

theorem le_iff_of_monthIndex_eq (same : d.civil.monthIndex = d'.civil.monthIndex) :
    d ≤ d' ↔ d.civil.day ≤ d'.civil.day := by
  rw [le_iff, ← dayNumber_civil d, ← dayNumber_civil d', Civil.dayNumber_eq (isValid_civil d),
    Civil.dayNumber_eq (isValid_civil d'), same]
  omega

theorem monthOpens_le_iff {index : Int} :
    Civil.monthOpens index ≤ d.day ↔ index ≤ d.civil.monthIndex := by
  have opens := Civil.monthOpens_le_dayNumber (isValid_civil d)
  have ends := Civil.dayNumber_lt_monthOpens (isValid_civil d)
  rw [dayNumber_civil] at opens ends
  constructor
  · intro opened
    by_contra later
    have := Civil.monthOpens_le (Int.add_one_le_of_lt (not_le.mp later))
    omega
  · intro le
    exact (Civil.monthOpens_le le).trans opens

theorem lt_monthOpens_iff {index : Int} :
    d.day < Civil.monthOpens index ↔ d.civil.monthIndex < index := by
  rw [← not_le, monthOpens_le_iff, not_le]

theorem monthIndex_eq_iff {index : Int} :
    d.civil.monthIndex = index ↔
      Civil.monthOpens index ≤ d.day ∧ d.day < Civil.monthOpens (index + 1) := by
  rw [monthOpens_le_iff, lt_monthOpens_iff]
  omega

def HasMonth (index : Int) : Prop :=
  ∃ d : Date, d.civil.monthIndex = index

theorem hasMonth_iff {index : Int} :
    HasMonth index ↔ -262143 ≤ index / 12 ∧ index / 12 ≤ 262142 := by
  constructor
  · rintro ⟨d, rfl⟩
    rw [Civil.div_monthIndex (isValid_civil d)]
    exact year_civil d
  · rintro ⟨first_le, le_last⟩
    obtain ⟨d, civil⟩ := exists_civil_eq (Civil.isValid_inMonth index (le_refl 1)) first_le le_last
    exact ⟨d, by rw [civil, Civil.monthIndex_inMonth]⟩

/-! ## Adding months -/

theorem addMonths?_eq (d : Date) (months : Int) :
    d.addMonths? months = ofCivil? (.inMonth (d.civil.monthIndex + months) d.civil.day) := rfl

theorem isValid_target (d : Date) (months : Int) :
    (Civil.inMonth (d.civil.monthIndex + months) d.civil.day).isValid = true :=
  Civil.isValid_inMonth _ (Civil.isValid_iff.mp (isValid_civil d)).2.1

theorem addMonths?_eq_some_iff {months : Int} :
    d.addMonths? months = some d' ↔
      d'.civil.monthIndex = d.civil.monthIndex + months ∧
        d'.civil.day = min d.civil.day (Civil.monthLength d'.civil.year d'.civil.month) := by
  rw [addMonths?_eq, ofCivil?_eq_some_iff, Civil.eq_inMonth_iff (isValid_civil d')]
  exact and_iff_right (isValid_target d months)

theorem exists_addMonths?_iff {months : Int} :
    (∃ d', d.addMonths? months = some d') ↔ HasMonth (d.civil.monthIndex + months) := by
  constructor
  · rintro ⟨d', moved⟩
    exact ⟨d', (addMonths?_eq_some_iff.mp moved).1⟩
  · intro has
    obtain ⟨first_le, le_last⟩ := hasMonth_iff.mp has
    obtain ⟨d', civil⟩ := exists_civil_eq (isValid_target d months) first_le le_last
    exact ⟨d', ofCivil?_eq_some_iff.mpr ⟨isValid_target d months, civil⟩⟩

theorem addMonths?_neg {months : Int} (early : d.civil.day ≤ 28)
    (moved : d.addMonths? months = some d') : d'.addMonths? (-months) = some d := by
  obtain ⟨index, day⟩ := addMonths?_eq_some_iff.mp moved
  rw [Nat.min_eq_left (early.trans (Civil.le_monthLength _ _))] at day
  rw [addMonths?_eq, index, day, Int.add_neg_cancel_right,
    Civil.inMonth_monthIndex (isValid_civil d), ofCivil?_eq_some_iff]
  exact ⟨isValid_civil d, rfl⟩

theorem addMonths?_mono {e e' : Date} {months : Int} (le : d ≤ d')
    (moved : d.addMonths? months = some e) (moved' : d'.addMonths? months = some e') : e ≤ e' := by
  obtain ⟨index, day⟩ := addMonths?_eq_some_iff.mp moved
  obtain ⟨index', day'⟩ := addMonths?_eq_some_iff.mp moved'
  rcases Int.lt_or_eq_of_le (monthIndex_le le) with lt | same
  · apply le_of_lt
    apply lt_of_monthIndex_lt
    omega
  · -- Both dates come into one month, of one length.
    have together : e.civil.monthIndex = e'.civil.monthIndex := by omega
    have year : e.civil.year = e'.civil.year := by
      rw [← Civil.div_monthIndex (isValid_civil e), ← Civil.div_monthIndex (isValid_civil e'),
        together]
    have month : e.civil.month = e'.civil.month := by
      rw [← Civil.mod_monthIndex (isValid_civil e), ← Civil.mod_monthIndex (isValid_civil e'),
        together]
    rw [le_iff_of_monthIndex_eq same] at le
    rw [le_iff_of_monthIndex_eq together, day, day', year, month]
    exact min_le_min_right _ le

end Date

/-! ## Shifting a clock -/

namespace WallClock

variable {w w' : WallClock} {months : Int}

@[simp] theorem date_ofDate (date : Date) (time : TimeOfDay) : (ofDate date time).date = date := by
  apply Date.eq_of_day
  have := time.lt_day
  simp only [WallClock.date, ofDate, nanosPerDay]
  omega

@[simp] theorem time_ofDate (date : Date) (time : TimeOfDay) : (ofDate date time).time = time := by
  obtain ⟨nanos, lt⟩ := time
  simp only [WallClock.time, ofDate, nanosPerDay, TimeOfDay.mk.injEq]
  omega

theorem ofDate_date_time (w : WallClock) : ofDate w.date w.time = w := by
  apply eq_of_nanos
  simp only [WallClock.date, WallClock.time, ofDate, nanosPerDay]
  omega

theorem addMonths?_eq_some_iff :
    w.addMonths? months = some w' ↔ w.date.addMonths? months = some w'.date ∧ w'.time = w.time := by
  rw [addMonths?, Option.map_eq_some_iff]
  constructor
  · rintro ⟨date, moved, rfl⟩
    simp [moved]
  · rintro ⟨moved, time⟩
    exact ⟨w'.date, moved, by rw [← time, ofDate_date_time]⟩

theorem shiftMonths_eq_ok_iff :
    w.shiftMonths months = .ok w' ↔
      w.date.addMonths? months = some w'.date ∧ w'.time = w.time := by
  rw [shiftMonths, orOutOfRange_eq_ok_iff, addMonths?_eq_some_iff]

theorem shiftMonths_eq_error_iff :
    w.shiftMonths months = .error .outOfRange ↔
      ¬ Date.HasMonth (w.date.civil.monthIndex + months) := by
  rw [← Date.exists_addMonths?_iff, shiftMonths, addMonths?]
  cases moved : w.date.addMonths? months <;> simp [orOutOfRange]

theorem shift_eq_shiftMonths {unit : TimeUnit} {per n : Int} {count : Float}
    (listed : (unit, per) ∈ [(TimeUnit.month, 1), (.quarter, 3), (.year, 12)])
    (whole : (Binary.ofFloat count).value? = some (n : ℚ)) (w : WallClock) :
    w.shift unit count = w.shiftMonths (n * per) := by
  have length : unit.length = .months per.toNat ∧ 0 ≤ per := by
    simp only [List.mem_cons, Prod.mk.injEq, List.not_mem_nil, or_false] at listed
    rcases listed with ⟨rfl, rfl⟩ | ⟨rfl, rfl⟩ | ⟨rfl, rfl⟩ <;> exact ⟨rfl, by decide⟩
  rw [shift, length.1, Binary.whole?_eq_some_iff.mpr whole]
  simp only [Int.toNat_of_nonneg length.2]

/-- A whole count of months, quarters or years moves a clock into the month that is so many months
later, if the calendar has it: to the same day, or to the last one if the month is too short, at the
same time of day. So a quarter is three months and a year twelve, the negated count leads back from
a day that all months have, and dates stay in order. -/
theorem shift_months {unit : TimeUnit} {per n : Int} {count : Float}
    (listed : (unit, per) ∈ [(TimeUnit.month, 1), (.quarter, 3), (.year, 12)])
    (whole : (Binary.ofFloat count).value? = some (n : ℚ)) (w : WallClock) :
    (w.shift unit count = .error .outOfRange ↔
      ¬ Date.HasMonth (w.date.civil.monthIndex + n * per)) ∧
    (Date.HasMonth (w.date.civil.monthIndex + n * per) → ∃ w', w.shift unit count = .ok w' ∧
      w'.date.civil.monthIndex = w.date.civil.monthIndex + n * per ∧
      w'.date.civil.day =
        min w.date.civil.day (Civil.monthLength w'.date.civil.year w'.date.civil.month) ∧
      w'.time = w.time) ∧
    (∀ months, (Binary.ofFloat months).value? = some ((n * per : Int) : ℚ) →
      w.shift .month months = w.shift unit count) ∧
    (w.date.civil.day ≤ 28 → ∀ w', w.shift unit count = .ok w' →
      w'.shift unit (-count) = .ok w) ∧
    ∀ u w' u' : WallClock, w.date ≤ u.date → w.shift unit count = .ok w' →
      u.shift unit count = .ok u' → w'.date ≤ u'.date := by
  have shifted := shift_eq_shiftMonths listed whole
  refine ⟨?_, ?_, ?_, ?_, ?_⟩
  · rw [shifted, shiftMonths_eq_error_iff]
  · intro has
    obtain ⟨date, moved⟩ := Date.exists_addMonths?_iff.mpr has
    refine ⟨ofDate date w.time, ?_⟩
    rw [shifted, shiftMonths_eq_ok_iff, date_ofDate, time_ofDate]
    obtain ⟨index, day⟩ := Date.addMonths?_eq_some_iff.mp moved
    exact ⟨⟨moved, rfl⟩, index, day, rfl⟩
  · intro months value
    rw [shifted, shift_eq_shiftMonths (by simp : (TimeUnit.month, (1 : Int)) ∈ _) value,
      Int.mul_one]
  · intro early w' done
    rw [shifted, shiftMonths_eq_ok_iff] at done
    have back : (Binary.ofFloat (-count)).value? = some ((-n : Int) : ℚ) := by
      rw [Int.cast_neg]
      exact Binary.value?_neg whole
    rw [shift_eq_shiftMonths listed back, shiftMonths_eq_ok_iff, Int.neg_mul]
    exact ⟨Date.addMonths?_neg early done.1, done.2.symm⟩
  · intro u w' u' le done done'
    rw [shifted, shiftMonths_eq_ok_iff] at done done'
    exact Date.addMonths?_mono le done.1 done'.1

def leapNoon : WallClock :=
  ⟨1582977600000000000, by decide, by decide⟩

/-- A year after a leap day is the last day of February, at the same time. -/
theorem shift_months_leap_year :
    (Binary.ofFloat 1).value? = some ((1 : Int) : ℚ) ∧ leapNoon.date.civil = ⟨2020, 2, 29⟩ ∧
      ∃ w', leapNoon.shift .year 1 = .ok w' ∧ w'.date.civil = ⟨2021, 2, 28⟩ ∧
        w'.time = leapNoon.time := by
  have whole : (Binary.ofFloat 1).value? = some ((1 : Int) : ℚ) :=
    Binary.whole?_eq_some_iff.mp (by decide)
  have civil : leapNoon.date.civil = ⟨2020, 2, 29⟩ := by decide
  obtain ⟨-, there, -⟩ := shift_months (by simp : (TimeUnit.year, (12 : Int)) ∈ _) whole leapNoon
  rw [civil] at there
  obtain ⟨w', done, index, day, time⟩ := there (Date.hasMonth_iff.mpr (by decide))
  refine ⟨whole, civil, w', done, ?_, time⟩
  rw [(Civil.eq_inMonth_iff (Date.isValid_civil w'.date)).mpr ⟨index, day⟩]
  decide

end WallClock
end ChartLint
