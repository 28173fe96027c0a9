import ChartLint.Proofs.Time.Written
import ChartLint.Time.Token

/-!
# Reading literals

A literal is written as one or two tokens. Reading these tokens succeeds exactly if what is written
exists, and then gives what is written.
-/

namespace ChartLint

open Written

/-- A literal in one of its shapes: `yyyy`, a date, a date with `t` and a time, a date followed by a
time, or a time alone. -/
inductive WrittenLiteral where
  | year (year : Fin 10000)
  | date (date : WrittenDate)
  | stamp (year : Fin 10000) (month day : Fin 100) (clock : WrittenClock)
  | dateTime (date : WrittenDate) (clock : WrittenClock)
  | time (clock : WrittenClock)

namespace WrittenLiteral

def tokens : WrittenLiteral → List TimeToken
  | year y => [⟨.number, String.ofList (Written.year y)⟩]
  | date d => [⟨.date, String.ofList d.chars⟩]
  | stamp y month day c =>
    [⟨.date, String.ofList (WrittenDate.chars ⟨y, month, day⟩ ++ 't' :: c.chars)⟩]
  | dateTime d c => [⟨.date, String.ofList d.chars⟩, ⟨.time, String.ofList c.chars⟩]
  | time c => [⟨.time, String.ofList c.chars⟩]

def civil : WrittenLiteral → Option Civil
  | year y => some ⟨y, 1, 1⟩
  | date d => some d.civil
  | stamp y month day _ => some (WrittenDate.civil ⟨y, month, day⟩)
  | dateTime d _ => some d.civil
  | time _ => none

def clock : WrittenLiteral → Option WrittenClock
  | year _ | date _ => none
  | stamp _ _ _ c | dateTime _ c | time c => some c

/-- The date exists, the hour is at most 23, minute and second are at most 59, and the offset is at
most 23:59. -/
def Valid (w : WrittenLiteral) : Prop :=
  (∀ c ∈ w.civil, c.isValid = true) ∧ ∀ c ∈ w.clock, c.Valid

instance : DecidablePred Valid := fun w =>
  inferInstanceAs (Decidable ((∀ c ∈ w.civil, c.isValid = true) ∧ ∀ c ∈ w.clock, c.Valid))

@[simp] theorem valid_year (y : Fin 10000) : (year y).Valid := by
  simp [Valid, civil, clock, Civil.isValid, Civil.monthLength]

@[simp] theorem valid_date (d : WrittenDate) : (date d).Valid ↔ d.civil.isValid = true := by
  simp [Valid, civil, clock]

@[simp] theorem valid_stamp (y : Fin 10000) (month day : Fin 100) (c : WrittenClock) :
    (stamp y month day c).Valid ↔
      (WrittenDate.civil ⟨y, month, day⟩).isValid = true ∧ c.Valid := by
  simp [Valid, civil, clock]

@[simp] theorem valid_dateTime (d : WrittenDate) (c : WrittenClock) :
    (dateTime d c).Valid ↔ d.civil.isValid = true ∧ c.Valid := by
  simp [Valid, civil, clock]

@[simp] theorem valid_time (c : WrittenClock) : (time c).Valid ↔ c.Valid := by
  simp [Valid, civil, clock]

end WrittenLiteral

namespace DateLiteral

/-- The literal holds a date and a time as they are written: midnight for no time, and no offset
where none is written. -/
structure Shows (date : Option Civil) (clock : Option WrittenClock) (l : DateLiteral) : Prop where
  date : l.date.map Date.civil = date
  time : l.time.nanos = clock.elim 0 WrittenClock.nanos
  offset : l.offset = clock.bind fun c => c.offset.map WrittenOffset.value

theorem readClock_chars (c : WrittenClock) (time : TimeOfDay) (offset : Option Int) :
    readClock c.chars = .ok (time, offset) ↔
      c.Valid ∧ time.nanos = c.nanos ∧ offset = c.offset.map WrittenOffset.value := by
  rw [← clock?_chars]
  unfold readClock
  cases clock? c.chars <;> simp

theorem map_readClock_eq_ok_iff {c : WrittenClock} {date : Option Date} {l : DateLiteral} :
    ((readClock c.chars).map fun (time, offset) => (⟨date, time, offset⟩ : DateLiteral)) = .ok l ↔
      c.Valid ∧ l.date = date ∧ l.time.nanos = c.nanos ∧
        l.offset = c.offset.map WrittenOffset.value := by
  constructor
  · intro read
    cases found : readClock c.chars with
    | error e =>
        rw [found] at read
        cases read
    | ok parts =>
        rw [found] at read
        cases read
        obtain ⟨valid, nanos, minutes⟩ := (readClock_chars c parts.1 parts.2).mp found
        exact ⟨valid, rfl, nanos, minutes⟩
  · rintro ⟨valid, rfl, nanos, minutes⟩
    rw [(readClock_chars c l.time l.offset).mpr ⟨valid, nanos, minutes⟩]
    rfl

theorem ofTime_chars (c : WrittenClock) (l : DateLiteral) :
    ofTime (String.ofList c.chars) = .ok l ↔ c.Valid ∧ l.Shows none (some c) := by
  unfold ofTime
  rw [String.toList_ofList, map_readClock_eq_ok_iff]
  constructor
  · rintro ⟨valid, date, time, offset⟩
    exact ⟨valid, by rw [date]; rfl, time, offset⟩
  · rintro ⟨valid, date, time, offset⟩
    exact ⟨valid, Option.map_eq_none_iff.mp date, time, offset⟩

theorem t_not_mem_chars (d : WrittenDate) : 't' ∉ d.chars := by
  have free (n : Fin 100) : 't' ∉ pair n := not_mem_digits rfl _
  unfold WrittenDate.chars
  cases d.day <;> simp [year, free, WrittenDate.dayChars]

theorem ofDate_chars (d : WrittenDate) (l : DateLiteral) :
    ofDate (String.ofList d.chars) none = .ok l ↔
      d.civil.isValid = true ∧ l.Shows (some d.civil) none := by
  unfold ofDate
  simp only [String.toList_ofList, Text.splitOnce?_free (t_not_mem_chars d)]
  constructor
  · intro read
    cases date : date? d.chars with
    | none => simp [date] at read
    | some found =>
        obtain ⟨valid, civil⟩ := (date?_chars d found).mp date
        simp only [date, Option.map_none, Option.or_none, Except.ok.injEq] at read
        subst read
        exact ⟨valid, by simp [civil], rfl, rfl⟩
  · rintro ⟨valid, date, time, offset⟩
    obtain ⟨found, isSome, civil⟩ := Option.map_eq_some_iff.mp date
    obtain ⟨date, ⟨nanos, small⟩, minutes⟩ := l
    cases isSome
    cases time
    cases offset
    rw [(date?_chars d found).mpr ⟨valid, civil⟩]
    rfl

theorem dated_eq_ok_iff {d : WrittenDate} {c : WrittenClock} {l : DateLiteral} {e : TimeError} :
    (match date? d.chars with
      | none => Except.error e
      | some date =>
        (readClock c.chars).map fun (time, offset) => (⟨date, time, offset⟩ : DateLiteral)) =
        .ok l ↔
      (d.civil.isValid = true ∧ c.Valid) ∧ l.Shows (some d.civil) (some c) := by
  constructor
  · intro read
    cases date : date? d.chars with
    | none => simp [date] at read
    | some found =>
        obtain ⟨valid, civil⟩ := (date?_chars d found).mp date
        simp only [date] at read
        obtain ⟨clock, same, time, offset⟩ := map_readClock_eq_ok_iff.mp read
        exact ⟨⟨valid, clock⟩, by rw [same, ← civil]; rfl, time, offset⟩
  · rintro ⟨⟨valid, clock⟩, date, time, offset⟩
    obtain ⟨found, isSome, civil⟩ := Option.map_eq_some_iff.mp date
    rw [(date?_chars d found).mpr ⟨valid, civil⟩]
    exact map_readClock_eq_ok_iff.mpr ⟨clock, isSome, time, offset⟩

theorem ofDate_time (d : WrittenDate) (c : WrittenClock) (l : DateLiteral) :
    ofDate (String.ofList d.chars) (some (String.ofList c.chars)) = .ok l ↔
      (d.civil.isValid = true ∧ c.Valid) ∧ l.Shows (some d.civil) (some c) := by
  unfold ofDate
  simp only [String.toList_ofList, Text.splitOnce?_free (t_not_mem_chars d), Option.map_some,
    Option.none_or]
  exact dated_eq_ok_iff

theorem splitOnce?_stamp (d : WrittenDate) (cs : List Char) :
    Text.splitOnce? 't' (d.chars ++ 't' :: cs) = some (d.chars, cs) :=
  Line.splitOnce?_eq_some_iff.mpr ⟨rfl, t_not_mem_chars d⟩

theorem ofDate_stamp (d : WrittenDate) (c : WrittenClock) (l : DateLiteral) :
    ofDate (String.ofList (d.chars ++ 't' :: c.chars)) none = .ok l ↔
      (d.civil.isValid = true ∧ c.Valid) ∧ l.Shows (some d.civil) (some c) := by
  unfold ofDate
  simp only [String.toList_ofList, splitOnce?_stamp]
  exact dated_eq_ok_iff

theorem ofDate_stamp_time (d : WrittenDate) (cs : List Char) (time : String) :
    ofDate (String.ofList (d.chars ++ 't' :: cs)) (some time) = .error (.unexpectedToken time) := by
  unfold ofDate
  simp only [String.toList_ofList, splitOnce?_stamp]

theorem ofYear_chars (y : Fin 10000) (l : DateLiteral) :
    ofYear (String.ofList (year y)) = .ok l ↔ l.Shows (some ⟨y, 1, 1⟩) none := by
  have digits : Iso.digits? 4 (year y) = some (y.val, []) := by
    have take : (year y).take 4 = year y := rfl
    simp [Iso.digits?, take, all_year, length_year]
  have valid : Civil.isValid ⟨y, 1, 1⟩ = true := by simp [Civil.isValid, Civil.monthLength]
  unfold ofYear
  simp only [String.toList_ofList, digits]
  constructor
  · intro read
    cases date : Date.ofCivil? ⟨y, 1, 1⟩ with
    | none => simp [date] at read
    | some found =>
        simp only [date, Option.elim_some, Except.ok.injEq] at read
        subst read
        exact ⟨congrArg some (Date.ofCivil?_eq_some_iff.mp date).2, rfl, rfl⟩
  · rintro ⟨date, time, offset⟩
    obtain ⟨found, isSome, civil⟩ := Option.map_eq_some_iff.mp date
    obtain ⟨date, ⟨nanos, small⟩, minutes⟩ := l
    cases isSome
    cases time
    cases offset
    rw [Date.ofCivil?_eq_some_iff.mpr ⟨valid, civil⟩]
    rfl

theorem exists_year_of_ofYear {cs : List Char} {l : DateLiteral}
    (read : ofYear (String.ofList cs) = .ok l) : ∃ y, cs = year y := by
  unfold ofYear at read
  rw [String.toList_ofList] at read
  split at read
  case h_1 n found =>
    unfold Iso.digits? at found
    dsimp only at found
    split at found
    case isTrue four =>
      obtain ⟨-, rest⟩ := Prod.mk.inj (Option.some.inj found)
      have whole : cs.take 4 = cs := by
        rw [← List.append_nil (cs.take 4), ← rest, List.take_append_drop]
      rw [whole] at four
      obtain ⟨length, all⟩ := four
      match cs, length with
      | [a, b, c, d], _ =>
          simp only [List.all_cons, List.all_nil, Bool.and_eq_true] at all
          obtain ⟨century, first⟩ := exists_pair all.1 all.2.1
          obtain ⟨last, second⟩ := exists_pair all.2.2.1 all.2.2.2.1
          obtain ⟨y, same⟩ := exists_year century last
          exact ⟨y, by rw [same, first, second]; rfl⟩
    case isFalse => cases found
  case h_2 => cases read

end DateLiteral

namespace WrittenLiteral

theorem year_civil {w : WrittenLiteral} {c : Civil} (shown : w.civil = some c) :
    0 ≤ c.year ∧ c.year ≤ 9999 := by
  cases w <;> cases shown <;> simp only [WrittenDate.civil] <;> omega

theorem exists_shows {w : WrittenLiteral} (valid : w.Valid) :
    ∃ l : DateLiteral, l.Shows w.civil w.clock := by
  obtain ⟨date, shown⟩ : ∃ date : Option Date, date.map Date.civil = w.civil := by
    cases shown : w.civil with
    | none => exact ⟨none, rfl⟩
    | some c =>
        obtain ⟨first_le, le_last⟩ := year_civil shown
        obtain ⟨d, same⟩ := Date.exists_civil_eq (valid.1 c shown) (by omega) (by omega)
        exact ⟨some d, congrArg some same⟩
  obtain ⟨time, nanos⟩ : ∃ time : TimeOfDay, time.nanos = w.clock.elim 0 WrittenClock.nanos := by
    cases shown : w.clock with
    | none => exact ⟨.midnight, rfl⟩
    | some c =>
        obtain ⟨hour, minute, second, -⟩ := valid.2 c shown
        have small : fraction 9 c.places < 1000000000 := fraction_lt 9 c.places
        exact ⟨⟨c.nanos, by unfold WrittenClock.nanos; omega⟩, rfl⟩
  exact ⟨⟨date, time, _⟩, shown, nanos, rfl⟩

end WrittenLiteral
end ChartLint
