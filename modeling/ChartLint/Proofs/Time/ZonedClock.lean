import ChartLint.Time.ZonedClock
import ChartLint.Time.Zone.Name

/-!
# The offset of a clock

A wall clock read with an offset is a moment, and the zone has an offset at that moment. An offset
fits a wall clock if the two are the same. In the repeated hour of a change two offsets fit, in the
skipped hour none does.

An offset is worked out from the one in force before, by two readings: the first gives a guess, the
second is the guess read again, and the larger of the two is taken. In a zone with one change this
finds an offset that fits wherever there is one (`Reached.offset_of_changesOnce`). Which one it
finds depends on the guess, and so on what was in force before (`SetFrom.offset_of_guess`).
-/

namespace ChartLint

/-- The offset is `a` before the UTC nanosecond `change` and `b` from then on. -/
def Zone.ChangesOnce (zone : Zone) (change a b : Int) : Prop :=
  ∀ utc : WallClock, zone.offsetAt utc = if utc.nanos < change then a else b

theorem Zone.changesOnce_ofHistory (name : String) (initial base origin : Int) (gap ahead : Nat) :
    (ofHistory name ⟨initial, base, origin, [(gap, ahead)]⟩).ChangesOnce
      ((origin + gap) * nanosPerSecond) initial (base + ahead) := by
  intro utc
  have late : origin + gap ≤ utc.seconds ↔ ¬ utc.nanos < (origin + gap) * nanosPerSecond := by
    unfold WallClock.seconds nanosPerSecond
    omega
  simp only [ofHistory, History.follow, late, ite_not]

theorem Zone.ChangesOnce.offsetAt_eq {zone : Zone} {change a b : Int}
    (once : zone.ChangesOnce change a b) (utc : WallClock) :
    zone.offsetAt utc = a ∨ zone.offsetAt utc = b := by
  rw [once utc]
  split
  · exact .inl rfl
  · exact .inr rfl

namespace ZonedClock

variable {zone : Zone} {w utc : WallClock} {z z' : ZonedClock}
variable {a again again' b change guess guess' minutes o prior prior' : Int}

/-! ## Readings -/

theorem moved_eq_ok_iff :
    moved w minutes = .ok utc ↔ utc.nanos = w.nanos + minutes * nanosPerMinute := by
  obtain ⟨nanos, first_le, le_last⟩ := utc
  unfold moved WallClock.orOutOfRange WallClock.addMinutes? WallClock.addNanos? WallClock.ofNanos?
  split
  · simp only [Option.elim, Except.ok.injEq, WallClock.mk.injEq]
    exact eq_comm
  · simp only [Option.elim, reduceCtorEq, false_iff]
    omega

theorem moved_back (there : moved utc minutes = .ok w) : moved w (-minutes) = .ok utc := by
  rw [moved_eq_ok_iff] at there ⊢
  rw [there, Int.neg_mul]
  omega

/-- The zone's offset at the moment that a wall clock shows if it is read with `offset`. -/
def offsetRead (zone : Zone) (w : WallClock) (offset : Int) : Except TimeError Int :=
  (moved w (-offset)).map zone.offsetAt

/-- A wall clock read with this offset is a moment at which the zone has it. -/
def Fits (zone : Zone) (w : WallClock) (offset : Int) : Prop :=
  offsetRead zone w offset = .ok offset

instance [DecidableEq α] (result : Except TimeError α) (value : α) :
    Decidable (result = .ok value) :=
  match result with
  | .ok other => decidable_of_iff (other = value) ⟨congrArg Except.ok, Except.ok.inj⟩
  | .error _ => isFalse nofun

instance : Decidable (Fits zone w o) :=
  inferInstanceAs (Decidable (offsetRead zone w o = .ok o))

theorem offsetRead_eq_ok_iff :
    offsetRead zone w prior = .ok o ↔ ∃ utc, moved w (-prior) = .ok utc ∧
      zone.offsetAt utc = o := by
  unfold offsetRead
  cases moved w (-prior) <;> simp [Except.map]

-- A prior offset that is kept is one that the second reading would give back, so the early return
-- is no case of its own.
theorem correctOffset_eq (zone : Zone) (w : WallClock) (prior : Int) :
    correctOffset zone w prior =
      (offsetRead zone w prior).bind fun guess => (offsetRead zone w guess).map (max guess) := by
  unfold correctOffset offsetRead
  cases first : moved w (-prior) with
  | error e => rfl
  | ok utc =>
      simp only [bind, Except.bind, pure, Except.pure, Except.map]
      by_cases kept : zone.offsetAt utc = prior
      · simp [kept, first]
      · rw [if_neg kept]
        cases moved w (-zone.offsetAt utc) with
        | error e => rfl
        | ok utc' =>
            simp only [Except.ok.injEq]
            split <;> omega

theorem correctOffset_eq_ok_iff :
    correctOffset zone w prior = .ok o ↔
      ∃ guess again, offsetRead zone w prior = .ok guess ∧ offsetRead zone w guess = .ok again ∧
        o = max guess again := by
  rw [correctOffset_eq]
  cases offsetRead zone w prior with
  | error e => simp [Except.bind]
  | ok guess =>
      cases read : offsetRead zone w guess <;> simp [Except.bind, Except.map, read, eq_comm]

/-! ## Clocks that are set and moved -/

/-- A clock is set to another time, or moved by a count of units, and nothing goes wrong. -/
inductive Move (zone : Zone) (z : ZonedClock) : ZonedClock → Prop
  | setWall (w : WallClock) {z' : ZonedClock} :
      (z.setWall zone w).toExcept = .ok z' → Move zone z z'
  | shift (unit : TimeUnit) (count : Float) {z' : ZonedClock} :
      (z.shift zone unit count).toExcept = .ok z' → Move zone z z'

inductive Reached (zone : Zone) : ZonedClock → Prop
  | ofUtc (utc : WallClock) {z : ZonedClock} : ofUtc zone utc = .ok z → Reached zone z
  | ofWall (w : WallClock) {z : ZonedClock} : ofWall zone w = .ok z → Reached zone z
  | move {z z' : ZonedClock} : Reached zone z → Move zone z z' → Reached zone z'

/-- A clock that has just been set, from a prior offset, to the time it shows. -/
inductive SetFrom (zone : Zone) : Int → ZonedClock → Prop
  | ofWall (w : WallClock) {z : ZonedClock} :
      ofWall zone w = .ok z → SetFrom zone (zone.offsetAt w) z
  | move {z z' : ZonedClock} : Move zone z z' → SetFrom zone z.offset z'

theorem toExcept_setWall (z : ZonedClock) (zone : Zone) (w : WallClock) :
    (z.setWall zone w).toExcept = (correctOffset zone w z.offset).map (ZonedClock.mk w) := by
  unfold setWall
  cases correctOffset zone w z.offset <;> rfl

theorem toExcept_shift (z : ZonedClock) (zone : Zone) (unit : TimeUnit) (count : Float) :
    (z.shift zone unit count).toExcept =
      (z.wall.shift unit count).bind fun w => (z.setWall zone w).toExcept := by
  unfold shift
  cases z.wall.shift unit count <;> rfl

theorem correctOffset_of_map (set : (correctOffset zone w prior).map (ZonedClock.mk w) = .ok z) :
    correctOffset zone z.wall prior = .ok z.offset := by
  cases found : correctOffset zone w prior with
  | error e =>
      rw [found] at set
      cases set
  | ok offset =>
      rw [found] at set
      cases set
      exact found

theorem SetFrom.correctOffset_eq (set : SetFrom zone prior z) :
    correctOffset zone z.wall prior = .ok z.offset := by
  cases set with
  | ofWall w made => exact correctOffset_of_map made
  | @move before _ moved =>
      cases moved with
      | setWall w done =>
          rw [toExcept_setWall] at done
          exact correctOffset_of_map done
      | shift unit count done =>
          rw [toExcept_shift] at done
          cases target : before.wall.shift unit count with
          | error e =>
              rw [target] at done
              cases done
          | ok w =>
              rw [target] at done
              apply correctOffset_of_map
              rw [← toExcept_setWall]
              exact done

structure Readings (zone : Zone) (prior : Int) (z : ZonedClock) (guess again : Int) : Prop where
  first : offsetRead zone z.wall prior = .ok guess
  second : offsetRead zone z.wall guess = .ok again
  chosen : z.offset = max guess again

theorem SetFrom.readings (set : SetFrom zone prior z) :
    ∃ guess again, Readings zone prior z guess again := by
  obtain ⟨guess, again, first, second, chosen⟩ := correctOffset_eq_ok_iff.mp set.correctOffset_eq
  exact ⟨guess, again, { first, second, chosen }⟩

/-! ## One change -/

theorem offsetRead_of_changesOnce (once : zone.ChangesOnce change a b)
    (read : offsetRead zone w prior = .ok o) :
    o = if w.nanos < change + prior * nanosPerMinute then a else b := by
  obtain ⟨utc, shown, rfl⟩ := offsetRead_eq_ok_iff.mp read
  rw [once utc]
  rw [moved_eq_ok_iff, Int.neg_mul] at shown
  have early : utc.nanos < change ↔ w.nanos < change + prior * nanosPerMinute := by omega
  simp only [early]

theorem offsetRead_eq_or (once : zone.ChangesOnce change a b)
    (read : offsetRead zone w prior = .ok o) : o = a ∨ o = b := by
  obtain ⟨utc, -, rfl⟩ := offsetRead_eq_ok_iff.mp read
  exact once.offsetAt_eq utc

theorem skipped_of_swapped (once : zone.ChangesOnce change a b) (differ : a ≠ b)
    (readA : offsetRead zone w a = .ok b) (readB : offsetRead zone w b = .ok a) :
    change + a * nanosPerMinute ≤ w.nanos ∧ w.nanos < change + b * nanosPerMinute := by
  have afterA := offsetRead_of_changesOnce once readA
  have beforeB := offsetRead_of_changesOnce once readB
  split at afterA
  · exact absurd afterA.symm differ
  · split at beforeB
    · omega
    · exact absurd beforeB differ

/-- A clock whose offset fits, or which no offset fits because each of the two leads to the
other. -/
inductive Settled (zone : Zone) (a b : Int) (z : ZonedClock) : Prop
  | fits : z.offset = a ∨ z.offset = b → Fits zone z.wall z.offset → Settled zone a b z
  | swapped : a ≠ b → offsetRead zone z.wall a = .ok b → offsetRead zone z.wall b = .ok a →
      z.offset = max a b → Settled zone a b z

theorem Settled.offset_eq (settled : Settled zone a b z) : z.offset = a ∨ z.offset = b := by
  cases settled with
  | fits known _ => exact known
  | swapped _ _ _ larger => omega

theorem settled_ofUtc (once : zone.ChangesOnce change a b) (made : ofUtc zone utc = .ok z) :
    Settled zone a b z := by
  cases shown : moved utc (zone.offsetAt utc) with
  | error e =>
      simp only [ofUtc, shown, bind, Except.bind] at made
      cases made
  | ok w =>
      simp only [ofUtc, shown, bind, Except.bind, pure, Except.pure] at made
      cases made
      apply Settled.fits (once.offsetAt_eq utc)
      exact offsetRead_eq_ok_iff.mpr ⟨utc, moved_back shown, rfl⟩

theorem SetFrom.settled (once : zone.ChangesOnce change a b) (set : SetFrom zone prior z)
    (known : prior = a ∨ prior = b) : Settled zone a b z := by
  obtain ⟨guess, again, first, second, chosen⟩ := set.readings
  have guessed := offsetRead_eq_or once first
  have found := offsetRead_eq_or once second
  by_cases same : again = guess
  · subst same
    rw [Int.max_self] at chosen
    apply Settled.fits <;> rw [chosen]
    · exact guessed
    · exact second
  · -- The guess is not the prior offset, for otherwise the second reading would be the first.
    have changed : guess ≠ prior := by
      rintro rfl
      rw [first] at second
      exact same (Except.ok.inj second).symm
    have back : again = prior := by omega
    subst back
    have swapped : offsetRead zone z.wall a = .ok b ∧ offsetRead zone z.wall b = .ok a := by
      rcases known with rfl | rfl
      · have other : guess = b := by omega
        subst other
        exact ⟨first, second⟩
      · have other : guess = a := by omega
        subst other
        exact ⟨second, first⟩
    exact .swapped (by omega) swapped.1 swapped.2 (by omega)

theorem Reached.settled (once : zone.ChangesOnce change a b) (reached : Reached zone z) :
    Settled zone a b z := by
  induction reached with
  | ofUtc utc made => exact settled_ofUtc once made
  | ofWall w made => exact (SetFrom.ofWall w made).settled once (once.offsetAt_eq w)
  | move _ moved settled => exact (SetFrom.move moved).settled once settled.offset_eq

theorem exists_move (once : zone.ChangesOnce change a b) (known : z.offset = a ∨ z.offset = b)
    {utcA utcB : WallClock} (readA : moved w (-a) = .ok utcA) (readB : moved w (-b) = .ok utcB) :
    ∃ z', Move zone z z' ∧ z'.wall = w := by
  have total {offset : Int} (either : offset = a ∨ offset = b) :
      ∃ o, offsetRead zone w offset = .ok o := by
    rcases either with rfl | rfl
    · exact ⟨_, offsetRead_eq_ok_iff.mpr ⟨utcA, readA, rfl⟩⟩
    · exact ⟨_, offsetRead_eq_ok_iff.mpr ⟨utcB, readB, rfl⟩⟩
  obtain ⟨guess, first⟩ := total known
  obtain ⟨again, second⟩ := total (offsetRead_eq_or once first)
  have chosen := correctOffset_eq_ok_iff.mpr ⟨guess, again, first, second, rfl⟩
  refine ⟨⟨w, max guess again⟩, .setWall w ?_, rfl⟩
  rw [toExcept_setWall, chosen]
  rfl

/-- In a zone with one change, a clock that was reached in any way has an offset that fits, if one
fits. If none does, it shows a time that the change skips and has the larger offset. It can be set
to any time that both offsets keep within the calendar. -/
theorem Reached.offset_of_changesOnce (once : zone.ChangesOnce change a b)
    (reached : Reached zone z) :
    (Fits zone z.wall a ∨ Fits zone z.wall b → Fits zone z.wall z.offset) ∧
      (¬ Fits zone z.wall a → ¬ Fits zone z.wall b →
        z.offset = max a b ∧ change + a * nanosPerMinute ≤ z.wall.nanos ∧
          z.wall.nanos < change + b * nanosPerMinute) ∧
      ∀ w utcA utcB, moved w (-a) = .ok utcA → moved w (-b) = .ok utcB →
        ∃ z', Move zone z z' ∧ z'.wall = w := by
  have settled := reached.settled once
  refine ⟨?_, ?_, fun w utcA utcB => exists_move once settled.offset_eq⟩
  · intro one
    cases settled with
    | fits _ fits => exact fits
    | swapped differ readA readB _ =>
        rcases one with fits | fits
        · exact absurd (Except.ok.inj (fits.symm.trans readA)) differ
        · exact absurd (Except.ok.inj (readB.symm.trans fits)) differ
  · intro noneA noneB
    cases settled with
    | fits known fits =>
        rcases known with eq | eq <;> rw [eq] at fits <;> contradiction
    | swapped differ readA readB larger =>
        exact ⟨larger, skipped_of_swapped once differ readA readB⟩

/-- Winter time, and summer time from a million seconds after the start of 1970 on. -/
def oneSummer : Zone :=
  .ofHistory "summer" ⟨60, 60, 0, [(1000000, 60)]⟩

def skippedTime : WallClock :=
  ⟨1005400000000000, by decide, by decide⟩

/-- A clock that is set to a skipped time from the day before gets the offset of summer. -/
theorem offset_of_changesOnce_skipped :
    ∃ z, Reached oneSummer z ∧ z.wall = skippedTime ∧ ¬ Fits oneSummer z.wall 60 ∧
      ¬ Fits oneSummer z.wall 120 ∧ z.offset = max 60 120 := by
  have winter : Reached oneSummer ⟨⟨919000000000000, by decide, by decide⟩, 60⟩ :=
    .ofWall ⟨919000000000000, by decide, by decide⟩ rfl
  have reached : Reached oneSummer ⟨skippedTime, 120⟩ := winter.move (.setWall skippedTime rfl)
  have once := Zone.changesOnce_ofHistory "summer" 60 60 0 1000000 60
  have unfit : ¬ Fits oneSummer skippedTime 60 := by decide
  have unfit' : ¬ Fits oneSummer skippedTime 120 := by decide
  have larger := (Reached.offset_of_changesOnce once reached).2.1 unfit unfit'
  exact ⟨_, reached, rfl, unfit, unfit', larger.1⟩

/-! ## Two ways to a time -/

theorem utc_ne (same : z.wall = z'.wall) (differ : z.offset ≠ z'.offset) (shown : z.utc = .ok utc) :
    z.utc ≠ z'.utc := by
  intro equal
  have shown' := equal.symm.trans shown
  unfold ZonedClock.utc at shown shown'
  rw [moved_eq_ok_iff, Int.neg_mul] at shown shown'
  rw [same] at shown
  have : z.offset * nanosPerMinute = z'.offset * nanosPerMinute := by omega
  exact differ (Int.eq_of_mul_eq_mul_right (by decide) this)

theorem Readings.eq_of_guess (readings : Readings zone prior z guess again)
    (readings' : Readings zone prior' z' guess again') (same : z.wall = z'.wall) : z = z' := by
  have read := readings'.second
  rw [← same] at read
  have : again = again' := Except.ok.inj (readings.second.symm.trans read)
  have offsets : z.offset = z'.offset := by rw [readings.chosen, readings'.chosen, this]
  cases z
  cases same
  cases offsets
  rfl

theorem Readings.offset_of_fits (readings : Readings zone prior z guess again)
    (fits : Fits zone z.wall guess) : z.offset = guess := by
  have := Except.ok.inj (readings.second.symm.trans fits)
  have := readings.chosen
  omega

theorem Readings.utc_ne (readings : Readings zone prior z guess again)
    (readings' : Readings zone prior' z' guess' again') (same : z.wall = z'.wall)
    (lt : guess < guess') (fits : Fits zone z.wall guess) : z.utc ≠ z'.utc := by
  have kept := readings.offset_of_fits fits
  obtain ⟨utc, shown, -⟩ := offsetRead_eq_ok_iff.mp fits
  apply ZonedClock.utc_ne same
  · have := readings'.chosen
    omega
  · unfold ZonedClock.utc
    rw [kept]
    exact shown

theorem Readings.offset_of_unfit (readings : Readings zone prior z guess again)
    (readings' : Readings zone prior' z' guess' again') (lt : guess < guess')
    (known : again = guess ∨ again = guess') (known' : again' = guess ∨ again' = guess')
    (unfit : ¬ Fits zone z.wall guess) : z.offset = guess' ∧ z'.offset = guess' := by
  have changed : again ≠ guess := by
    rintro rfl
    exact unfit readings.second
  have := readings.chosen
  have := readings'.chosen
  omega

/-- Two clocks that have just been set to the same time are the same if their guesses are. Where
both guesses fit, each clock keeps its own. If the guesses differ and the smaller one fits, the
clocks show different moments. Only where it does not fit, and reading with the two guesses leads
to no third offset, have both clocks the larger one. -/
theorem SetFrom.offset_of_guess (first : SetFrom zone prior z) (second : SetFrom zone prior' z')
    (same : z.wall = z'.wall) :
    ∃ guess guess', offsetRead zone z.wall prior = .ok guess ∧
      offsetRead zone z.wall prior' = .ok guess' ∧
      (guess = guess' → z = z') ∧
      (Fits zone z.wall guess → Fits zone z.wall guess' → z.offset = guess ∧ z'.offset = guess') ∧
      (guess ≠ guess' → Fits zone z.wall (min guess guess') → z.utc ≠ z'.utc) ∧
      ((∀ o ∈ [guess, guess'], ∀ again, offsetRead zone z.wall o = .ok again →
          again ∈ [guess, guess']) →
        ¬ Fits zone z.wall (min guess guess') →
        z.offset = max guess guess' ∧ z'.offset = max guess guess') := by
  obtain ⟨guess, again, readings⟩ := first.readings
  obtain ⟨guess', again', readings'⟩ := second.readings
  refine ⟨guess, guess', readings.first, same ▸ readings'.first, ?_, ?_, ?_, ?_⟩
  · rintro rfl
    exact readings.eq_of_guess readings' same
  · intro fits fits'
    exact ⟨readings.offset_of_fits fits, readings'.offset_of_fits (same ▸ fits')⟩
  · intro differ fits
    rcases Int.lt_or_gt_of_ne differ with lt | gt
    · rw [Int.min_eq_left (Int.le_of_lt lt)] at fits
      exact readings.utc_ne readings' same lt fits
    · rw [Int.min_eq_right (Int.le_of_lt gt)] at fits
      exact (readings'.utc_ne readings same.symm gt (same ▸ fits)).symm
  · intro closed unfit
    have known : again = guess ∨ again = guess' := by
      simpa using closed guess (by simp) again readings.second
    have known' : again' = guess ∨ again' = guess' := by
      simpa using closed guess' (by simp) again' (same ▸ readings'.second)
    rcases Int.lt_trichotomy guess guess' with lt | rfl | gt
    · rw [Int.min_eq_left (Int.le_of_lt lt)] at unfit
      rw [Int.max_eq_right (Int.le_of_lt lt)]
      exact readings.offset_of_unfit readings' lt known known' unfit
    · rw [Int.min_self] at unfit
      have : again = guess := by omega
      exact absurd (this ▸ readings.second) unfit
    · rw [Int.min_eq_right (Int.le_of_lt gt)] at unfit
      rw [Int.max_eq_left (Int.le_of_lt gt)]
      exact (readings'.offset_of_unfit readings gt known'.symm known.symm (same ▸ unfit)).symm

/-- Half past two on the day on which Berlin goes over to summer time, a time that is skipped. -/
def springTime : WallClock :=
  ⟨1616898600000000000, by decide, by decide⟩

/-- A clock that shows a skipped time from the start and one that is set to it from the day before
have the same offset. -/
theorem offset_of_guess_spring :
    ∃ z z', SetFrom .berlin 120 z ∧ SetFrom .berlin 60 z' ∧ z.wall = springTime ∧
      z'.wall = springTime ∧ z.offset = max 60 120 ∧ z'.offset = max 60 120 := by
  have read : offsetRead .berlin springTime 120 = .ok 60 := by decide +kernel
  have read' : offsetRead .berlin springTime 60 = .ok 120 := by decide +kernel
  have first : SetFrom .berlin 120 ⟨springTime, 120⟩ := by
    have prior : Zone.berlin.offsetAt springTime = 120 := by decide +kernel
    rw [← prior]
    exact .ofWall springTime (by decide +kernel)
  have second : SetFrom .berlin 60 ⟨springTime, 120⟩ :=
    .move (z := ⟨⟨1616812200000000000, by decide, by decide⟩, 60⟩)
      (.setWall springTime (by decide +kernel))
  obtain ⟨guess, guess', firstRead, secondRead, -, -, -, larger⟩ :=
    SetFrom.offset_of_guess first second rfl
  cases Except.ok.inj (firstRead.symm.trans read)
  cases Except.ok.inj (secondRead.symm.trans read')
  refine ⟨_, _, first, second, rfl, rfl, larger ?_ (by decide +kernel)⟩
  simp [read, read']

/-- Half past two on the day on which Berlin goes back to winter time, a time that is repeated. -/
def autumnTime : WallClock :=
  ⟨1635647400000000000, by decide, by decide⟩

/-- Half past one on the day on which Berlin went over to double summer time in 1945, half an hour
before it did. -/
def springTime1945 : WallClock :=
  ⟨-776557800000000000, by decide, by decide⟩

/-- The time of day that is repeated has the smaller offset from the start, and the larger one if
the clock is set to it from the day before. Half an hour before a change only one offset fits, but a
clock set to that time from winter time gets the offset that comes with the change. -/
theorem offset_by_way :
    ofWall .berlin autumnTime = .ok ⟨autumnTime, 60⟩ ∧
      (setWall ⟨⟨1635561000000000000, by decide, by decide⟩, 120⟩ .berlin autumnTime).toExcept =
        .ok ⟨autumnTime, 120⟩ ∧
      ofWall .berlin springTime1945 = .ok ⟨springTime1945, 120⟩ ∧
      ¬ Fits .berlin springTime1945 180 ∧
      (setWall ⟨⟨1609459200000000000, by decide, by decide⟩, 60⟩ .berlin springTime1945).toExcept =
        .ok ⟨springTime1945, 180⟩ := by
  decide +kernel

end ZonedClock
end ChartLint
