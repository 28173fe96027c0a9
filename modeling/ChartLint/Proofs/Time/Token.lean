import ChartLint.Proofs.Time.Literal

/-!
# Tokens as they are written

Every token is written in one of the shapes of its kind (`TimeToken.spelled_of_scan`). The other way
round, the tokens of a literal are found in its text (`WrittenLiteral.scan_chars`).
-/

namespace ChartLint

open Written

structure WrittenNumber where
  first : Fin 10
  more : List (Fin 10)
  places : List (Fin 10)

namespace WrittenNumber

def chars (n : WrittenNumber) : List Char :=
  digits (n.first :: n.more) ++ decimals n.places

end WrittenNumber

namespace TimeToken

theorem twoDigits_iff {cs : List Char} :
    twoDigits cs = true ↔ ∃ n rest, cs = pair n ++ rest := by
  constructor
  · intro two
    unfold twoDigits at two
    split at two
    case h_1 a b rest =>
      rw [Bool.and_eq_true] at two
      obtain ⟨n, same⟩ := exists_pair two.1 two.2
      exact ⟨n, rest, by rw [same]; rfl⟩
    case h_2 => cases two
  · rintro ⟨n, rest, rfl⟩
    simp [twoDigits, pair, digits]

@[simp] theorem twoDigits_pair (n : Fin 100) (rest : List Char) :
    twoDigits (pair n ++ rest) = true :=
  twoDigits_iff.mpr ⟨n, rest, rfl⟩

theorem exists_pair_of_ite {cs : List Char} {n : Nat}
    (found : (if twoDigits cs then n else 0) ≠ 0) : ∃ p rest, cs = pair p ++ rest := by
  by_cases two : twoDigits cs = true
  · exact twoDigits_iff.mp two
  · rw [if_neg two] at found
    exact absurd rfl found

@[simp] theorem drop_pair (n : Fin 100) (rest : List Char) : (pair n ++ rest).drop 2 = rest := rfl

/-! ## Lengths of parts -/

theorem decimalsLength_eq (cs : List Char) :
    decimalsLength ('.' :: cs) =
      if (cs.takeWhile Char.isDigit).length = 0 then 0
      else (cs.takeWhile Char.isDigit).length + 1 := rfl

theorem secondsLength_pair (second : Fin 100) (rest : List Char) :
    secondsLength (':' :: (pair second ++ rest)) = 3 + decimalsLength rest := by
  simp [secondsLength]

theorem timeLength_pair (hour minute : Fin 100) (rest : List Char) :
    timeLength (pair hour ++ ':' :: (pair minute ++ rest)) =
      5 + secondsLength rest + offsetLength (rest.drop (secondsLength rest)) := by
  simp [timeLength, ← List.drop_drop]

theorem inlineTimeLength_clock {cs : List Char} (found : timeLength cs ≠ 0) :
    inlineTimeLength ('t' :: cs) = timeLength cs + 1 := by
  simp [inlineTimeLength, found]

theorem dayLength_pair (day : Fin 100) (rest : List Char) :
    dayLength ('-' :: (pair day ++ rest)) = 3 + inlineTimeLength rest := by
  simp [dayLength]

theorem dateLength_pair (y : Fin 10000) (month : Fin 100) (rest : List Char) :
    dateLength (year y ++ '-' :: (pair month ++ rest)) = 7 + dayLength rest := by
  have digits : twoDigits (year y ++ '-' :: (pair month ++ rest)) = true ∧
      twoDigits ((year y ++ '-' :: (pair month ++ rest)).drop 2) = true := by
    rw [year, List.append_assoc, drop_pair]
    exact ⟨twoDigits_pair _ _, twoDigits_pair _ _⟩
  have rest : (year y ++ '-' :: (pair month ++ rest)).drop 4 = '-' :: (pair month ++ rest) := rfl
  unfold dateLength
  rw [if_pos digits, rest]
  simp

theorem pair_append_ne {c : Char} (other : c.isDigit = false) (n : Fin 100)
    (rest cs : List Char) : pair n ++ rest ≠ c :: cs := by
  intro same
  exact digit_ne other _ (List.cons.inj same).1

theorem offsetLength_signed (negative colon : Bool) (hours minutes : Fin 100)
    (rest : List Char) :
    offsetLength ((WrittenOffset.signed negative colon hours minutes).chars ++ rest) =
      (WrittenOffset.signed negative colon hours minutes).chars.length := by
  unfold WrittenOffset.chars WrittenOffset.digits offsetLength
  cases colon with
  | true => cases negative <;> simp [length_pair]
  | false =>
      have colonless (r : List Char) : pair minutes ++ rest ≠ ':' :: r :=
        pair_append_ne rfl minutes rest r
      cases negative <;> simp [length_pair]

theorem offsetLength_offset (o : WrittenOffset) (rest : List Char) :
    offsetLength (o.chars ++ rest) = o.chars.length := by
  cases o with
  | zulu => rfl
  | signed negative colon hours minutes =>
      exact offsetLength_signed negative colon hours minutes rest

/-! ## From lengths to shapes -/

theorem exists_signed {c : Char} {cs : List Char} (sign : c = '+' ∨ c = '-')
    (found : offsetLength (c :: cs) ≠ 0) :
    ∃ negative colon hours minutes rest,
      c :: cs = (WrittenOffset.signed negative colon hours minutes).chars ++ rest := by
  obtain ⟨negative, rfl⟩ : ∃ negative : Bool, c = if negative then '-' else '+' := by
    rcases sign with rfl | rfl
    · exact ⟨false, rfl⟩
    · exact ⟨true, rfl⟩
  have other : (if negative then '-' else '+') ≠ 'z' := by cases negative <;> decide
  simp only [offsetLength, other, if_false, sign, true_and] at found
  obtain ⟨hours, rest, rfl⟩ := exists_pair_of_ite found
  rw [twoDigits_pair, if_pos rfl, drop_pair] at found
  revert found
  split
  case h_1 rest =>
    intro found
    obtain ⟨minutes, rest, rfl⟩ := exists_pair_of_ite found
    refine ⟨negative, true, hours, minutes, rest, ?_⟩
    simp [WrittenOffset.chars, WrittenOffset.digits]
  case h_2 =>
    intro found
    obtain ⟨minutes, rest, rfl⟩ := exists_pair_of_ite found
    refine ⟨negative, false, hours, minutes, rest, ?_⟩
    simp [WrittenOffset.chars, WrittenOffset.digits]

theorem exists_offset (cs : List Char) :
    ∃ o rest, cs = WrittenClock.offsetChars o ++ rest ∧
      offsetLength cs = (WrittenClock.offsetChars o).length := by
  by_cases zero : offsetLength cs = 0
  · exact ⟨none, cs, rfl, zero⟩
  · cases cs with
    | nil => exact absurd rfl zero
    | cons c cs =>
        by_cases z : c = 'z'
        · subst z
          exact ⟨some .zulu, cs, rfl, rfl⟩
        · have sign : c = '+' ∨ c = '-' := by
            by_contra other
            simp [offsetLength, z, other] at zero
          obtain ⟨negative, colon, hours, minutes, rest, same⟩ := exists_signed sign zero
          rw [same]
          exact ⟨some (.signed negative colon hours minutes), rest, rfl,
            offsetLength_signed negative colon hours minutes rest⟩

theorem exists_decimals (cs : List Char) :
    ∃ ds rest, cs = decimals ds ++ rest ∧ decimalsLength cs = (decimals ds).length := by
  unfold decimalsLength
  split
  case h_1 cs =>
    obtain ⟨ds, whole⟩ := exists_digits cs
    cases ds with
    | nil => exact ⟨[], '.' :: cs, rfl, by simp [whole, digits, decimals]⟩
    | cons d ds =>
        refine ⟨d :: ds, cs.dropWhile Char.isDigit, ?_, ?_⟩
        · rw [decimals, ← whole, List.cons_append, List.takeWhile_append_dropWhile]
        · simp [whole, digits, decimals]
  case h_2 => exact ⟨[], cs, rfl, rfl⟩

theorem exists_second (cs : List Char) :
    ∃ s rest, cs = WrittenClock.secondChars s ++ rest ∧
      secondsLength cs = (WrittenClock.secondChars s).length := by
  unfold secondsLength
  split
  case h_1 cs =>
    by_cases two : twoDigits cs = true
    · obtain ⟨n, rest, rfl⟩ := twoDigits_iff.mp two
      obtain ⟨ds, rest, rfl, length⟩ := exists_decimals rest
      refine ⟨some (n, ds), rest, ?_, ?_⟩
      · simp [WrittenClock.secondChars]
      · simp [WrittenClock.secondChars, length, length_pair]
        omega
    · exact ⟨none, ':' :: cs, rfl, by simp [two, WrittenClock.secondChars]⟩
  case h_2 => exact ⟨none, cs, rfl, rfl⟩

theorem exists_fields {cs : List Char} (found : timeLength cs ≠ 0) :
    ∃ hour minute rest, cs = pair hour ++ ':' :: (pair minute ++ rest) := by
  unfold timeLength at found
  obtain ⟨hour, rest, rfl⟩ := exists_pair_of_ite found
  rw [twoDigits_pair, if_pos rfl, drop_pair] at found
  revert found
  split
  case h_1 rest =>
    intro found
    obtain ⟨minute, rest, rfl⟩ := exists_pair_of_ite found
    exact ⟨hour, minute, rest, rfl⟩
  case h_2 => exact fun found => absurd rfl found

theorem exists_time {cs : List Char} (found : timeLength cs ≠ 0) :
    ∃ (c : WrittenClock) (rest : List Char), cs = c.chars ++ rest ∧
      timeLength cs = c.chars.length := by
  obtain ⟨hour, minute, rest, rfl⟩ := exists_fields found
  obtain ⟨second, rest, rfl, seconds⟩ := exists_second rest
  obtain ⟨offset, rest, rfl, length⟩ := exists_offset rest
  refine ⟨⟨hour, minute, second, offset⟩, rest, ?_, ?_⟩
  · simp [WrittenClock.chars, WrittenClock.body]
  · rw [timeLength_pair, seconds, List.drop_left, length]
    simp only [WrittenClock.chars, WrittenClock.body, List.length_append, List.length_cons,
      length_pair]
    omega

theorem exists_date {cs : List Char} (found : dateLength cs ≠ 0) :
    ∃ y month rest, cs = year y ++ '-' :: (pair month ++ rest) := by
  unfold dateLength at found
  by_cases digits : twoDigits cs = true ∧ twoDigits (cs.drop 2) = true
  · rw [if_pos digits] at found
    obtain ⟨century, rest, rfl⟩ := twoDigits_iff.mp digits.1
    obtain ⟨inCentury, rest, same⟩ := twoDigits_iff.mp digits.2
    rw [drop_pair] at same
    subst same
    have four : (pair century ++ (pair inCentury ++ rest)).drop 4 = rest := rfl
    rw [four] at found
    revert found
    split
    case h_1 rest =>
      intro found
      obtain ⟨month, rest, rfl⟩ := exists_pair_of_ite found
      obtain ⟨y, same⟩ := exists_year century inCentury
      exact ⟨y, month, rest, by rw [same, List.append_assoc]⟩
    case h_2 => exact fun found => absurd rfl found
  · rw [if_neg digits] at found
    exact absurd rfl found

theorem exists_day {cs : List Char} (found : dayLength cs ≠ 0) :
    ∃ day rest, cs = '-' :: (pair day ++ rest) := by
  unfold dayLength at found
  split at found
  case h_1 cs =>
    obtain ⟨day, rest, rfl⟩ := exists_pair_of_ite found
    exact ⟨day, rest, rfl⟩
  case h_2 => exact absurd rfl found

theorem exists_inlineTime {cs : List Char} (found : inlineTimeLength cs ≠ 0) :
    ∃ clock, cs = 't' :: clock ∧ timeLength clock ≠ 0 := by
  unfold inlineTimeLength at found
  split at found
  case h_1 clock => exact ⟨clock, rfl, by simpa using found⟩
  case h_2 => exact absurd rfl found

inductive Spelled : TimeToken → Prop where
  | date (d : WrittenDate) : Spelled ⟨.date, String.ofList d.chars⟩
  | stamp (y : Fin 10000) (month day : Fin 100) (c : WrittenClock) :
    Spelled ⟨.date, String.ofList (WrittenDate.chars ⟨y, month, day⟩ ++ 't' :: c.chars)⟩
  | time (c : WrittenClock) : Spelled ⟨.time, String.ofList c.chars⟩
  | number (n : WrittenNumber) : Spelled ⟨.number, String.ofList n.chars⟩
  | word {cs : List Char} (filled : cs ≠ []) (letters : ∀ c ∈ cs, inWord c = true) :
    Spelled ⟨.word, String.ofList cs⟩
  | plus : Spelled ⟨.plus, "+"⟩
  | minus : Spelled ⟨.minus, "-"⟩
  | star : Spelled ⟨.star, "*"⟩

theorem Spelled.filled {token : TimeToken} (spelled : Spelled token) : token.text.toList ≠ [] := by
  cases spelled with
  | word filled letters => rwa [String.toList_ofList]
  | plus => decide
  | minus => decide
  | star => decide
  | _ =>
      rw [String.toList_ofList]
      exact List.cons_ne_nil _ _

theorem spelled_date {cs : List Char} (found : dateLength cs ≠ 0) :
    ∃ text rest, cs = text ++ rest ∧ dateLength cs = text.length ∧
      Spelled ⟨.date, String.ofList text⟩ := by
  obtain ⟨y, month, rest, rfl⟩ := exists_date found
  rw [dateLength_pair]
  by_cases dayless : dayLength rest = 0
  · refine ⟨_, rest, ?_, ?_, .date ⟨y, month, none⟩⟩
    · simp [WrittenDate.chars, WrittenDate.dayChars]
    · simp [WrittenDate.chars, WrittenDate.dayChars, dayless, length_year, length_pair]
  · obtain ⟨day, rest, rfl⟩ := exists_day dayless
    rw [dayLength_pair]
    by_cases timeless : inlineTimeLength rest = 0
    · refine ⟨_, rest, ?_, ?_, .date ⟨y, month, some day⟩⟩
      · simp [WrittenDate.chars, WrittenDate.dayChars]
      · simp [WrittenDate.chars, WrittenDate.dayChars, timeless, length_year, length_pair]
    · obtain ⟨clock, rfl, timed⟩ := exists_inlineTime timeless
      rw [inlineTimeLength_clock timed]
      obtain ⟨c, rest, rfl, length⟩ := exists_time timed
      refine ⟨_, rest, ?_, ?_, .stamp y month day c⟩
      · simp [WrittenDate.chars, WrittenDate.dayChars]
      · simp [WrittenDate.chars, WrittenDate.dayChars, length, length_year, length_pair]
        omega

theorem spelled_number {c : Char} {cs : List Char} (is : c.isDigit = true) :
    ∃ text rest, c :: cs = text ++ rest ∧ numberLength (c :: cs) = text.length ∧
      Spelled ⟨.number, String.ofList text⟩ := by
  obtain ⟨first, rfl⟩ := exists_digit is
  obtain ⟨more, digits⟩ := exists_digits cs
  obtain ⟨places, rest, after, length⟩ := exists_decimals (cs.dropWhile Char.isDigit)
  have whole : (digit first :: cs).takeWhile Char.isDigit = Written.digits (first :: more) := by
    rw [List.takeWhile_cons_of_pos is, digits]
    rfl
  have split : digit first :: cs =
      Written.digits (first :: more) ++ (cs.dropWhile Char.isDigit) := by
    conv => lhs; rw [← List.takeWhile_append_dropWhile (p := Char.isDigit) (l := cs), digits]
    rfl
  refine ⟨_, rest, ?_, ?_, .number ⟨first, more, places⟩⟩
  · rw [split, after, WrittenNumber.chars, List.append_assoc]
  · have filled : (Written.digits (first :: more)).length ≠ 0 := by simp [Written.digits]
    simp only [numberLength, whole, filled, if_false]
    rw [split, List.drop_left, length, WrittenNumber.chars, List.length_append]

theorem spelled_of_longest? {cs : List Char} {kind : Kind} {n : Nat}
    (found : longest? cs = some (kind, n)) :
    ∃ text rest, cs = text ++ rest ∧ n = text.length ∧
      Spelled ⟨kind, String.ofList text⟩ := by
  cases cs with
  | nil => cases found
  | cons c cs =>
      unfold longest? at found
      dsimp only at found
      split at found
      case isTrue digit =>
        split at found
        case isTrue dated =>
          cases found
          exact spelled_date dated
        case isFalse =>
          split at found
          case isTrue timed =>
            cases found
            obtain ⟨clock, rest, same, length⟩ := exists_time timed
            exact ⟨clock.chars, rest, same, length, .time clock⟩
          case isFalse =>
            cases found
            exact spelled_number digit
      case isFalse =>
        split at found
        case isTrue letter =>
          cases found
          refine ⟨(c :: cs).takeWhile inWord, (c :: cs).dropWhile inWord,
            List.takeWhile_append_dropWhile.symm, rfl, .word ?_ fun _ => List.mem_takeWhile_imp⟩
          rw [List.takeWhile_cons_of_pos letter]
          exact List.cons_ne_nil _ _
        case isFalse =>
          split at found
          case isTrue plus =>
            cases found
            subst plus
            exact ⟨['+'], cs, rfl, rfl, .plus⟩
          case isFalse =>
            split at found
            case isTrue minus =>
              cases found
              subst minus
              exact ⟨['-'], cs, rfl, rfl, .minus⟩
            case isFalse =>
              split at found
              case isTrue star =>
                cases found
                subst star
                exact ⟨['*'], cs, rfl, rfl, .star⟩
              case isFalse => cases found

theorem spelled_of_scan {cs : List Char} {tokens : List TimeToken}
    (scanned : scan cs = .ok tokens) :
    ∀ token ∈ tokens, Spelled token := by
  fun_induction scan cs generalizing tokens with
  | case1 =>
      cases scanned
      simp
  | case2 c cs gap ih => exact ih scanned
  | case3 c cs solid none => cases scanned
  | case4 c cs solid kind n found ih =>
      obtain ⟨text, after, split, rfl, spelled⟩ := spelled_of_longest? found
      cases rest : scan (cs.drop (text.length - 1)) with
      | error e =>
          rw [rest] at scanned
          cases scanned
      | ok others =>
          rw [rest, split, List.take_left] at scanned
          cases scanned
          rw [List.forall_mem_cons]
          exact ⟨spelled, ih rest⟩

/-! ## From shapes to lengths -/

theorem not_isGap_of_longest? {c : Char} {cs : List Char} {found : Kind × Nat}
    (longest : longest? (c :: cs) = some found) : Text.isGap c = false := by
  rw [Bool.eq_false_iff]
  intro gap
  simp only [Text.isGap, Bool.or_eq_true, beq_iff_eq] at gap
  rcases gap with rfl | rfl <;> cases longest

theorem scan_of_longest? {kind : Kind} {text rest : List Char} (filled : text ≠ [])
    (longest : longest? (text ++ rest) = some (kind, text.length)) :
    scan (text ++ rest) = (scan rest).map (⟨kind, String.ofList text⟩ :: ·) := by
  cases text with
  | nil => exact absurd rfl filled
  | cons c cs =>
      have solid := not_isGap_of_longest? longest
      rw [List.cons_append] at longest ⊢
      rw [scan, solid, longest]
      simp only [Bool.false_eq_true, if_false, List.length_cons, Nat.add_sub_cancel, List.drop_left]
      rw [← List.cons_append, ← List.length_cons, List.take_left]
      cases scan rest <;> rfl

theorem scan_gap {gap : List Char} (blank : ∀ c ∈ gap, Text.isGap c = true) (rest : List Char) :
    scan (gap ++ rest) = scan rest := by
  induction gap with
  | nil => rfl
  | cons c gap ih =>
      rw [List.forall_mem_cons] at blank
      rw [List.cons_append, scan, if_pos blank.1, ih blank.2]

def Ends (rest : List Char) : Prop :=
  ∀ c ∈ rest.head?, Text.isGap c = true

theorem ends_cases {rest : List Char} (ends : Ends rest) :
    rest = [] ∨ ∃ more, rest = ' ' :: more ∨ rest = '\t' :: more := by
  cases rest with
  | nil => exact .inl rfl
  | cons c more =>
      have gap := ends c rfl
      simp only [Text.isGap, Bool.or_eq_true, beq_iff_eq] at gap
      rcases gap with rfl | rfl
      · exact .inr ⟨more, .inl rfl⟩
      · exact .inr ⟨more, .inr rfl⟩

variable {rest : List Char}

structure Stops (rest : List Char) : Prop where
  seconds : secondsLength rest = 0
  decimals : decimalsLength rest = 0
  digits : rest.takeWhile Char.isDigit = []

theorem stops_of_ends (ends : Ends rest) : Stops rest := by
  rcases ends_cases ends with rfl | ⟨more, rfl | rfl⟩ <;> exact ⟨rfl, rfl, rfl⟩

theorem stops_chars (o : WrittenOffset) (rest : List Char) : Stops (o.chars ++ rest) := by
  cases o with
  | zulu => exact ⟨rfl, rfl, rfl⟩
  | signed negative colon hours minutes => cases negative <;> exact ⟨rfl, rfl, rfl⟩

theorem stops_offset (ends : Ends rest) (o : Option WrittenOffset) :
    Stops (WrittenClock.offsetChars o ++ rest) := by
  cases o with
  | none => exact stops_of_ends ends
  | some o => exact stops_chars o rest

theorem takeWhile_digits (stops : Stops rest) (ds : List (Fin 10)) :
    (digits ds ++ rest).takeWhile Char.isDigit = digits ds := by
  rw [List.takeWhile_append_of_pos fun _ => isDigit_of_mem, stops.digits, List.append_nil]

theorem decimalsLength_chars (stops : Stops rest) (ds : List (Fin 10)) :
    decimalsLength (decimals ds ++ rest) = (decimals ds).length := by
  cases ds with
  | nil => exact stops.decimals
  | cons d ds =>
      rw [decimals, List.cons_append, decimalsLength_eq, takeWhile_digits stops]
      simp [digits]

theorem secondsLength_chars (stops : Stops rest) (second : Option (Fin 100 × List (Fin 10))) :
    secondsLength (WrittenClock.secondChars second ++ rest) =
      (WrittenClock.secondChars second).length := by
  cases second with
  | none => exact stops.seconds
  | some second =>
      rw [WrittenClock.secondChars, List.cons_append, List.append_assoc, secondsLength_pair,
        decimalsLength_chars stops]
      simp only [List.length_cons, List.length_append, length_pair]
      omega

theorem offsetLength_chars (ends : Ends rest) (o : Option WrittenOffset) :
    offsetLength (WrittenClock.offsetChars o ++ rest) = (WrittenClock.offsetChars o).length := by
  cases o with
  | none => rcases ends_cases ends with rfl | ⟨more, rfl | rfl⟩ <;> rfl
  | some o => exact offsetLength_offset o rest

theorem timeLength_chars (ends : Ends rest) (c : WrittenClock) :
    timeLength (c.chars ++ rest) = c.chars.length := by
  have split : c.chars ++ rest = pair c.hour ++ ':' :: (pair c.minute ++
      (WrittenClock.secondChars c.second ++ (WrittenClock.offsetChars c.offset ++ rest))) := by
    simp [WrittenClock.chars, WrittenClock.body]
  rw [split, timeLength_pair, secondsLength_chars (stops_offset ends c.offset), List.drop_left,
    offsetLength_chars ends]
  simp only [WrittenClock.chars, WrittenClock.body, List.length_append, List.length_cons,
    length_pair]
  omega

theorem dateLength_chars (ends : Ends rest) (d : WrittenDate) :
    dateLength (d.chars ++ rest) = d.chars.length := by
  have split : d.chars ++ rest =
      year d.year ++ '-' :: (pair d.month ++ (WrittenDate.dayChars d.day ++ rest)) := by
    simp [WrittenDate.chars]
  have day : dayLength (WrittenDate.dayChars d.day ++ rest) =
      (WrittenDate.dayChars d.day).length := by
    cases d.day with
    | none => rcases ends_cases ends with rfl | ⟨more, rfl | rfl⟩ <;> rfl
    | some day =>
        rw [WrittenDate.dayChars, List.cons_append, dayLength_pair]
        rcases ends_cases ends with rfl | ⟨more, rfl | rfl⟩ <;> rfl
  rw [split, dateLength_pair, day]
  simp only [WrittenDate.chars, List.length_append, List.length_cons, length_year, length_pair]
  omega

theorem dateLength_stamp (ends : Ends rest) (y : Fin 10000) (month day : Fin 100)
    (c : WrittenClock) :
    dateLength ((WrittenDate.chars ⟨y, month, day⟩ ++ 't' :: c.chars) ++ rest) =
      (WrittenDate.chars ⟨y, month, day⟩ ++ 't' :: c.chars).length := by
  have split : (WrittenDate.chars ⟨y, month, day⟩ ++ 't' :: c.chars) ++ rest =
      year y ++ '-' :: (pair month ++ '-' :: (pair day ++ 't' :: (c.chars ++ rest))) := by
    simp [WrittenDate.chars, WrittenDate.dayChars]
  have time := timeLength_chars ends c
  rw [split, dateLength_pair, dayLength_pair, inlineTimeLength_clock, time]
  · simp only [WrittenDate.chars, WrittenDate.dayChars, List.length_append, List.length_cons,
      length_year, length_pair]
    omega
  · rw [time]
    simp [WrittenClock.chars, WrittenClock.body]

theorem dateLength_clock (c : WrittenClock) (rest : List Char) :
    dateLength (c.chars ++ rest) = 0 := by
  unfold dateLength
  rw [if_neg]
  rintro ⟨-, two⟩
  cases two

/-! ## Literals in a text -/

theorem longest?_date {c : Char} {cs : List Char} (is : c.isDigit = true)
    (dated : dateLength (c :: cs) ≠ 0) :
    longest? (c :: cs) = some (.date, dateLength (c :: cs)) := by
  simp [longest?, is, dated]

theorem longest?_time {c : Char} {cs : List Char} (is : c.isDigit = true)
    (undated : dateLength (c :: cs) = 0) (timed : timeLength (c :: cs) ≠ 0) :
    longest? (c :: cs) = some (.time, timeLength (c :: cs)) := by
  simp [longest?, is, undated, timed]

theorem longest?_number {c : Char} {cs : List Char} (is : c.isDigit = true)
    (undated : dateLength (c :: cs) = 0) (untimed : timeLength (c :: cs) = 0) :
    longest? (c :: cs) = some (.number, numberLength (c :: cs)) := by
  simp [longest?, is, undated, untimed]

theorem scan_of_dateLength {d : Fin 10} {cs : List Char}
    (length : dateLength (digit d :: cs ++ rest) = (digit d :: cs).length) :
    scan (digit d :: cs ++ rest) =
      (scan rest).map (⟨.date, String.ofList (digit d :: cs)⟩ :: ·) := by
  apply scan_of_longest? (List.cons_ne_nil _ _)
  rw [← length]
  apply longest?_date (isDigit_digit d)
  exact length.trans_ne (Nat.succ_ne_zero _)

theorem scan_date (ends : Ends rest) (d : WrittenDate) :
    scan (d.chars ++ rest) = (scan rest).map (⟨.date, String.ofList d.chars⟩ :: ·) :=
  scan_of_dateLength (dateLength_chars ends d)

theorem scan_stamp (ends : Ends rest) (y : Fin 10000) (month day : Fin 100) (c : WrittenClock) :
    scan ((WrittenDate.chars ⟨y, month, day⟩ ++ 't' :: c.chars) ++ rest) =
      (scan rest).map
        (⟨.date, String.ofList (WrittenDate.chars ⟨y, month, day⟩ ++ 't' :: c.chars)⟩ :: ·) :=
  scan_of_dateLength (dateLength_stamp ends y month day c)

theorem scan_time (ends : Ends rest) (c : WrittenClock) :
    scan (c.chars ++ rest) = (scan rest).map (⟨.time, String.ofList c.chars⟩ :: ·) := by
  have filled : c.chars ≠ [] := List.cons_ne_nil _ _
  have length := timeLength_chars ends c
  have timed : timeLength (c.chars ++ rest) ≠ 0 := by
    rw [length]
    simpa using filled
  apply scan_of_longest? filled
  rw [← length]
  exact longest?_time (isDigit_digit _) (dateLength_clock c rest) timed

theorem scan_year (ends : Ends rest) (y : Fin 10000) :
    scan (year y ++ rest) = (scan rest).map (⟨.number, String.ofList (year y)⟩ :: ·) := by
  have filled : year y ≠ [] := List.cons_ne_nil _ _
  have four : (year y ++ rest).drop 4 = rest := rfl
  have undated : dateLength (year y ++ rest) = 0 := by
    unfold dateLength
    rw [four]
    rcases ends_cases ends with rfl | ⟨more, rfl | rfl⟩ <;> simp
  have untimed : timeLength (year y ++ rest) = 0 := by
    have colonless (r : List Char) : pair ⟨y % 100, by omega⟩ ++ rest ≠ ':' :: r :=
      pair_append_ne rfl _ rest r
    unfold timeLength year
    rw [List.append_assoc, drop_pair]
    simp
  have length : numberLength (year y ++ rest) = (year y).length := by
    have whole : (year y ++ rest).takeWhile Char.isDigit = year y := by
      rw [List.takeWhile_append_of_pos (List.all_eq_true.mp (all_year y)),
        (stops_of_ends ends).digits, List.append_nil]
    simp [numberLength, whole, length_year, four, (stops_of_ends ends).decimals]
  apply scan_of_longest? filled
  rw [← length]
  exact longest?_number (isDigit_digit _) undated untimed

end TimeToken

namespace WrittenLiteral

def chars (gap : List Char) : WrittenLiteral → List Char
  | year y => Written.year y
  | date d => d.chars
  | stamp y month day c => WrittenDate.chars ⟨y, month, day⟩ ++ 't' :: c.chars
  | dateTime d c => d.chars ++ (gap ++ c.chars)
  | time c => c.chars

theorem scan_chars {gap : List Char} (filled : gap ≠ []) (blank : ∀ c ∈ gap, Text.isGap c = true)
    (w : WrittenLiteral) : TimeToken.scan (w.chars gap) = .ok w.tokens := by
  have atEnd : TimeToken.Ends [] := by simp [TimeToken.Ends]
  have scanEnd : TimeToken.scan [] = .ok [] := by rw [TimeToken.scan]
  cases w with
  | year y =>
      have := TimeToken.scan_year atEnd y
      rw [List.append_nil, scanEnd] at this
      exact this
  | date d =>
      have := TimeToken.scan_date atEnd d
      rw [List.append_nil, scanEnd] at this
      exact this
  | stamp y month day c =>
      have := TimeToken.scan_stamp atEnd y month day c
      rw [List.append_nil, scanEnd] at this
      exact this
  | time c =>
      have := TimeToken.scan_time atEnd c
      rw [List.append_nil, scanEnd] at this
      exact this
  | dateTime d c =>
      have ends : TimeToken.Ends (gap ++ c.chars) := by
        intro x first
        cases gap with
        | nil => exact absurd rfl filled
        | cons y gap =>
            cases first
            exact blank _ (List.mem_cons_self ..)
      have time := TimeToken.scan_time atEnd c
      rw [List.append_nil, scanEnd] at time
      rw [chars, TimeToken.scan_date ends, TimeToken.scan_gap blank, time]
      rfl

end WrittenLiteral
end ChartLint
