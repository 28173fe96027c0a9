import ChartLint.Proofs.Document.Layout
import ChartLint.Proofs.Line.Grammar
import ChartLint.Proofs.Time.Calendar
import ChartLint.Time.Literal
import Mathlib.Tactic.Ring

/-!
# Dates and times as they are written

The parts of a literal are numbers of two or four digits, decimals, and an offset in one of its
spellings. `chars` writes them out. Reading what was written gives back the date, the time and the
offset, and it does so exactly if they exist: `DateLiteral.clock?_chars` and
`DateLiteral.date?_chars`.
-/

namespace ChartLint

/-! ## Digits -/

namespace Written

def digit (d : Fin 10) : Char :=
  Nat.digitChar d

def digits (ds : List (Fin 10)) : List Char :=
  ds.map digit

def pair (n : Fin 100) : List Char :=
  digits [⟨n / 10, by omega⟩, ⟨n % 10, by omega⟩]

def year (n : Fin 10000) : List Char :=
  pair ⟨n / 100, by omega⟩ ++ pair ⟨n % 100, by omega⟩

def decimals : List (Fin 10) → List Char
  | [] => []
  | d :: ds => '.' :: digits (d :: ds)

def fraction : Nat → List (Fin 10) → Nat
  | 0, _ => 0
  | _ + 1, [] => 0
  | places + 1, d :: ds => d * 10 ^ places + fraction places ds

@[simp] theorem isDigit_digit (d : Fin 10) : (digit d).isDigit = true := by
  revert d
  decide

theorem value_digit (d : Fin 10) : (digit d).toNat - '0'.toNat = d := by
  revert d
  decide

@[simp] theorem digits_nil : digits [] = [] := rfl

@[simp] theorem length_digits (ds : List (Fin 10)) : (digits ds).length = ds.length :=
  List.length_map ..

theorem length_pair (n : Fin 100) : (pair n).length = 2 := rfl

theorem length_year (n : Fin 10000) : (year n).length = 4 := rfl

theorem isDigit_of_mem {ds : List (Fin 10)} {c : Char} (member : c ∈ digits ds) :
    c.isDigit = true := by
  obtain ⟨d, -, rfl⟩ := List.mem_map.mp member
  exact isDigit_digit d

theorem all_digits (ds : List (Fin 10)) : (digits ds).all Char.isDigit = true :=
  List.all_eq_true.mpr fun _ => isDigit_of_mem

theorem all_year (y : Fin 10000) : (year y).all Char.isDigit = true := by
  simp only [year, pair, List.all_append, all_digits, Bool.and_self]

theorem digit_ne {c : Char} (other : c.isDigit = false) (d : Fin 10) : digit d ≠ c := by
  rintro rfl
  rw [isDigit_digit] at other
  cases other

theorem not_mem_digits {c : Char} (other : c.isDigit = false) (ds : List (Fin 10)) :
    c ∉ digits ds := by
  intro member
  rw [isDigit_of_mem member] at other
  cases other

theorem natOfDigits_append (as bs : List Char) :
    Decimal.natOfDigits (as ++ bs) =
      Decimal.natOfDigits as * 10 ^ bs.length + Decimal.natOfDigits bs := by
  unfold Decimal.natOfDigits
  rw [List.foldl_append]
  generalize as.foldl _ 0 = n
  induction bs generalizing n with
  | nil => simp
  | cons b bs ih =>
      simp only [List.foldl_cons, List.length_cons]
      rw [ih, ih (0 * 10 + _), Nat.pow_succ]
      ring

@[simp] theorem natOfDigits_digit (d : Fin 10) : Decimal.natOfDigits [digit d] = d := by
  change 0 * 10 + ((digit d).toNat - '0'.toNat) = d.val
  rw [value_digit]
  omega

@[simp] theorem natOfDigits_pair (n : Fin 100) : Decimal.natOfDigits (pair n) = n := by
  change Decimal.natOfDigits ([digit _] ++ [digit _]) = _
  rw [natOfDigits_append, natOfDigits_digit, natOfDigits_digit]
  simp only [List.length_cons, List.length_nil]
  omega

@[simp] theorem natOfDigits_year (n : Fin 10000) : Decimal.natOfDigits (year n) = n := by
  rw [year, natOfDigits_append, natOfDigits_pair, natOfDigits_pair]
  simp only [length_pair]
  omega

theorem natOfDigits_zeros (n : Nat) : Decimal.natOfDigits (List.replicate n '0') = 0 := by
  induction n with
  | zero => rfl
  | succ n ih =>
      rw [List.replicate_succ, ← List.singleton_append, natOfDigits_append, ih]
      simp [Decimal.natOfDigits]

theorem natOfDigits_fraction (places : Nat) (ds : List (Fin 10)) :
    Decimal.natOfDigits ((digits ds).take places ++
        List.replicate (places - ((digits ds).take places).length) '0') =
      fraction places ds := by
  induction ds generalizing places with
  | nil =>
      cases places with
      | zero => rfl
      | succ places =>
          rw [digits_nil, List.take_nil, List.nil_append]
          exact natOfDigits_zeros _
  | cons d ds ih =>
      cases places with
      | zero => rfl
      | succ places =>
          rw [show digits (d :: ds) = digit d :: digits ds from rfl, List.take_succ_cons,
            List.length_cons, Nat.add_sub_add_right, List.cons_append, ← List.singleton_append,
            natOfDigits_append, ih, natOfDigits_digit, fraction]
          congr 3
          simp only [List.length_append, List.length_replicate, List.length_take]
          omega

theorem fraction_lt (places : Nat) (ds : List (Fin 10)) : fraction places ds < 10 ^ places := by
  induction ds generalizing places with
  | nil => cases places <;> simp [fraction]
  | cons d ds ih =>
      cases places with
      | zero => simp [fraction]
      | succ places =>
          have := ih places
          have : d.val * 10 ^ places ≤ 9 * 10 ^ places := Nat.mul_le_mul_right _ (by omega)
          rw [fraction, Nat.pow_succ]
          omega

theorem exists_digit {c : Char} (is : c.isDigit = true) : ∃ d, c = digit d := by
  have range : 48 ≤ c.toNat ∧ c.toNat ≤ 57 := by
    simpa [Char.isDigit, UInt32.le_iff_toNat_le] using is
  have code : ∀ d : Fin 10, Char.ofNat (48 + d) = digit d := by decide
  refine ⟨⟨c.toNat - 48, by omega⟩, ?_⟩
  calc
    c = Char.ofNat c.toNat := (Char.ofNat_toNat c).symm
    _ = Char.ofNat (48 + (c.toNat - 48)) := by congr 1; omega
    _ = digit ⟨c.toNat - 48, by omega⟩ := code ⟨c.toNat - 48, by omega⟩

theorem exists_digits (cs : List Char) : ∃ ds, cs.takeWhile Char.isDigit = digits ds := by
  induction cs with
  | nil => exact ⟨[], rfl⟩
  | cons c cs ih =>
      by_cases is : c.isDigit = true
      · obtain ⟨d, rfl⟩ := exists_digit is
        obtain ⟨ds, rest⟩ := ih
        refine ⟨d :: ds, ?_⟩
        rw [List.takeWhile_cons_of_pos is, rest]
        rfl
      · exact ⟨[], List.takeWhile_cons_of_neg is⟩

theorem exists_pair {a b : Char} (first : a.isDigit = true) (second : b.isDigit = true) :
    ∃ n, pair n = [a, b] := by
  obtain ⟨a, rfl⟩ := exists_digit first
  obtain ⟨b, rfl⟩ := exists_digit second
  refine ⟨⟨a * 10 + b, by omega⟩, ?_⟩
  have tens : (a.val * 10 + b) / 10 = a := by omega
  have ones : (a.val * 10 + b) % 10 = b := by omega
  simp [pair, digits, tens, ones]

theorem exists_year (century rest : Fin 100) : ∃ y, year y = pair century ++ pair rest := by
  refine ⟨⟨century * 100 + rest, by omega⟩, ?_⟩
  have first : (century.val * 100 + rest) / 100 = century := by omega
  have last : (century.val * 100 + rest) % 100 = rest := by omega
  simp [year, first, last]

end Written

namespace Text

theorem splitOn_free {sep : Char} {piece : List Char} (free : sep ∉ piece) :
    splitOn sep piece = [piece] := by
  rw [splitOn_eq]
  simpa using splitOn_append free []

theorem splitOn_piece {sep : Char} {piece : List Char} (free : sep ∉ piece) (rest : List Char) :
    splitOn sep (piece ++ sep :: rest) = piece :: splitOn sep rest := by
  rw [splitOn_eq, splitOn_eq, splitOn_append free, List.splitOn_cons_eq_if_modifyHead]
  simp

theorem splitOnce?_free {sep : Char} {cs : List Char} (free : sep ∉ cs) :
    splitOnce? sep cs = none := by
  apply Option.eq_none_iff_forall_not_mem.mpr
  rintro ⟨before, after⟩ split
  apply free
  rw [(Line.splitOnce?_eq_some_iff.mp split).1]
  simp

theorem dropLast?_free {last : Char} {cs : List Char} (free : last ∉ cs) :
    dropLast? last cs = none := by
  unfold dropLast?
  rw [if_neg]
  exact fun ends => free (List.mem_of_getLast? ends)

end Text

open Written

/-! ## The parts of a literal -/

/-- An offset from UTC: `z`, or a sign with hours and minutes, between which a colon may stand. -/
inductive WrittenOffset where
  | zulu
  | signed (negative colon : Bool) (hours minutes : Fin 100)

namespace WrittenOffset

def digits (colon : Bool) (hours minutes : Fin 100) : List Char :=
  pair hours ++ (if colon then ':' :: pair minutes else pair minutes)

def chars : WrittenOffset → List Char
  | zulu => ['z']
  | signed negative colon hours minutes =>
    (if negative then '-' else '+') :: digits colon hours minutes

def Valid : WrittenOffset → Prop
  | zulu => True
  | signed _ _ hours minutes => hours.val ≤ 23 ∧ minutes.val ≤ 59

instance : DecidablePred Valid
  | zulu => inferInstanceAs (Decidable True)
  | signed _ _ hours minutes => inferInstanceAs (Decidable (hours.val ≤ 23 ∧ minutes.val ≤ 59))

def value : WrittenOffset → Int
  | zulu => 0
  | signed negative _ hours minutes =>
    let total : Int := hours * 60 + minutes
    if negative then -total else total

end WrittenOffset

/-- A time: `hh:mm`, with seconds, their decimals and an offset if need be. -/
structure WrittenClock where
  hour : Fin 100
  minute : Fin 100
  second : Option (Fin 100 × List (Fin 10))
  offset : Option WrittenOffset

namespace WrittenClock

def secondChars : Option (Fin 100 × List (Fin 10)) → List Char
  | none => []
  | some (second, places) => ':' :: (pair second ++ decimals places)

def offsetChars : Option WrittenOffset → List Char
  | none => []
  | some o => o.chars

def body (c : WrittenClock) : List Char :=
  pair c.hour ++ ':' :: (pair c.minute ++ secondChars c.second)

def chars (c : WrittenClock) : List Char :=
  c.body ++ offsetChars c.offset

def seconds (c : WrittenClock) : Nat :=
  c.second.elim 0 fun s => s.1.val

def places (c : WrittenClock) : List (Fin 10) :=
  c.second.elim [] Prod.snd

structure Valid (c : WrittenClock) : Prop where
  hour : c.hour.val ≤ 23
  minute : c.minute.val ≤ 59
  second : c.seconds ≤ 59
  offset : ∀ o ∈ c.offset, o.Valid

instance : DecidablePred Valid := fun c =>
  decidable_of_iff
    (c.hour.val ≤ 23 ∧ c.minute.val ≤ 59 ∧ c.seconds ≤ 59 ∧ ∀ o ∈ c.offset, o.Valid)
    ⟨fun ⟨hour, minute, second, offset⟩ => ⟨hour, minute, second, offset⟩,
      fun ⟨hour, minute, second, offset⟩ => ⟨hour, minute, second, offset⟩⟩

/-- The nanoseconds since midnight; decimals after the ninth do not count. -/
def nanos (c : WrittenClock) : Nat :=
  ((c.hour * 60 + c.minute) * 60 + c.seconds) * 1000000000 + fraction 9 c.places

end WrittenClock

structure WrittenDate where
  year : Fin 10000
  month : Fin 100
  day : Option (Fin 100)

namespace WrittenDate

def dayChars : Option (Fin 100) → List Char
  | none => []
  | some day => '-' :: pair day

def chars (d : WrittenDate) : List Char :=
  Written.year d.year ++ '-' :: (pair d.month ++ dayChars d.day)

def civil (d : WrittenDate) : Civil :=
  ⟨d.year, d.month, d.day.elim 1 fun day => day.val⟩

end WrittenDate

/-! ## Reading the parts -/

namespace DateLiteral

theorem number?_digits {ds : List (Fin 10)} (filled : ds ≠ []) :
    number? (digits ds) = some (Decimal.natOfDigits (digits ds)) := by
  cases ds with
  | nil => exact absurd rfl filled
  | cons d ds =>
      have plus : '+' ≠ digit d := (digit_ne rfl d).symm
      have all := all_digits (d :: ds)
      simp only [digits, List.map_cons] at all ⊢
      simp [number?, Text.dropLead?, plus, all]

@[simp] theorem number?_pair (n : Fin 100) : number? (pair n) = some n.val := by
  rw [← natOfDigits_pair n]
  exact number?_digits (by simp)

@[simp] theorem number?_year (n : Fin 10000) : number? (year n) = some n.val := by
  rw [← natOfDigits_year n]
  exact @number?_digits [_, _, _, _] (by simp)

theorem nanos?_digits {ds : List (Fin 10)} (filled : ds ≠ []) :
    nanos? (digits ds) = some (fraction 9 ds) := by
  have nonempty : (digits ds).isEmpty = false := by simpa [digits] using filled
  rw [nanos?, nonempty, all_digits, Iso.nanosOfFraction, natOfDigits_fraction]
  rfl

theorem offset?_digits (negative colon : Bool) (hours minutes : Fin 100) (total : Int) :
    offset? negative (WrittenOffset.digits colon hours minutes) = some total ↔
      (WrittenOffset.signed negative colon hours minutes).Valid ∧
        total = (WrittenOffset.signed negative colon hours minutes).value := by
  have plain (n : Fin 100) : (pair n).filter (· != ':') = pair n :=
    List.filter_eq_self.mpr fun c member => by
      simpa using fun equal => not_mem_digits (c := ':') rfl _ (equal ▸ member)
  have kept : (WrittenOffset.digits colon hours minutes).filter (· != ':') =
      pair hours ++ pair minutes := by
    cases colon <;> simp [WrittenOffset.digits, plain]
  have all : (pair hours ++ pair minutes).all Char.isDigit = true := by
    rw [List.all_append, pair, pair, all_digits, all_digits]
    rfl
  have first : (pair hours ++ pair minutes).take 2 = pair hours := rfl
  have last : (pair hours ++ pair minutes).drop 2 = pair minutes := rfl
  unfold offset?
  simp only [kept, all, first, last, natOfDigits_pair, List.length_append, length_pair]
  by_cases valid : hours.val ≤ 23 ∧ minutes.val ≤ 59
  · simp [valid, WrittenOffset.Valid, WrittenOffset.value, eq_comm]
  · simp [valid, WrittenOffset.Valid]

theorem isSign_of_isDigit {c : Char} (digit : c.isDigit = true) : isSign c = false := by
  rw [Bool.eq_false_iff]
  intro sign
  simp only [isSign, Bool.or_eq_true, beq_iff_eq] at sign
  rcases sign with rfl | rfl <;> cases digit

theorem isSign_of_mem_digits {colon : Bool} {hours minutes : Fin 100} {c : Char}
    (member : c ∈ WrittenOffset.digits colon hours minutes) : c ≠ 'z' ∧ isSign c = false := by
  have digit {n : Fin 100} (member : c ∈ pair n) : c ≠ 'z' ∧ isSign c = false := by
    have is := isDigit_of_mem member
    refine ⟨?_, isSign_of_isDigit is⟩
    rintro rfl
    cases is
  unfold WrittenOffset.digits at member
  cases colon with
  | false =>
      simp only [Bool.false_eq_true, if_false, List.mem_append] at member
      exact member.elim digit digit
  | true =>
      simp only [if_true, List.mem_append, List.mem_cons] at member
      rcases member with member | rfl | member
      · exact digit member
      · decide
      · exact digit member

theorem splitOffset?_sign {body tail : List Char} {sign : Char}
    (plain : ∀ c ∈ body ++ tail, c ≠ 'z' ∧ isSign c = false) (is : isSign sign = true) :
    splitOffset? (body ++ sign :: tail) =
      (offset? (sign == '-') tail).map fun minutes => (body, some minutes) := by
  have unended : Text.dropLast? 'z' (body ++ sign :: tail) = none := by
    apply Text.dropLast?_free
    rw [List.mem_append, List.mem_cons]
    rintro (member | rfl | member)
    · exact (plain 'z' (List.mem_append_left _ member)).1 rfl
    · cases is
    · exact (plain 'z' (List.mem_append_right _ member)).1 rfl
  have signless : ∀ c ∈ tail.reverse, (!isSign c) = true := by
    intro c member
    simp [(plain c (List.mem_append_right _ (List.mem_reverse.mp member))).2]
  -- The last sign is found from behind, past the digits and the colon.
  have back : (body ++ sign :: tail).reverse = tail.reverse ++ sign :: body.reverse := by simp
  unfold splitOffset?
  rw [unended]
  simp [back, List.dropWhile_append_of_pos signless, List.takeWhile_append_of_pos signless, is]

theorem splitOffset?_chars {body : List Char} (plain : ∀ c ∈ body, c ≠ 'z' ∧ isSign c = false)
    (written : Option WrittenOffset) (clock : List Char) (offset : Option Int) :
    splitOffset? (body ++ WrittenClock.offsetChars written) = some (clock, offset) ↔
      (∀ o ∈ written, o.Valid) ∧ clock = body ∧ offset = written.map WrittenOffset.value := by
  cases written with
  | none =>
      have unended : Text.dropLast? 'z' body = none :=
        Text.dropLast?_free fun member => (plain 'z' member).1 rfl
      have signless : body.reverse.dropWhile (!isSign ·) = [] := by
        apply List.dropWhile_eq_nil_iff.mpr
        intro c member
        simp [(plain c (List.mem_reverse.mp member)).2]
      simp [splitOffset?, WrittenClock.offsetChars, unended, signless, eq_comm]
  | some o =>
      cases o with
      | zulu =>
          simp [splitOffset?, WrittenClock.offsetChars, WrittenOffset.chars, Text.dropLast?,
            WrittenOffset.Valid, WrittenOffset.value, eq_comm]
      | signed negative colon hours minutes =>
          have plain : ∀ c ∈ body ++ WrittenOffset.digits colon hours minutes,
              c ≠ 'z' ∧ isSign c = false :=
            List.forall_mem_append.mpr ⟨plain, fun _ => isSign_of_mem_digits⟩
          have is : isSign (if negative then '-' else '+') = true := by cases negative <;> rfl
          have sign : ((if negative then '-' else '+') == '-') = negative := by
            cases negative <;> rfl
          have split := splitOffset?_sign plain is
          rw [sign] at split
          simp only [WrittenClock.offsetChars, WrittenOffset.chars, split, Option.map_eq_some_iff,
            offset?_digits, Option.mem_def, Option.some.injEq, forall_eq', Prod.mk.injEq,
            Option.map_some]
          constructor
          · rintro ⟨total, ⟨valid, rfl⟩, rfl, rfl⟩
            exact ⟨valid, rfl, rfl⟩
          · rintro ⟨valid, rfl, rfl⟩
            exact ⟨_, ⟨valid, rfl⟩, rfl, rfl⟩

end DateLiteral

namespace WrittenClock

theorem forall_mem_body (c : WrittenClock) :
    ∀ x ∈ c.body, x.isDigit = true ∨ x = ':' ∨ x = '.' := by
  have inPair {n : Fin 100} {x : Char} (member : x ∈ pair n) : x.isDigit = true :=
    isDigit_of_mem member
  have inDecimals {ds : List (Fin 10)} {x : Char} (member : x ∈ decimals ds) :
      x.isDigit = true ∨ x = '.' := by
    cases ds with
    | nil => cases member
    | cons d ds =>
        rcases List.mem_cons.mp member with rfl | member
        · exact .inr rfl
        · exact .inl (isDigit_of_mem member)
  intro x member
  unfold body at member
  rcases second : c.second with _ | ⟨s, ds⟩ <;>
    simp only [second, secondChars, List.mem_append, List.mem_cons, List.not_mem_nil, or_false]
      at member
  · rcases member with member | rfl | member
    · exact .inl (inPair member)
    · exact .inr (.inl rfl)
    · exact .inl (inPair member)
  · rcases member with member | rfl | member | rfl | member | member
    · exact .inl (inPair member)
    · exact .inr (.inl rfl)
    · exact .inl (inPair member)
    · exact .inr (.inl rfl)
    · exact .inl (inPair member)
    · rcases inDecimals member with is | rfl
      · exact .inl is
      · exact .inr (.inr rfl)

theorem plain_body (c : WrittenClock) :
    ∀ x ∈ c.body, x ≠ 'z' ∧ DateLiteral.isSign x = false := by
  intro x member
  rcases c.forall_mem_body x member with digit | rfl | rfl
  · refine ⟨?_, DateLiteral.isSign_of_isDigit digit⟩
    rintro rfl
    cases digit
  · decide
  · decide

def fields (c : WrittenClock) : List Char :=
  pair c.hour ++ ':' :: (pair c.minute ++ c.second.elim [] fun s => ':' :: pair s.1)

theorem body_eq (c : WrittenClock) : c.body = c.fields ++ decimals c.places := by
  unfold body fields places
  cases c.second <;> simp [secondChars, decimals]

theorem splitOn_fields (c : WrittenClock) :
    Text.splitOn ':' c.fields =
      pair c.hour :: pair c.minute :: c.second.elim [] fun s => [pair s.1] := by
  have free (n : Fin 100) : ':' ∉ pair n := not_mem_digits rfl _
  unfold fields
  rw [Text.splitOn_piece (free _)]
  cases c.second with
  | none => simp [Text.splitOn_free (free _)]
  | some s => simp [Text.splitOn_piece (free _), Text.splitOn_free (free _)]

theorem dot_not_mem_fields (c : WrittenClock) : '.' ∉ c.fields := by
  have free (n : Fin 100) : '.' ∉ pair n := not_mem_digits rfl _
  unfold fields
  cases c.second <;> simp [free]

end WrittenClock

namespace DateLiteral

theorem timeOfDay_of?_eq_some_iff {hour minute second nano : Nat} {time : TimeOfDay} :
    TimeOfDay.of? hour minute second nano = some time ↔
      (hour < 24 ∧ minute < 60 ∧ second < 60 ∧ nano < 1000000000) ∧
        time.nanos = ((hour * 60 + minute) * 60 + second) * 1000000000 + nano := by
  unfold TimeOfDay.of?
  split
  case isTrue valid =>
    rw [Option.some.injEq, TimeOfDay.mk.injEq]
    simp [valid, eq_comm]
  case isFalse invalid => simp [invalid]

theorem splitOnce?_body (c : WrittenClock) :
    Text.splitOnce? '.' c.body =
      if c.places = [] then none else some (c.fields, digits c.places) := by
  rw [c.body_eq]
  cases c.places with
  | nil =>
      rw [decimals, List.append_nil, if_pos rfl]
      exact Text.splitOnce?_free c.dot_not_mem_fields
  | cons d ds =>
      rw [if_neg (List.cons_ne_nil d ds)]
      exact Line.splitOnce?_eq_some_iff.mpr ⟨rfl, c.dot_not_mem_fields⟩

theorem clock?_of_splitOffset? {c : WrittenClock} {offset : Option Int}
    (split : splitOffset? c.chars = some (c.body, offset)) :
    clock? c.chars =
      (TimeOfDay.of? c.hour c.minute c.seconds
        (fraction 9 c.places)).map fun time => (time, offset) := by
  have second : ((pair c.hour :: pair c.minute :: c.second.elim [] fun s => [pair s.1])[2]?).elim
      (some 0) number? = some c.seconds := by
    unfold WrittenClock.seconds
    cases c.second <;> simp
  unfold clock?
  simp only [split, Option.bind_eq_bind, Option.bind_some, splitOnce?_body]
  by_cases whole : c.places = []
  · have body : c.body = c.fields := by rw [c.body_eq, whole, decimals, List.append_nil]
    simp only [whole, if_true, body, Option.bind_some, c.splitOn_fields, second]
    simp [fraction, Option.map_eq_bind]
  · simp only [whole, if_false, nanos?_digits whole, Option.map_some, Option.bind_some,
      c.splitOn_fields, second]
    simp [Option.map_eq_bind]

theorem clock?_chars (c : WrittenClock) (time : TimeOfDay) (offset : Option Int) :
    clock? c.chars = some (time, offset) ↔
      c.Valid ∧ time.nanos = c.nanos ∧ offset = c.offset.map WrittenOffset.value := by
  have split := splitOffset?_chars c.plain_body c.offset
  have small : fraction 9 c.places < 1000000000 := fraction_lt 9 c.places
  by_cases offsetValid : ∀ o ∈ c.offset, o.Valid
  · rw [clock?_of_splitOffset? ((split _ _).mpr ⟨offsetValid, rfl, rfl⟩)]
    simp only [Option.map_eq_some_iff, timeOfDay_of?_eq_some_iff, Prod.mk.injEq]
    constructor
    · rintro ⟨time, ⟨⟨hour, minute, second, -⟩, value⟩, rfl, rfl⟩
      exact ⟨⟨by omega, by omega, by omega, offsetValid⟩, value, rfl⟩
    · rintro ⟨⟨hour, minute, second, -⟩, value, rfl⟩
      exact ⟨time, ⟨⟨by omega, by omega, by omega, small⟩, value⟩, rfl, rfl⟩
  · have unread : splitOffset? c.chars = none := by
      apply Option.eq_none_iff_forall_not_mem.mpr
      rintro ⟨clock, offset⟩ member
      exact offsetValid ((split _ _).mp member).1
    simp only [clock?, unread]
    constructor
    · intro read
      cases read
    · rintro ⟨valid, -⟩
      exact absurd valid.offset offsetValid

theorem date?_chars (d : WrittenDate) (date : Date) :
    date? d.chars = some date ↔ d.civil.isValid = true ∧ date.civil = d.civil := by
  have free (n : Fin 100) : '-' ∉ pair n := not_mem_digits rfl _
  have yearFree : '-' ∉ year d.year := by simp [year, free]
  have fields : Text.splitOn '-' d.chars =
      year d.year :: pair d.month :: d.day.elim [] fun day => [pair day] := by
    unfold WrittenDate.chars
    rw [Text.splitOn_piece yearFree]
    cases d.day with
    | none => simp [WrittenDate.dayChars, Text.splitOn_free (free _)]
    | some day =>
        simp [WrittenDate.dayChars, Text.splitOn_piece (free _), Text.splitOn_free (free _)]
  have day : ((year d.year :: pair d.month :: d.day.elim [] fun day => [pair day])[2]?).elim
      (some 1) number? = some (d.day.elim 1 fun day => day.val) := by
    cases d.day <;> simp
  unfold date?
  simp only [fields, day, Option.bind_eq_bind, Option.bind_some]
  simp only [List.getElem?_cons_zero, List.getElem?_cons_succ, Option.bind_some, number?_year,
    number?_pair]
  exact Date.ofCivil?_eq_some_iff

end DateLiteral
end ChartLint
