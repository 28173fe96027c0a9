import ChartLint.Proofs.Outcome
import ChartLint.Proofs.Time.Token
import ChartLint.Time.Expression.Basic

/-!
# The grammar of date expressions

A date expression is a base followed by signed counts of units. `Derives` is this grammar on tokens,
and texts are read exactly along it (`DateExpression.parse_eq_ok_iff`).
-/

namespace ChartLint

open Written

/-! ## Numbers and words -/

namespace WrittenNumber

def value (n : WrittenNumber) : Float :=
  Decimal.nearest (Decimal.natOfDigits (digits (n.first :: n.more ++ n.places))) (-n.places.length)

theorem readDigits?_chars (n : WrittenNumber) : Decimal.readDigits? n.chars = some n.value := by
  have whole : ∀ c ∈ digits (n.first :: n.more), c.isDigit = true := fun _ => isDigit_of_mem
  have places : ∀ c ∈ digits n.places, c.isDigit = true := fun _ => isDigit_of_mem
  have filled : (digits (n.first :: n.more)).isEmpty = false := rfl
  have all : digits (n.first :: n.more) ++ digits n.places =
      digits (n.first :: n.more ++ n.places) := by
    simp [digits]
  unfold Decimal.readDigits? chars value
  rw [← all]
  cases shown : n.places with
  | nil =>
      simp [decimals, List.takeWhile_eq_self_iff.mpr whole, List.dropWhile_eq_nil_iff.mpr whole,
        filled, Decimal.readExponent?]
  | cons d ds =>
      rw [shown] at places
      have before : (digits (n.first :: n.more) ++ '.' :: digits (d :: ds)).takeWhile Char.isDigit =
          digits (n.first :: n.more) := by
        rw [List.takeWhile_append_of_pos whole]
        simp
      have after : (digits (n.first :: n.more) ++ '.' :: digits (d :: ds)).dropWhile Char.isDigit =
          '.' :: digits (d :: ds) := by
        rw [List.dropWhile_append_of_pos whole]
        rfl
      simp [decimals, before, after, List.takeWhile_eq_self_iff.mpr places,
        List.dropWhile_eq_nil_iff.mpr places, filled, Decimal.readExponent?]

theorem splitSign_chars (n : WrittenNumber) : Decimal.splitSign n.chars = (false, n.chars) := by
  unfold Decimal.splitSign
  split
  case h_1 cs same => exact absurd (List.cons.inj same).1 (digit_ne rfl n.first)
  case h_2 cs same => exact absurd (List.cons.inj same).1 (digit_ne rfl n.first)
  case h_3 => rfl

theorem read?_chars (n : WrittenNumber) :
    Decimal.read? (String.ofList n.chars) = some n.value := by
  have plain : ∀ d : Fin 10, (digit d).toLower ≠ 'i' ∧ (digit d).toLower ≠ 'n' := by decide
  have other {word : String} (first : word.toList.head? = some 'i' ∨ word.toList.head? = some 'n') :
      String.ofList (Text.lower n.chars) ≠ word := by
    rintro rfl
    rw [String.toList_ofList] at first
    rcases first with same | same
    · exact (plain n.first).1 (Option.some.inj same)
    · exact (plain n.first).2 (Option.some.inj same)
  have magnitude : Decimal.readMagnitude? n.chars = some n.value := by
    unfold Decimal.readMagnitude?
    simp only [other (.inl rfl : "inf".toList.head? = some 'i' ∨ _),
      other (.inl rfl : "infinity".toList.head? = some 'i' ∨ _),
      other (.inr rfl : _ ∨ "nan".toList.head? = some 'n'), or_self, if_false]
    exact n.readDigits?_chars
  simp [Decimal.read?, splitSign_chars, magnitude]

end WrittenNumber

theorem CalendarKeyword.ofName?_eq_some_iff {name : String} {keyword : CalendarKeyword} :
    ofName? name = some keyword ↔ (name, keyword) ∈ table := by
  constructor
  · intro found
    obtain ⟨before, after, split, -⟩ := List.lookup_eq_some_iff.mp found
    rw [split]
    simp
  · have listed : ∀ entry ∈ table, ofName? entry.1 = some entry.2 := by decide +kernel
    exact listed (name, keyword)

/-! ## The grammar -/

def Sign.token : Sign → TimeToken
  | .plus => ⟨.plus, "+"⟩
  | .minus => ⟨.minus, "-"⟩

structure WrittenSummand where
  sign : Sign
  number : WrittenNumber
  star : Bool
  unit : TimeUnit
  plural : Bool

namespace WrittenSummand

def stars (star : Bool) : List TimeToken :=
  if star then [⟨.star, "*"⟩] else []

def word (unit : TimeUnit) (plural : Bool) : List Char :=
  unit.name.toList ++ (if plural then ['s'] else [])

def tokens (s : WrittenSummand) : List TimeToken :=
  s.sign.token :: ⟨.number, String.ofList s.number.chars⟩ ::
    (stars s.star ++ [⟨.word, String.ofList (word s.unit s.plural)⟩])

def value (s : WrittenSummand) : Summand :=
  ⟨s.sign, s.number.value, s.unit⟩

theorem ofName?_word (unit : TimeUnit) (plural : Bool) :
    TimeUnit.ofName? (word unit plural) = some unit := by
  cases plural <;> cases unit <;> decide

theorem exists_word {name : List Char} {unit : TimeUnit} (solid : Text.trim name = name)
    (found : TimeUnit.ofName? name = some unit) : ∃ plural, name = word unit plural := by
  unfold TimeUnit.ofName? at found
  rw [solid] at found
  have named := List.find?_some found
  simp only [Bool.or_eq_true, beq_iff_eq] at named
  rcases named with singular | whole
  · by_cases plural : name.getLast? = some 's'
    · rw [Text.dropLast?, if_pos plural, Option.getD_some] at singular
      refine ⟨true, ?_⟩
      rw [word, singular]
      exact (List.dropLast_append_getLast? 's' plural).symm
    · rw [Text.dropLast?, if_neg plural, Option.getD_none] at singular
      exact ⟨false, by simp [word, singular]⟩
  · exact ⟨false, by simp [word, whole]⟩

end WrittenSummand

namespace DateExpression

inductive BaseTokens : List TimeToken → DateBase → Prop where
  | keyword {name : String} {keyword : CalendarKeyword}
    (listed : (name, keyword) ∈ CalendarKeyword.table) :
    BaseTokens [⟨.word, name⟩] (.keyword keyword)
  | literal {w : WrittenLiteral} {l : DateLiteral} (valid : w.Valid)
    (shows : l.Shows w.civil w.clock) : BaseTokens w.tokens (.literal l)

def Derives (tokens : List TimeToken) (e : DateExpression) : Prop :=
  ∃ (base : List TimeToken) (summands : List WrittenSummand),
    tokens = base ++ summands.flatMap WrittenSummand.tokens ∧
    BaseTokens base e.base ∧ e.summands = summands.map WrittenSummand.value

/-! ## Reading signed counts -/

variable {tokens rest : List TimeToken}

theorem readCount_chars (sign : String) (n : WrittenNumber) :
    readCount sign (⟨.number, String.ofList n.chars⟩ :: rest) = .ok (n.value, rest) := by
  simp [readCount, n.read?_chars]

theorem exists_number {sign : String} {count : Float}
    (spelled : ∀ token ∈ tokens, token.Spelled) (read : readCount sign tokens = .ok (count, rest)) :
    ∃ n : WrittenNumber, tokens = ⟨.number, String.ofList n.chars⟩ :: rest ∧ count = n.value := by
  unfold readCount at read
  split at read
  case h_1 number after =>
    cases spelled _ (List.mem_cons_self ..) with
    | number n =>
        rw [n.read?_chars] at read
        cases read
        exact ⟨n, rfl, rfl⟩
  case h_2 => cases read

theorem readUnit_word (star : Bool) (unit : TimeUnit) (plural : Bool) :
    readUnit (skipStar (WrittenSummand.stars star ++
      ⟨.word, String.ofList (WrittenSummand.word unit plural)⟩ :: rest)) = .ok (unit, rest) := by
  cases star <;> simp [WrittenSummand.stars, skipStar, readUnit, WrittenSummand.ofName?_word]

theorem exists_stars (spelled : ∀ token ∈ tokens, token.Spelled) :
    ∃ star, tokens = WrittenSummand.stars star ++ skipStar tokens := by
  unfold skipStar
  split
  case h_1 text after =>
    cases spelled _ (List.mem_cons_self ..)
    exact ⟨true, rfl⟩
  case h_2 => exact ⟨false, rfl⟩

theorem trim_word {cs : List Char} (letters : ∀ c ∈ cs, TimeToken.inWord c = true) :
    Text.trim cs = cs := by
  have solid : Text.Solid cs := by
    apply Text.solid_of_forall
    intro c member
    have letter := letters c member
    simp only [TimeToken.inWord, Bool.or_eq_true, beq_iff_eq, ← Line.letter_iff] at letter
    rcases letter with letter | underscore
    · exact Line.isBlank_of_wordChar (.inl letter)
    · exact Line.isBlank_of_wordChar (.inr (.inr (.inl underscore)))
  simpa using @Text.trim_of_split [] cs [] (by simp) solid (by simp)

theorem exists_word {unit : TimeUnit} (spelled : ∀ token ∈ tokens, token.Spelled)
    (read : readUnit tokens = .ok (unit, rest)) :
    ∃ plural, tokens = ⟨.word, String.ofList (WrittenSummand.word unit plural)⟩ :: rest := by
  unfold readUnit at read
  split at read
  case h_1 => cases read
  case h_2 word after =>
    cases spelled _ (List.mem_cons_self ..) with
    | word filled letters =>
        rw [String.toList_ofList] at read
        split at read
        case h_1 found =>
          cases read
          obtain ⟨plural, rfl⟩ := WrittenSummand.exists_word (trim_word letters) found
          exact ⟨plural, rfl⟩
        case h_2 => cases read
  case h_3 => cases read

theorem readSummands_tokens (summands : List WrittenSummand) :
    readSummands (summands.flatMap WrittenSummand.tokens) =
      .ok (summands.map WrittenSummand.value) := by
  induction summands with
  | nil => simp [readSummands]
  | cons s summands ih =>
      have sign : sign? s.sign.token.kind = some s.sign := by cases s.sign <;> rfl
      rw [List.flatMap_cons, WrittenSummand.tokens, List.cons_append, List.cons_append,
        List.append_assoc, List.singleton_append, readSummands]
      simp only [sign]
      split
      case h_1 failed =>
        rw [readCount_chars] at failed
        cases failed
      case h_2 counted =>
        rw [readCount_chars] at counted
        cases counted
        split
        case h_1 failed =>
          rw [readUnit_word] at failed
          cases failed
        case h_2 united =>
          rw [readUnit_word] at united
          cases united
          rw [ih]
          rfl

theorem eq_token {token : TimeToken} {sign : Sign} (spelled : token.Spelled)
    (signed : sign? token.kind = some sign) : token = sign.token := by
  cases spelled <;> cases signed <;> rfl

theorem exists_summands {summands : List Summand} (spelled : ∀ token ∈ tokens, token.Spelled)
    (read : readSummands tokens = .ok summands) :
    ∃ written : List WrittenSummand, tokens = written.flatMap WrittenSummand.tokens ∧
      summands = written.map WrittenSummand.value := by
  fun_induction readSummands tokens generalizing summands with
  | case1 =>
      cases read
      exact ⟨[], rfl, rfl⟩
  | case2 => cases read
  | case3 => cases read
  | case4 => cases read
  | case5 token tokens sign signed count afterCount counted unit rest united ih =>
      -- The tokens of a count come off one by one, and with each what is known of its spelling.
      obtain ⟨first, spelled⟩ := List.forall_mem_cons.mp spelled
      obtain ⟨n, rfl, rfl⟩ := exists_number spelled counted
      obtain ⟨-, spelled⟩ := List.forall_mem_cons.mp spelled
      obtain ⟨star, starred⟩ := exists_stars spelled
      rw [starred, List.forall_mem_append] at spelled
      obtain ⟨plural, worded⟩ := exists_word spelled.2 united
      rw [worded, List.forall_mem_cons] at spelled
      cases others : readSummands rest with
      | error e =>
          rw [others] at read
          cases read
      | ok more =>
          rw [others] at read
          cases read
          obtain ⟨written, rfl, rfl⟩ := ih spelled.2.2 others
          refine ⟨⟨sign, n, star, unit, plural⟩ :: written, ?_, rfl⟩
          rw [starred, worded, eq_token first signed]
          simp [WrittenSummand.tokens]

/-! ## Reading a base -/

theorem readBase_date (date : String) (untimed : ∀ token ∈ rest.head?, token.kind ≠ .time) :
    readBase (⟨.date, date⟩ :: rest) =
      (do return (.literal (← DateLiteral.ofDate date none), rest)) := by
  cases rest with
  | nil => rfl
  | cons token more =>
      obtain ⟨kind, text⟩ := token
      have other := untimed _ rfl
      cases kind with
      | time => exact absurd rfl other
      | _ => rfl

theorem literal_eq_ok_iff {read : Except TimeError DateLiteral} {b : DateBase}
    {after : List TimeToken} :
    (do return (.literal (← read), rest)) = Except.ok (b, after) ↔
      after = rest ∧ ∃ l, b = .literal l ∧ read = .ok l := by
  cases read with
  | error e => simp [bind, Except.bind]
  | ok l => simp [bind, Except.bind, pure, Except.pure, eq_comm, and_comm]

theorem readBase_literal {w : WrittenLiteral} {b : DateBase} {after : List TimeToken}
    (untimed : ∀ token ∈ rest.head?, token.kind ≠ .time) :
    readBase (w.tokens ++ rest) = .ok (b, after) ↔
      after = rest ∧ ∃ l, b = .literal l ∧ w.Valid ∧ l.Shows w.civil w.clock := by
  cases w with
  | year y =>
      rw [WrittenLiteral.tokens, List.singleton_append, readBase, literal_eq_ok_iff]
      simp [DateLiteral.ofYear_chars, WrittenLiteral.civil, WrittenLiteral.clock]
  | date d =>
      rw [WrittenLiteral.tokens, List.singleton_append, readBase_date _ untimed, literal_eq_ok_iff]
      simp [DateLiteral.ofDate_chars, WrittenLiteral.civil, WrittenLiteral.clock]
  | stamp y month day c =>
      rw [WrittenLiteral.tokens, List.singleton_append, readBase_date _ untimed, literal_eq_ok_iff]
      simp only [DateLiteral.ofDate_stamp, WrittenLiteral.valid_stamp, WrittenLiteral.civil,
        WrittenLiteral.clock]
  | dateTime d c =>
      rw [WrittenLiteral.tokens, List.cons_append, List.singleton_append, readBase,
        literal_eq_ok_iff]
      simp [DateLiteral.ofDate_time, WrittenLiteral.civil, WrittenLiteral.clock]
  | time c =>
      rw [WrittenLiteral.tokens, List.singleton_append, readBase, literal_eq_ok_iff]
      simp [DateLiteral.ofTime_chars, WrittenLiteral.civil, WrittenLiteral.clock]

theorem readBase_tokens {base : List TimeToken} {b : DateBase} (derived : BaseTokens base b)
    (untimed : ∀ token ∈ rest.head?, token.kind ≠ .time) :
    readBase (base ++ rest) = .ok (b, rest) := by
  cases derived with
  | keyword listed => simp [readBase, CalendarKeyword.ofName?_eq_some_iff.mpr listed]
  | literal valid shows => exact (readBase_literal untimed).mpr ⟨rfl, _, rfl, valid, shows⟩

theorem exists_base {b : DateBase} (spelled : ∀ token ∈ tokens, token.Spelled)
    (read : readBase tokens = .ok (b, rest)) :
    ∃ base, tokens = base ++ rest ∧ BaseTokens base b := by
  unfold readBase at read
  split at read
  case h_1 => cases read
  case h_2 word after =>
    split at read
    case h_1 keyword found =>
      cases read
      exact ⟨_, rfl, .keyword (CalendarKeyword.ofName?_eq_some_iff.mp found)⟩
    case h_2 => cases read
  case h_3 date time after =>
    obtain ⟨rfl, l, rfl, found⟩ := literal_eq_ok_iff.mp read
    rw [List.forall_mem_cons, List.forall_mem_cons] at spelled
    obtain ⟨dated, timed, -⟩ := spelled
    cases timed with
    | time c =>
        cases dated with
        | date d =>
            obtain ⟨valid, shows⟩ := (DateLiteral.ofDate_time d c l).mp found
            exact ⟨_, rfl, .literal (w := .dateTime d c) (by simpa using valid) shows⟩
        | stamp y month day clock =>
            -- The date has its time already.
            rw [DateLiteral.ofDate_stamp_time] at found
            cases found
  case h_4 date after untimed =>
    obtain ⟨rfl, l, rfl, found⟩ := literal_eq_ok_iff.mp read
    cases spelled _ (List.mem_cons_self ..) with
    | date d =>
        obtain ⟨valid, shows⟩ := (DateLiteral.ofDate_chars d l).mp found
        exact ⟨_, rfl, .literal (w := .date d) (by simpa using valid) shows⟩
    | stamp y month day c =>
        obtain ⟨valid, shows⟩ := (DateLiteral.ofDate_stamp ⟨y, month, day⟩ c l).mp found
        exact ⟨_, rfl, .literal (w := .stamp y month day c) (by simpa using valid) shows⟩
  case h_5 time after =>
    obtain ⟨rfl, l, rfl, found⟩ := literal_eq_ok_iff.mp read
    cases spelled _ (List.mem_cons_self ..) with
    | time c =>
        obtain ⟨valid, shows⟩ := (DateLiteral.ofTime_chars c l).mp found
        exact ⟨_, rfl, .literal (w := .time c) (by simpa using valid) shows⟩
  case h_6 number after =>
    obtain ⟨rfl, l, rfl, found⟩ := literal_eq_ok_iff.mp read
    cases spelled _ (List.mem_cons_self ..) with
    | number n =>
        obtain ⟨y, same⟩ := DateLiteral.exists_year_of_ofYear found
        rw [same] at found ⊢
        exact ⟨_, rfl, .literal (w := .year y) (by simp) ((DateLiteral.ofYear_chars y l).mp found)⟩
  case h_7 => cases read

theorem head_summands_ne_time (summands : List WrittenSummand) :
    ∀ token ∈ (summands.flatMap WrittenSummand.tokens).head?, token.kind ≠ .time := by
  intro token first
  cases summands with
  | nil => cases first
  | cons s summands =>
      cases first
      cases s.sign <;> decide

/-! ## Reading a text -/

theorem parse_eq_ok_iff_steps {text : String} {e : DateExpression} :
    parse text = .ok e ↔
      ∃ tokens rest, TimeToken.scan (Text.lower (Text.trim text.toList)) = .ok tokens ∧
        readBase tokens = .ok (e.base, rest) ∧ readSummands rest = .ok e.summands := by
  rw [parse, TimeToken.tokenize, normal, String.toList_ofList]
  simp only [bind_eq_ok_iff, pure, Except.pure, Except.ok.injEq, Prod.exists]
  constructor
  · rintro ⟨tokens, scanned, base, rest, based, summands, summed, rfl⟩
    exact ⟨tokens, rest, scanned, based, summed⟩
  · rintro ⟨tokens, rest, scanned, based, summed⟩
    exact ⟨tokens, scanned, _, rest, based, _, summed, rfl⟩

/-- A text is read as an expression exactly if its tokens, without outer blanks and in lower case,
are those of a base followed by signed counts. -/
theorem parse_eq_ok_iff (text : String) (e : DateExpression) :
    parse text = .ok e ↔
      ∃ tokens, TimeToken.scan (Text.lower (Text.trim text.toList)) = .ok tokens ∧
        Derives tokens e := by
  rw [parse_eq_ok_iff_steps]
  constructor
  · rintro ⟨tokens, rest, scanned, based, summed⟩
    have spelled := TimeToken.spelled_of_scan scanned
    obtain ⟨base, rfl, derived⟩ := exists_base spelled based
    have spelledRest := (List.forall_mem_append.mp spelled).2
    obtain ⟨summands, rfl, values⟩ := exists_summands spelledRest summed
    exact ⟨_, scanned, base, summands, rfl, derived, values⟩
  · rintro ⟨tokens, scanned, base, summands, rfl, derived, values⟩
    refine ⟨_, summands.flatMap WrittenSummand.tokens, scanned, ?_, ?_⟩
    · exact readBase_tokens derived (head_summands_ne_time summands)
    · rw [values]
      exact readSummands_tokens summands

end DateExpression
end ChartLint
