import ChartLint.Proofs.Time.TokenPattern

/-!
# The longest token at each place

A text is cut into tokens and gaps, each of which is the longest beginning of what is left that is
in any pattern (`TimeToken.Munched`). There is such a cut for every text, up to its end or to a
place where nothing fits (`TimeToken.exists_pieces`), and scanning follows it
(`TimeToken.scan_pieces`). Hence scanning gives the tokens of the cut, and fails exactly where
nothing fits (`TimeToken.tokenize_longest`).
-/

namespace ChartLint.TimeToken

open Written

/-! ## No pattern has more -/

theorem length_le_takeWhile {p : Char → Bool} {cs : List Char} (all : ∀ c ∈ cs, p c = true)
    (rest : List Char) : cs.length ≤ ((cs ++ rest).takeWhile p).length := by
  rw [List.takeWhile_append_of_pos all, List.length_append]
  exact Nat.le_add_right _ _

theorem le_decimalsLength (ds : List (Fin 10)) (rest : List Char) :
    (decimals ds).length ≤ decimalsLength (decimals ds ++ rest) := by
  cases ds with
  | nil => exact Nat.zero_le _
  | cons d ds =>
      have le : (digits (d :: ds)).length ≤ _ := length_le_takeWhile (fun _ => isDigit_of_mem) rest
      rw [length_digits, List.length_cons] at le
      rw [decimals, List.cons_append, decimalsLength_eq, if_neg (by omega), List.length_cons,
        length_digits, List.length_cons]
      omega

theorem le_secondsLength (s : Option (Fin 100 × List (Fin 10))) (rest : List Char) :
    (WrittenClock.secondChars s).length ≤ secondsLength (WrittenClock.secondChars s ++ rest) := by
  cases s with
  | none => exact Nat.zero_le _
  | some s =>
      have le := le_decimalsLength s.2 rest
      rw [WrittenClock.secondChars, List.cons_append, List.append_assoc, secondsLength_pair,
        List.length_cons, List.length_append, length_pair]
      omega

theorem le_timeLength (c : WrittenClock) (rest : List Char) :
    c.chars.length ≤ timeLength (c.chars ++ rest) := by
  obtain ⟨hour, minute, second, offset⟩ := c
  have split : WrittenClock.chars ⟨hour, minute, second, offset⟩ ++ rest =
      pair hour ++ ':' :: (pair minute ++
        (WrittenClock.secondChars second ++ (WrittenClock.offsetChars offset ++ rest))) := by
    simp [WrittenClock.chars, WrittenClock.body]
  have length : (WrittenClock.chars ⟨hour, minute, second, offset⟩).length =
      5 + (WrittenClock.secondChars second).length + (WrittenClock.offsetChars offset).length := by
    simp only [WrittenClock.chars, WrittenClock.body, List.length_append, List.length_cons,
      length_pair]
    omega
  rw [split, timeLength_pair, length]
  cases offset with
  | none =>
      have le := le_secondsLength second rest
      rw [WrittenClock.offsetChars, List.nil_append, List.length_nil]
      omega
  | some o =>
      -- A sign or `z` ends the decimals, so the seconds are read as they are written.
      rw [WrittenClock.offsetChars, secondsLength_chars (stops_chars o rest), List.drop_left,
        offsetLength_offset]

theorem le_dayLength (day : Option (Fin 100)) (rest : List Char) :
    (WrittenDate.dayChars day).length ≤ dayLength (WrittenDate.dayChars day ++ rest) := by
  cases day with
  | none => exact Nat.zero_le _
  | some day =>
      rw [WrittenDate.dayChars, List.cons_append, dayLength_pair, List.length_cons, length_pair]
      exact Nat.le_add_right _ _

theorem le_dateLength (d : WrittenDate) (rest : List Char) :
    d.chars.length ≤ dateLength (d.chars ++ rest) := by
  have le := le_dayLength d.day rest
  rw [WrittenDate.chars, List.append_assoc, List.cons_append, List.append_assoc, dateLength_pair]
  simp only [List.length_append, List.length_cons, length_year, length_pair]
  omega

theorem le_dateLength_stamp (y : Fin 10000) (month day : Fin 100) (c : WrittenClock)
    (rest : List Char) :
    (WrittenDate.chars ⟨y, month, day⟩ ++ 't' :: c.chars).length ≤
      dateLength ((WrittenDate.chars ⟨y, month, day⟩ ++ 't' :: c.chars) ++ rest) := by
  have split : (WrittenDate.chars ⟨y, month, day⟩ ++ 't' :: c.chars) ++ rest =
      year y ++ '-' :: (pair month ++ '-' :: (pair day ++ 't' :: (c.chars ++ rest))) := by
    simp [WrittenDate.chars, WrittenDate.dayChars]
  have le := le_timeLength c rest
  have filled : 0 < c.chars.length := Nat.zero_lt_succ _
  rw [split, dateLength_pair, dayLength_pair, inlineTimeLength_clock (by omega)]
  simp only [WrittenDate.chars, WrittenDate.dayChars, List.length_append, List.length_cons,
    length_year, length_pair]
  omega

theorem numberLength_digits {whole rest : List Char} (filled : whole ≠ [])
    (digits : ∀ c ∈ whole, c.isDigit = true) (stop : rest.takeWhile Char.isDigit = []) :
    numberLength (whole ++ rest) = whole.length + decimalsLength rest := by
  have first : (whole ++ rest).takeWhile Char.isDigit = whole := by
    rw [List.takeWhile_append_of_pos digits, stop, List.append_nil]
  have positive : whole.length ≠ 0 := List.length_eq_zero_iff.not.mpr filled
  rw [numberLength, first, if_neg positive, List.drop_left]

theorem le_numberLength (n : WrittenNumber) (rest : List Char) :
    n.chars.length ≤ numberLength (n.chars ++ rest) := by
  obtain ⟨first, more, places⟩ := n
  have filled : digits (first :: more) ≠ [] := List.cons_ne_nil _ _
  change (digits (first :: more) ++ decimals places).length ≤
    numberLength (digits (first :: more) ++ decimals places ++ rest)
  rw [List.append_assoc, List.length_append]
  cases places with
  | nil =>
      have le : (digits (first :: more)).length ≤ _ :=
        length_le_takeWhile (fun _ => isDigit_of_mem) rest
      have positive := List.length_pos_iff.mpr filled
      rw [decimals, List.nil_append, numberLength, if_neg (by omega), List.length_nil]
      omega
  | cons d ds =>
      rw [numberLength_digits filled (fun _ => isDigit_of_mem) rfl]
      exact Nat.add_le_add_left (le_decimalsLength (d :: ds) rest) _

theorem isDigit_of_inWord {c : Char} (letter : inWord c = true) : c.isDigit = false := by
  rw [Bool.eq_false_iff, Ne, ← Line.digit_iff]
  rintro ⟨-, le⟩
  rcases (inWord_iff c).mp letter with ⟨ge, -⟩ | rfl
  · exact absurd (Char.le_trans ge le) (by decide)
  · exact absurd le (by decide)

theorem longest?_word {c : Char} {cs : List Char} (letter : inWord c = true) :
    longest? (c :: cs) = some (.word, ((c :: cs).takeWhile inWord).length) := by
  simp [longest?, isDigit_of_inWord letter, letter]

theorem numberLength_lt_dateLength {cs : List Char} (dated : dateLength cs ≠ 0) :
    numberLength cs < dateLength cs := by
  obtain ⟨y, month, rest, rfl⟩ := exists_date dated
  have number : numberLength (year y ++ '-' :: (pair month ++ rest)) = 4 :=
    numberLength_digits (List.cons_ne_nil _ _) (List.all_eq_true.mp (all_year y)) rfl
  rw [number, dateLength_pair]
  omega

theorem numberLength_lt_timeLength {cs : List Char} (timed : timeLength cs ≠ 0) :
    numberLength cs < timeLength cs := by
  obtain ⟨hour, minute, rest, rfl⟩ := exists_fields timed
  have number : numberLength (pair hour ++ ':' :: (pair minute ++ rest)) = 2 :=
    numberLength_digits (List.cons_ne_nil _ _) (fun _ => isDigit_of_mem) rfl
  rw [number, timeLength_pair]
  omega

theorem exists_longest? {token : TimeToken} (spelled : Spelled token) (rest : List Char) :
    ∃ kind n, longest? (token.text.toList ++ rest) = some (kind, n) ∧
      token.text.toList.length ≤ n ∧ (kind ≠ token.kind → token.text.toList.length < n) := by
  cases spelled with
  | date d =>
      rw [String.toList_ofList]
      have le := le_dateLength d rest
      have dated : dateLength (d.chars ++ rest) ≠ 0 := (Nat.zero_lt_succ _).trans_le le |>.ne'
      exact ⟨.date, _, longest?_date (isDigit_digit _) dated, le, absurd rfl⟩
  | stamp y month day c =>
      rw [String.toList_ofList]
      have le := le_dateLength_stamp y month day c rest
      have dated : dateLength (WrittenDate.chars ⟨y, month, day⟩ ++ 't' :: c.chars ++ rest) ≠ 0 :=
        (Nat.zero_lt_succ _).trans_le le |>.ne'
      exact ⟨.date, _, longest?_date (isDigit_digit _) dated, le, absurd rfl⟩
  | time c =>
      rw [String.toList_ofList]
      have le := le_timeLength c rest
      have timed : timeLength (c.chars ++ rest) ≠ 0 := (Nat.zero_lt_succ _).trans_le le |>.ne'
      exact ⟨.time, _, longest?_time (isDigit_digit _) (dateLength_clock c rest) timed, le,
        absurd rfl⟩
  | number n =>
      rw [String.toList_ofList]
      have le := le_numberLength n rest
      by_cases undated : dateLength (n.chars ++ rest) = 0
      · by_cases untimed : timeLength (n.chars ++ rest) = 0
        · exact ⟨.number, _, longest?_number (isDigit_digit _) undated untimed, le, absurd rfl⟩
        · have lt := le.trans_lt (numberLength_lt_timeLength untimed)
          exact ⟨.time, _, longest?_time (isDigit_digit _) undated untimed, lt.le, fun _ => lt⟩
      · have lt := le.trans_lt (numberLength_lt_dateLength undated)
        exact ⟨.date, _, longest?_date (isDigit_digit _) undated, lt.le, fun _ => lt⟩
  | word filled letters =>
      rw [String.toList_ofList]
      obtain ⟨c, cs, rfl⟩ := List.exists_cons_of_ne_nil filled
      have letter := letters c (List.mem_cons_self ..)
      exact ⟨.word, _, longest?_word letter, length_le_takeWhile letters rest, absurd rfl⟩
  | plus => exact ⟨.plus, 1, rfl, Nat.le_refl 1, absurd rfl⟩
  | minus => exact ⟨.minus, 1, rfl, Nat.le_refl 1, absurd rfl⟩
  | star => exact ⟨.star, 1, rfl, Nat.le_refl 1, absurd rfl⟩

/-! ## Cutting a text -/

inductive Piece where
  | gap (text : List Char)
  | token (token : TimeToken)

namespace Piece

def chars : Piece → List Char
  | gap text => text
  | token t => t.text.toList

def token? : Piece → Option TimeToken
  | gap _ => none
  | token t => some t

def Fits : Piece → Prop
  | gap text => text ∈ Form.gap
  | token t => t.text.toList ∈ t.kind.pattern

def Longest (p : Piece) (text : List Char) : Prop :=
  ∀ q : Piece, q.Fits → q.chars <+: text → q.chars.length ≤ p.chars.length

end Piece

/-- The pieces, with a rest after them, are the longest that fit, each at its place. -/
def Munched (rest : List Char) : List Piece → Prop
  | [] => True
  | p :: pieces => p.Fits ∧ p.Longest (p.chars ++ (pieces.flatMap Piece.chars ++ rest)) ∧
      Munched rest pieces

def Stuck (text : List Char) : Prop :=
  text ≠ [] ∧ ∀ q : Piece, q.Fits → q.chars ≠ [] → ¬ q.chars <+: text

namespace Piece

theorem fits_token_iff {t : TimeToken} : (token t).Fits ↔ Spelled t := by
  constructor
  · intro fits
    have spelled := spelled_of_mem_pattern fits
    rwa [String.ofList_toList] at spelled
  · exact Spelled.mem_pattern

theorem Fits.filled {p : Piece} (fits : p.Fits) : p.chars ≠ [] := by
  cases p with
  | gap text => exact (Form.mem_gap.mp fits).1
  | token t => exact (fits_token_iff.mp fits).filled

/-- At a blank the longest piece is the gap up to the next character that is none, elsewhere it is
the longest token. -/
theorem Fits.bounded {p : Piece} (fits : p.Fits) {c : Char} {cs : List Char}
    (starts : p.chars <+: c :: cs) :
    (Text.isGap c = true ∧ p.chars.length ≤ ((c :: cs).takeWhile Text.isGap).length) ∨
      Text.isGap c = false ∧
        ∃ kind n, longest? (c :: cs) = some (kind, n) ∧ p.chars.length ≤ n := by
  obtain ⟨rest, split⟩ := starts
  cases p with
  | gap text =>
      obtain ⟨filled, blank⟩ := Form.mem_gap.mp fits
      obtain ⟨d, text, rfl⟩ := List.exists_cons_of_ne_nil filled
      obtain ⟨rfl, -⟩ := List.cons.inj split
      rw [← split]
      exact .inl ⟨blank d (List.mem_cons_self ..), length_le_takeWhile blank rest⟩
  | token t =>
      obtain ⟨kind, n, found, le, -⟩ := exists_longest? (fits_token_iff.mp fits) rest
      change longest? (chars (token t) ++ rest) = _ at found
      rw [split] at found
      exact .inr ⟨not_isGap_of_longest? found, kind, n, found, le⟩

end Piece

theorem exists_piece (cs : List Char) :
    cs = [] ∨ Stuck cs ∨
      ∃ (p : Piece) (rest : List Char), cs = p.chars ++ rest ∧ p.Fits ∧ p.Longest cs := by
  cases cs with
  | nil => exact .inl rfl
  | cons c cs =>
      apply Or.inr
      by_cases gap : Text.isGap c = true
      · refine .inr ⟨.gap ((c :: cs).takeWhile Text.isGap), (c :: cs).dropWhile Text.isGap,
          List.takeWhile_append_dropWhile.symm, ?_, ?_⟩
        · refine Form.mem_gap.mpr ⟨?_, fun _ => List.mem_takeWhile_imp⟩
          rw [List.takeWhile_cons_of_pos gap]
          exact List.cons_ne_nil _ _
        · intro q fits starts
          rcases fits.bounded starts with ⟨-, le⟩ | ⟨solid, -⟩
          · exact le
          · rw [gap] at solid
            cases solid
      · cases found : longest? (c :: cs) with
        | none =>
            refine .inl ⟨List.cons_ne_nil _ _, ?_⟩
            intro q fits filled starts
            rcases fits.bounded starts with ⟨blank, -⟩ | ⟨-, kind, n, some, -⟩
            · exact gap blank
            · rw [found] at some
              cases some
        | some found' =>
            obtain ⟨text, rest, split, length, spelled⟩ := spelled_of_longest? found
            refine .inr ⟨.token ⟨found'.1, String.ofList text⟩, rest, ?_,
              Piece.fits_token_iff.mpr spelled, ?_⟩
            · rw [split, Piece.chars, String.toList_ofList]
            · intro q fits starts
              rcases fits.bounded starts with ⟨blank, -⟩ | ⟨-, kind, n, some, le⟩
              · exact absurd blank gap
              · rw [found] at some
                cases some
                rw [Piece.chars, String.toList_ofList, ← length]
                exact le

theorem scan_piece {p : Piece} {rest : List Char} (fits : p.Fits)
    (longest : p.Longest (p.chars ++ rest)) :
    scan (p.chars ++ rest) = (scan rest).map (p.token?.toList ++ ·) := by
  cases p with
  | gap text =>
      rw [Piece.chars, scan_gap (Form.mem_gap.mp fits).2]
      cases scan rest <;> rfl
  | token t =>
      have spelled := Piece.fits_token_iff.mp fits
      obtain ⟨kind, n, found, le, lt⟩ := exists_longest? spelled rest
      obtain ⟨text, after, split, rfl, other⟩ := spelled_of_longest? found
      have ge := longest (.token ⟨kind, String.ofList text⟩) (Piece.fits_token_iff.mpr other)
      rw [Piece.chars, Piece.chars, String.toList_ofList] at ge
      have ge := ge ⟨after, split.symm⟩
      obtain rfl : kind = t.kind := by
        by_contra different
        exact absurd (lt different) (Nat.not_lt.mpr ge)
      rw [Nat.le_antisymm ge le] at found
      have scanned := scan_of_longest? spelled.filled found
      rw [String.ofList_toList] at scanned
      exact scanned

theorem scan_pieces {pieces : List Piece} {rest : List Char} (munched : Munched rest pieces) :
    scan (pieces.flatMap Piece.chars ++ rest) =
      (scan rest).map (pieces.filterMap Piece.token? ++ ·) := by
  induction pieces with
  | nil =>
      rw [List.flatMap_nil, List.nil_append]
      cases scan rest <;> rfl
  | cons p pieces ih =>
      obtain ⟨fits, longest, more⟩ := munched
      rw [List.flatMap_cons, List.append_assoc, scan_piece fits longest, ih more]
      cases scan rest with
      | error e => rfl
      | ok tokens => cases p <;> rfl

theorem scan_stuck {c : Char} {rest : List Char} (stuck : Stuck (c :: rest)) :
    scan (c :: rest) = .error (.unexpectedToken (String.ofList [c])) := by
  have solid : ¬ Text.isGap c = true := by
    intro gap
    have fits : (Piece.gap [c]).Fits := by
      apply Form.mem_gap.mpr
      exact ⟨List.cons_ne_nil _ _, List.forall_mem_singleton.mpr gap⟩
    exact stuck.2 _ fits (List.cons_ne_nil _ _) ⟨rest, rfl⟩
  have none : longest? (c :: rest) = none := by
    by_contra found
    obtain ⟨⟨kind, n⟩, found⟩ := Option.ne_none_iff_exists'.mp found
    obtain ⟨text, after, split, -, spelled⟩ := spelled_of_longest? found
    have fits := Piece.fits_token_iff.mpr spelled
    refine stuck.2 _ fits fits.filled ⟨after, ?_⟩
    rw [split, Piece.chars, String.toList_ofList]
  rw [scan, if_neg solid, none]

theorem scan_munched {pieces : List Piece} (munched : Munched [] pieces) :
    scan (pieces.flatMap Piece.chars) = .ok (pieces.filterMap Piece.token?) := by
  have scanned := scan_pieces munched
  rw [List.append_nil, scan] at scanned
  rw [scanned, Except.map, List.append_nil]

theorem scan_munched_stuck {pieces : List Piece} {c : Char} {rest : List Char}
    (munched : Munched (c :: rest) pieces) (stuck : Stuck (c :: rest)) :
    scan (pieces.flatMap Piece.chars ++ c :: rest) =
      .error (.unexpectedToken (String.ofList [c])) := by
  rw [scan_pieces munched, scan_stuck stuck]
  rfl

theorem exists_pieces (cs : List Char) :
    ∃ pieces rest, cs = pieces.flatMap Piece.chars ++ rest ∧ Munched rest pieces ∧
      (rest = [] ∨ Stuck rest) := by
  induction length : cs.length using Nat.strong_induction_on generalizing cs with
  | _ n ih =>
    rcases exists_piece cs with rfl | stuck | ⟨p, after, rfl, fits, longest⟩
    · exact ⟨[], [], rfl, trivial, .inl rfl⟩
    · exact ⟨[], cs, rfl, trivial, .inr stuck⟩
    · have shorter : after.length < n := by
        have := List.length_pos_iff.mpr fits.filled
        rw [List.length_append] at length
        omega
      obtain ⟨pieces, rest, rfl, munched, stops⟩ := ih _ shorter after rfl
      refine ⟨p :: pieces, rest, ?_, ⟨fits, longest, munched⟩, stops⟩
      rw [List.flatMap_cons, List.append_assoc]

theorem scan_cases (cs : List Char) :
    (∃ pieces, cs = pieces.flatMap Piece.chars ∧ Munched [] pieces ∧
      scan cs = .ok (pieces.filterMap Piece.token?)) ∨
    ∃ pieces c rest, cs = pieces.flatMap Piece.chars ++ c :: rest ∧ Munched (c :: rest) pieces ∧
      Stuck (c :: rest) ∧ scan cs = .error (.unexpectedToken (String.ofList [c])) := by
  obtain ⟨pieces, rest, rfl, munched, stops⟩ := exists_pieces cs
  rcases stops with rfl | stuck
  · rw [List.append_nil]
    exact .inl ⟨pieces, rfl, munched, scan_munched munched⟩
  · obtain ⟨c, rest, rfl⟩ := List.exists_cons_of_ne_nil stuck.1
    exact .inr ⟨pieces, c, rest, rfl, munched, stuck, scan_munched_stuck munched stuck⟩

/-- The tokens of a text are those of the cut into longest pieces; there are none if the cut gets
stuck, and then the character at that place is reported. -/
theorem tokenize_longest (text : String) :
    (∀ tokens, tokenize text = .ok tokens ↔
      ∃ pieces, text.toList = pieces.flatMap Piece.chars ∧ Munched [] pieces ∧
        tokens = pieces.filterMap Piece.token?) ∧
    ∀ e, tokenize text = .error e ↔
      ∃ pieces c rest, text.toList = pieces.flatMap Piece.chars ++ c :: rest ∧
        Munched (c :: rest) pieces ∧ Stuck (c :: rest) ∧
          e = .unexpectedToken (String.ofList [c]) := by
  unfold tokenize
  constructor
  · intro tokens
    constructor
    · intro scanned
      rcases scan_cases text.toList with ⟨pieces, whole, munched, ok⟩ | ⟨_, _, _, _, _, _, failed⟩
      · rw [ok, Except.ok.injEq] at scanned
        exact ⟨pieces, whole, munched, scanned.symm⟩
      · cases failed.symm.trans scanned
    · rintro ⟨pieces, whole, munched, rfl⟩
      rw [whole, scan_munched munched]
  · intro e
    constructor
    · intro scanned
      rcases scan_cases text.toList with
        ⟨_, _, _, ok⟩ | ⟨pieces, c, rest, whole, munched, stuck, failed⟩
      · cases ok.symm.trans scanned
      · rw [failed, Except.error.injEq] at scanned
        exact ⟨pieces, c, rest, whole, munched, stuck, scanned.symm⟩
    · rintro ⟨pieces, c, rest, whole, munched, stuck, rfl⟩
      rw [whole, scan_munched_stuck munched stuck]

end ChartLint.TimeToken
