import ChartLint.Proofs.Time.RoundTrip
import ChartLint.Time.Interval

/-!
# Intervals as signed counts

What can be added to the clock as one count of a unit is an interval with the same count and unit
(`IntervalValue.parse_of_plus`). An expression is read by tokens and an interval by cutting off its
digits, so the proof goes through the text itself: the tokens of a text stand in it one after
another, with gaps between them (`TimeToken.spaced_of_scan`).
-/

namespace ChartLint

open Written

namespace Text

theorem trim_append {front : List Char} (solid : Solid front) (filled : front ≠ [])
    (cs : List Char) : ∃ piece, trim (front ++ cs) = front ++ piece ∧ trim piece = trim cs := by
  by_cases empty : trim cs = []
  · refine ⟨[], ?_, ?_⟩
    · simpa using @trim_of_split [] front cs (by simp) solid ((trim_eq_nil_iff cs).mp empty)
    · rw [empty]
      rfl
  · have before : ∀ c ∈ cs.takeWhile isBlank, isBlank c = true :=
      fun _ member => List.mem_takeWhile_imp member
    have after : ∀ c ∈ (cs.dropWhile isBlank).rtakeWhile isBlank, isBlank c = true :=
      fun _ member => List.mem_rtakeWhile_imp member
    have whole := solid.around (solid_trim cs) filled empty (cs.takeWhile isBlank)
    refine ⟨cs.takeWhile isBlank ++ trim cs, ?_, ?_⟩
    · have cut := @trim_of_split [] _ _ (by simp) whole after
      rw [List.nil_append, List.append_assoc, ← trim_split] at cut
      exact cut
    · simpa using @trim_of_split _ _ [] before (solid_trim cs) (by simp)

end Text

/-! ## Tokens in a text -/

namespace TimeToken

def Spaced : List TimeToken → List Char → Prop
  | [], cs => ∀ c ∈ cs, Text.isGap c = true
  | token :: tokens, cs => ∃ gap rest, cs = gap ++ (token.text.toList ++ rest) ∧
      (∀ c ∈ gap, Text.isGap c = true) ∧ Spaced tokens rest

theorem Spaced.gap {tokens : List TimeToken} {cs : List Char} (spaced : Spaced tokens cs) {c : Char}
    (blank : Text.isGap c = true) : Spaced tokens (c :: cs) := by
  cases tokens with
  | nil => exact List.forall_mem_cons.mpr ⟨blank, spaced⟩
  | cons token tokens =>
      obtain ⟨gap, rest, rfl, blanks, spaced⟩ := spaced
      exact ⟨c :: gap, rest, rfl, List.forall_mem_cons.mpr ⟨blank, blanks⟩, spaced⟩

theorem spaced_of_scan {cs : List Char} {tokens : List TimeToken} (scanned : scan cs = .ok tokens) :
    Spaced tokens cs := by
  fun_induction scan cs generalizing tokens with
  | case1 =>
      cases scanned
      exact List.forall_mem_nil _
  | case2 c cs gap ih => exact (ih scanned).gap gap
  | case3 c cs solid missing => cases scanned
  | case4 c cs solid kind n found ih =>
      obtain ⟨text, after, split, rfl, spelled⟩ := spelled_of_longest? found
      have filled := spelled.filled
      rw [String.toList_ofList] at filled
      obtain ⟨first, more, rfl⟩ := List.exists_cons_of_ne_nil filled
      have rest : cs.drop ((first :: more).length - 1) = after := by
        rw [(List.cons.inj split).2]
        exact List.drop_left
      rw [rest] at scanned ih
      rw [split, List.take_left] at scanned
      cases others : scan after with
      | error e =>
          rw [others] at scanned
          cases scanned
      | ok tokens =>
          rw [others] at scanned
          cases scanned
          refine ⟨[], after, ?_, List.forall_mem_nil _, ih others⟩
          rw [split, String.toList_ofList, List.nil_append]

theorem scan_now_plus (cs : List Char) :
    scan ("now +".toList ++ cs) =
      (scan cs).map fun tokens => ⟨.word, "now"⟩ :: ⟨.plus, "+"⟩ :: tokens := by
  have now : scan ("now".toList ++ ([' '] ++ (['+'] ++ cs))) = _ :=
    scan_of_longest? (List.cons_ne_nil _ _) rfl
  have plus : scan (['+'] ++ cs) = _ := scan_of_longest? (List.cons_ne_nil _ _) rfl
  have gap : ∀ c ∈ [' '], Text.isGap c = true := List.forall_mem_singleton.mpr rfl
  have split : "now +".toList ++ cs = "now".toList ++ ([' '] ++ (['+'] ++ cs)) := rfl
  rw [split, now, scan_gap gap, plus]
  cases scan cs <;> rfl

end TimeToken

/-! ## Counts and units in a text -/

namespace Interval

theorem inCount_of_isGap {c : Char} (gap : Text.isGap c = true) : inCount c = false := by
  simp only [Text.isGap, Bool.or_eq_true, beq_iff_eq] at gap
  rcases gap with rfl | rfl <;> rfl

theorem inCount_of_mem_chars (n : WrittenNumber) : ∀ c ∈ n.chars, inCount c = true := by
  have digit {ds : List (Fin 10)} : ∀ c ∈ digits ds, inCount c = true := by
    intro c member
    rw [inCount, isDigit_of_mem member, Bool.true_or]
  rw [WrittenNumber.chars, List.forall_mem_append]
  refine ⟨digit, ?_⟩
  cases n.places with
  | nil => exact List.forall_mem_nil _
  | cons d ds => exact List.forall_mem_cons.mpr ⟨rfl, digit⟩

theorem isBlank_of_inCount {c : Char} (counted : inCount c = true) : Text.isBlank c = false := by
  rw [inCount, Bool.or_eq_true, beq_iff_eq] at counted
  rcases counted with digit | rfl
  · exact isBlank_of_isDigit digit
  · rfl

theorem ofChars?_append (n : WrittenNumber) {back : List Char}
    (other : ∀ c ∈ back.head?, inCount c = false) :
    ofChars? (n.chars ++ back) = (TimeUnit.ofName? ((Text.dropLead? ['*']
      (Text.trimStart back)).getD (Text.trimStart back))).map fun unit => ⟨n.value, unit⟩ := by
  have counted : (n.chars ++ back).takeWhile inCount = n.chars := by
    rw [List.takeWhile_append_of_pos (inCount_of_mem_chars n)]
    cases back with
    | nil => simp
    | cons c back => simp [other c rfl]
  have rest : (n.chars ++ back).dropWhile inCount = back := by
    rw [List.dropWhile_append_of_pos (inCount_of_mem_chars n)]
    cases back with
    | nil => rfl
    | cons c back => simp [other c rfl]
  have filled : n.chars.isEmpty = false := rfl
  simp only [ofChars?, counted, rest, filled, n.read?_chars]
  cases TimeUnit.ofName? ((Text.dropLead? ['*'] (Text.trimStart back)).getD _) <;> rfl

end Interval

namespace WrittenSummand

def starChars (star : Bool) : List Char :=
  if star then ['*'] else []

theorem exists_layout {star plural : Bool} {unit : TimeUnit} {cs : List Char}
    (spaced : TimeToken.Spaced (stars star ++ [⟨.word, String.ofList (word unit plural)⟩]) cs) :
    ∃ before after trail : List Char,
      cs = (before ++ (starChars star ++ after)) ++ (word unit plural ++ trail) ∧
        (∀ c ∈ before, Text.isGap c = true) ∧ (∀ c ∈ after, Text.isGap c = true) ∧
          ∀ c ∈ trail, Text.isGap c = true := by
  cases star with
  | false =>
      obtain ⟨before, trail, rfl, blank, blanks⟩ := spaced
      refine ⟨before, [], trail, ?_, blank, List.forall_mem_nil _, blanks⟩
      simp [starChars]
  | true =>
      obtain ⟨before, rest, rfl, blank, after, trail, rfl, blankAfter, blanks⟩ := spaced
      refine ⟨before, after, trail, ?_, blank, blankAfter, blanks⟩
      simp [starChars]

theorem inWord_of_mem_word {unit : TimeUnit} {plural : Bool} :
    ∀ c ∈ word unit plural, TimeToken.inWord c = true := by
  rw [← List.all_eq_true]
  cases plural <;> cases unit <;> rfl

theorem inCount_of_mem_word {unit : TimeUnit} {plural : Bool} :
    ∀ c ∈ word unit plural, Interval.inCount c = false := by
  simp only [← Bool.not_eq_true']
  rw [← List.all_eq_true]
  cases plural <;> cases unit <;> rfl

theorem inCount_of_mem_starChars {star : Bool} {c : Char} (member : c ∈ starChars star) :
    Interval.inCount c = false := by
  cases star with
  | false => cases member
  | true =>
      rw [List.mem_singleton.mp member]
      rfl

theorem solid_word (unit : TimeUnit) (plural : Bool) : Text.Solid (word unit plural) := by
  rw [← DateExpression.trim_word inWord_of_mem_word]
  exact Text.solid_trim _

theorem word_ne_nil (unit : TimeUnit) (plural : Bool) : word unit plural ≠ [] := by
  cases unit <;> exact List.cons_ne_nil _ _

theorem ofName?_layout (star plural : Bool) (unit : TimeUnit) {before after : List Char}
    (blank : ∀ c ∈ before, Text.isGap c = true) (blankAfter : ∀ c ∈ after, Text.isGap c = true) :
    let rest := Text.trimStart (before ++ (starChars star ++ after) ++ word unit plural)
    TimeUnit.ofName? ((Text.dropLead? ['*'] rest).getD rest) = some unit := by
  have blanks : ∀ c ∈ before, Text.isBlank c = true :=
    fun c member => Text.isBlank_of_isGap (blank c member)
  have blanksAfter : ∀ c ∈ after, Text.isBlank c = true :=
    fun c member => Text.isBlank_of_isGap (blankAfter c member)
  intro rest
  cases star with
  | true =>
      have starred : rest = '*' :: (after ++ word unit plural) := by
        simp only [rest, starChars, Text.trimStart, List.append_assoc]
        rw [List.dropWhile_append_of_pos blanks]
        rfl
      have trimmed : Text.trim (after ++ word unit plural) = word unit plural := by
        simpa using @Text.trim_of_split after _ [] blanksAfter (solid_word unit plural) (by simp)
      rw [starred, Text.dropLead?, if_pos rfl, Text.dropLead?, Option.getD_some]
      rw [← ofName?_word unit plural, TimeUnit.ofName?, TimeUnit.ofName?, trimmed,
        DateExpression.trim_word inWord_of_mem_word]
  | false =>
      have plain : rest = word unit plural := by
        simp only [rest, starChars, Text.trimStart, List.append_assoc]
        rw [List.dropWhile_append_of_pos blanks]
        simp only [Bool.false_eq_true, if_false, List.nil_append]
        rw [List.dropWhile_append_of_pos blanksAfter]
        cases plural <;> cases unit <;> rfl
      have unstarred : Text.dropLead? ['*'] (word unit plural) = none := by
        cases plural <;> cases unit <;> rfl
      rw [plain, unstarred, Option.getD_none, ofName?_word]

end WrittenSummand

namespace Interval

theorem ofChars?_spaced {n : WrittenNumber} {star plural : Bool} {unit : TimeUnit} {cs : List Char}
    (spaced : TimeToken.Spaced (⟨.number, String.ofList n.chars⟩ :: (WrittenSummand.stars star ++
      [⟨.word, String.ofList (WrittenSummand.word unit plural)⟩])) cs) :
    ∃ back, Text.trim cs = n.chars ++ back ∧ ofChars? (n.chars ++ back) = some ⟨n.value, unit⟩ := by
  obtain ⟨lead, rest, rfl, blank, spaced⟩ := spaced
  obtain ⟨before, after, trail, rfl, blankBefore, blankAfter, blankTrail⟩ :=
    WrittenSummand.exists_layout spaced
  refine ⟨before ++ (WrittenSummand.starChars star ++ after) ++ WrittenSummand.word unit plural,
    ?_, ?_⟩
  · have number : Text.Solid n.chars :=
      Text.solid_of_forall fun c member => isBlank_of_inCount (inCount_of_mem_chars n c member)
    have solid := number.around (WrittenSummand.solid_word unit plural) (List.cons_ne_nil _ _)
      (WrittenSummand.word_ne_nil unit plural) (before ++ (WrittenSummand.starChars star ++ after))
    have cut := Text.trim_of_split (fun c member => Text.isBlank_of_isGap (blank c member)) solid
      fun c member => Text.isBlank_of_isGap (blankTrail c member)
    rw [String.toList_ofList]
    simpa only [List.append_assoc] using cut
  · have named := WrittenSummand.ofName?_layout star plural unit blankBefore blankAfter
    rw [ofChars?_append n, named, Option.map_some]
    intro c first
    have member := List.mem_of_head? first
    simp only [List.mem_append] at member
    rcases member with (gap | star | gap) | letter
    · exact inCount_of_isGap (blankBefore c gap)
    · exact WrittenSummand.inCount_of_mem_starChars star
    · exact inCount_of_isGap (blankAfter c gap)
    · exact WrittenSummand.inCount_of_mem_word c letter

end Interval

namespace IntervalValue

/-- What an expression adds to the clock as its only count is read alone as an interval with the
same count and unit. -/
theorem parse_of_plus {text : String} {e : DateExpression} {s : Summand}
    (parsed : DateExpression.parse ("now + " ++ text) = .ok e) (single : e.summands = [s]) :
    parse text = .ok (.counted ⟨s.count, s.unit⟩) := by
  obtain ⟨tokens, rest, scanned, based, summed⟩ := DateExpression.parse_eq_ok_iff_steps.mp parsed
  have clock : Text.Solid "now +".toList := by
    have first : Text.isBlank 'n' = false := rfl
    have last : Text.isBlank '+' = false := rfl
    constructor
    · simp [first]
    · simp [last]
  obtain ⟨piece, trimmed, same⟩ :=
    Text.trim_append clock (List.cons_ne_nil _ _) (' ' :: Text.lower text.toList)
  have split : Text.lower (Text.trim ("now + " ++ text).toList) = "now +".toList ++ piece := by
    rw [← Text.trim_lower, String.toList_append, Text.lower_append]
    exact trimmed
  have spelled := TimeToken.spelled_of_scan scanned
  rw [split, TimeToken.scan_now_plus, map_eq_ok_iff] at scanned
  obtain ⟨others, scanned, rfl⟩ := scanned
  -- The base is the clock itself, and the rest is one count with its sign.
  have found : DateExpression.readBase (⟨.word, "now"⟩ :: ⟨.plus, "+"⟩ :: others) =
      .ok (.keyword .now, ⟨.plus, "+"⟩ :: others) := rfl
  rw [found, Except.ok.injEq, Prod.mk.injEq] at based
  rw [← based.2, single] at summed
  obtain ⟨written, laid, values⟩ :=
    DateExpression.exists_summands (List.forall_mem_cons.mp spelled).2 summed
  obtain ⟨w, rfl, rfl⟩ := List.map_eq_singleton_iff.mp values.symm
  rw [List.flatMap_singleton, WrittenSummand.tokens] at laid
  have spaced := TimeToken.spaced_of_scan scanned
  rw [(List.cons.inj laid).2] at spaced
  obtain ⟨back, cut, read⟩ := Interval.ofChars?_spaced spaced
  have whole : Text.lower (Text.trim text.toList) = w.number.chars ++ back := by
    rw [← Text.trim_lower, ← cut, same]
    rfl
  have other : w.number.chars ++ back ≠ ['a', 'l', 'l'] := by
    intro all
    exact digit_ne rfl w.number.first (List.cons.inj all).1
  rw [parse, whole, if_neg other, read]
  rfl

/-- A count with decimals and a star, in capitals and among blanks. -/
theorem parse_of_plus_hours :
    DateExpression.parse ("now + " ++ "1.5 *\tHOURS ") =
        .ok ⟨.keyword .now, [⟨.plus, Decimal.nearest 15 (-1), .hour⟩]⟩ ∧
      parse "1.5 *\tHOURS " = .ok (.counted ⟨Decimal.nearest 15 (-1), .hour⟩) := by
  let hours : WrittenSummand := ⟨.plus, ⟨1, [], [5]⟩, true, .hour, true⟩
  have value : hours.value = ⟨.plus, Decimal.nearest 15 (-1), .hour⟩ := by
    have number : Decimal.natOfDigits (digits [1, 5]) = 15 := by decide
    rw [← number]
    rfl
  have scanned : TimeToken.scan (Text.lower (Text.trim ("now + " ++ "1.5 *\tHOURS ").toList)) =
      .ok (⟨.word, "now"⟩ :: hours.tokens) := by
    decide +kernel
  have summed : DateExpression.readSummands hours.tokens = .ok [hours.value] := by
    simpa using DateExpression.readSummands_tokens [hours]
  rw [value] at summed
  have parsed : DateExpression.parse ("now + " ++ "1.5 *\tHOURS ") =
      .ok ⟨.keyword .now, [⟨.plus, Decimal.nearest 15 (-1), .hour⟩]⟩ :=
    DateExpression.parse_eq_ok_iff_steps.mpr ⟨_, hours.tokens, scanned, rfl, summed⟩
  exact ⟨parsed, parse_of_plus parsed rfl⟩

end IntervalValue
end ChartLint
