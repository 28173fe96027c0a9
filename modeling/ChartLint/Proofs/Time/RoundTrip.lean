import ChartLint.Proofs.Text.Case
import ChartLint.Proofs.Time.Grammar

/-!
# Literals there and back

A literal that is written out and read again gives the date, the time and the offset that were
written (`DateExpression.parse_literal`).
-/

namespace ChartLint

open Written

namespace Text

theorem trim_of_lower {cs : List Char} (solid : Solid (lower cs)) : trim cs = cs := by
  have same : Solid cs := by
    constructor
    · intro c first
      rw [← isBlank_toLower]
      apply solid.1
      rw [lower, List.head?_map, Option.mem_def.mp first]
      rfl
    · intro c last
      rw [← isBlank_toLower]
      apply solid.2
      rw [lower, List.getLast?_map, Option.mem_def.mp last]
      rfl
  simpa using @trim_of_split [] cs [] (by simp) same (by simp)

theorem Solid.around {front back : List Char} (first : Solid front) (last : Solid back)
    (frontFilled : front ≠ []) (backFilled : back ≠ []) (mid : List Char) :
    Solid (front ++ (mid ++ back)) := by
  constructor
  · rw [List.head?_append_of_ne_nil _ frontFilled]
    exact first.1
  · rw [← List.append_assoc, List.getLast?_append_of_ne_nil _ backFilled]
    exact last.2

end Text

/-! ## Nothing written is blank -/

theorem Written.isBlank_of_isDigit {c : Char} (is : c.isDigit = true) : Text.isBlank c = false := by
  obtain ⟨d, rfl⟩ := exists_digit is
  revert d
  decide

theorem Written.isBlank_of_mem_pair (n : Fin 100) : ∀ c ∈ pair n, Text.isBlank c = false :=
  fun _ member => isBlank_of_isDigit (isDigit_of_mem member)

theorem Written.isBlank_of_mem_year (y : Fin 10000) : ∀ c ∈ year y, Text.isBlank c = false :=
  fun c member => isBlank_of_isDigit (List.all_eq_true.mp (all_year y) c member)

theorem WrittenDate.isBlank_of_mem (d : WrittenDate) : ∀ c ∈ d.chars, Text.isBlank c = false := by
  unfold chars
  cases d.day <;>
    simp only [dayChars, List.forall_mem_append, List.forall_mem_cons, List.append_nil]
  · exact ⟨isBlank_of_mem_year _, by decide, isBlank_of_mem_pair _⟩
  · exact ⟨isBlank_of_mem_year _, by decide, isBlank_of_mem_pair _,
      by decide, isBlank_of_mem_pair _⟩

theorem WrittenOffset.isBlank_of_mem (o : WrittenOffset) :
    ∀ c ∈ o.chars, Text.isBlank c = false := by
  cases o with
  | zulu => exact List.forall_mem_singleton.mpr rfl
  | signed negative colon hours minutes =>
      have sign : Text.isBlank (if negative then '-' else '+') = false := by
        cases negative <;> decide
      cases colon <;>
        simp only [chars, digits, List.forall_mem_append, List.forall_mem_cons, if_true,
          Bool.false_eq_true, if_false]
      · exact ⟨sign, isBlank_of_mem_pair _, isBlank_of_mem_pair _⟩
      · exact ⟨sign, isBlank_of_mem_pair _, by decide, isBlank_of_mem_pair _⟩

theorem WrittenClock.isBlank_of_mem (c : WrittenClock) :
    ∀ x ∈ c.chars, Text.isBlank x = false := by
  unfold chars
  rw [List.forall_mem_append]
  constructor
  · intro x member
    rcases c.forall_mem_body x member with digit | rfl | rfl
    · exact isBlank_of_isDigit digit
    · decide
    · decide
  · cases c.offset with
    | none => simp [offsetChars]
    | some o => exact o.isBlank_of_mem

theorem WrittenLiteral.solid_chars (w : WrittenLiteral) (gap : List Char) :
    Text.Solid (w.chars gap) := by
  cases w with
  | year y => exact Text.solid_of_forall (isBlank_of_mem_year y)
  | date d => exact Text.solid_of_forall d.isBlank_of_mem
  | stamp y month day c =>
      apply Text.solid_of_forall
      simp only [chars, List.forall_mem_append, List.forall_mem_cons]
      exact ⟨WrittenDate.isBlank_of_mem _, by decide, c.isBlank_of_mem⟩
  | dateTime d c =>
      exact (Text.solid_of_forall d.isBlank_of_mem).around (Text.solid_of_forall c.isBlank_of_mem)
        (List.cons_ne_nil _ _) (List.cons_ne_nil _ _) gap
  | time c => exact Text.solid_of_forall c.isBlank_of_mem

namespace DateExpression

theorem parse_spelled {w : WrittenLiteral} {gap : List Char} (filled : gap ≠ [])
    (blank : ∀ c ∈ gap, Text.isGap c = true) {text : String}
    (same : Text.lower text.toList = w.chars gap) {e : DateExpression} :
    parse text = .ok e ↔
      ∃ l : DateLiteral, e = ⟨.literal l, []⟩ ∧ w.Valid ∧ l.Shows w.civil w.clock := by
  have trimmed : Text.trim text.toList = text.toList := by
    apply Text.trim_of_lower
    rw [same]
    exact w.solid_chars gap
  have scanned : TimeToken.scan (Text.lower (Text.trim text.toList)) = .ok w.tokens := by
    rw [trimmed, same]
    exact w.scan_chars filled blank
  have based {b : DateBase} {rest : List TimeToken} : readBase w.tokens = .ok (b, rest) ↔
      rest = [] ∧ ∃ l, b = .literal l ∧ w.Valid ∧ l.Shows w.civil w.clock := by
    simpa using @readBase_literal [] w b rest (by simp)
  rw [parse_eq_ok_iff_steps]
  constructor
  · rintro ⟨tokens, rest, found, base, summed⟩
    cases scanned.symm.trans found
    obtain ⟨rfl, l, literal, valid, shows⟩ := based.mp base
    obtain ⟨b, summands⟩ := e
    cases literal
    rw [readSummands] at summed
    cases summed
    exact ⟨l, rfl, valid, shows⟩
  · rintro ⟨l, rfl, valid, shows⟩
    exact ⟨w.tokens, [], scanned, based.mpr ⟨rfl, l, rfl, valid, shows⟩, readSummands_tokens []⟩

/-- A literal that is written out is read exactly if its date, time and offset exist, and then it is
read as what was written. -/
theorem parse_literal (w : WrittenLiteral) {gap : List Char} (filled : gap ≠ [])
    (blank : ∀ c ∈ gap, Text.isGap c = true) {text : String}
    (same : Text.lower text.toList = w.chars gap) :
    ((∃ e, parse text = .ok e) ↔ w.Valid) ∧
      ∀ e, parse text = .ok e →
        ∃ l : DateLiteral, e = ⟨.literal l, []⟩ ∧ l.Shows w.civil w.clock := by
  have read {e : DateExpression} := @parse_spelled w gap filled blank text same e
  constructor
  · constructor
    · rintro ⟨e, parsed⟩
      obtain ⟨l, -, valid, -⟩ := read.mp parsed
      exact valid
    · intro valid
      obtain ⟨l, shows⟩ := WrittenLiteral.exists_shows valid
      exact ⟨_, read.mpr ⟨l, rfl, valid, shows⟩⟩
  · intro e parsed
    obtain ⟨l, rfl, -, shows⟩ := read.mp parsed
    exact ⟨l, rfl, shows⟩

/-- A stamp with decimals and a negative offset. -/
theorem parse_literal_stamp :
    ∃ l : DateLiteral, parse "2021-03-28T02:30:00.125-0530" = .ok ⟨.literal l, []⟩ ∧
      l.date.map Date.civil = some ⟨2021, 3, 28⟩ ∧ l.time.nanos = 9000125000000 ∧
        l.offset = some (-330) := by
  have literal := parse_literal
    (.stamp 2021 3 28 ⟨2, 30, some (0, [1, 2, 5]), some (.signed true false 5 30)⟩)
    (List.cons_ne_nil ' ' []) (List.forall_mem_singleton.mpr rfl)
    (show Text.lower "2021-03-28T02:30:00.125-0530".toList = _ by decide)
  obtain ⟨e, parsed⟩ := literal.1.mpr (by decide)
  obtain ⟨l, rfl, date, time, offset⟩ := literal.2 e parsed
  exact ⟨l, parsed, date, time, offset⟩

end DateExpression
end ChartLint
