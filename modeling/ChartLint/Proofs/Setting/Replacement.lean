import ChartLint.Proofs.Block.Name
import ChartLint.Proofs.Section.Reports
import ChartLint.Proofs.Time.Interval
import ChartLint.Time.Zone.Name

/-!
# Values proposed in place of deprecated ones

A deprecated value is reported together with a value to use instead: `percentile(rank)`, or a number
of seconds with its unit. The first is always accepted, the second exactly if the number has no sign
or the setting lists the value: `Setting.check_replacement`.
-/

namespace ChartLint

open Written

namespace Text

theorem dropLead?_append (piece rest : List Char) :
    dropLead? piece (piece ++ rest) = some rest := by
  induction piece with
  | nil => rfl
  | cons a piece ih => rw [List.cons_append, dropLead?, if_pos rfl, ih]

theorem dropLast?_concat (last : Char) (cs : List Char) :
    dropLast? last (cs ++ [last]) = some cs := by
  rw [dropLast?, List.getLast?_concat, if_pos rfl, List.dropLast_concat]

theorem eq_append_of_dropLead? {piece cs rest : List Char}
    (found : dropLead? piece cs = some rest) : cs = piece ++ rest := by
  obtain ⟨other, rfl⟩ := (isSome_dropLead? piece cs).mp (Option.isSome_of_eq_some found)
  rw [dropLead?_append, Option.some.injEq] at found
  rw [found]

end Text

/-! ## Numbers as texts -/

namespace Decimal

theorem exists_sign (cs : List Char) :
    ∃ sign, cs = sign ++ (splitSign cs).2 ∧
      (sign = [] ∨ ∃ c, sign = [c] ∧ (c = '+' ∨ c = '-')) := by
  unfold splitSign
  split
  · exact ⟨['-'], rfl, .inr ⟨'-', rfl, .inr rfl⟩⟩
  · exact ⟨['+'], rfl, .inr ⟨'+', rfl, .inl rfl⟩⟩
  · exact ⟨[], rfl, .inl rfl⟩

end Decimal

namespace ValueCheck

theorem isBlank_of_isDecimal {cs : List Char} (decimal : isDecimal cs = true) :
    ∀ c ∈ cs, Text.isBlank c = false := by
  obtain ⟨sign, split, signed⟩ := Decimal.exists_sign cs
  have front : ∀ c ∈ sign, Text.isBlank c = false := by
    rcases signed with rfl | ⟨c, rfl, rfl | rfl⟩
    · exact List.forall_mem_nil _
    · exact List.forall_mem_singleton.mpr rfl
    · exact List.forall_mem_singleton.mpr rfl
  have solid {ds : List Char} (digits : ds.all Char.isDigit = true) :
      ∀ c ∈ ds, Text.isBlank c = false :=
    fun c member => isBlank_of_isDigit (List.all_eq_true.mp digits c member)
  rw [split, List.forall_mem_append]
  refine ⟨front, ?_⟩
  simp only [isDecimal, Bool.and_eq_true] at decimal
  cases parts : Text.splitOnce? '.' (Decimal.splitSign cs).2 with
  | none =>
      rw [parts, Option.getD_none] at decimal
      exact solid decimal.1.2
  | some parts' =>
      rw [parts, Option.getD_some] at decimal
      rw [(Line.splitOnce?_eq_some_iff.mp parts).1, List.forall_mem_append, List.forall_mem_cons]
      exact ⟨solid decimal.1.2, rfl, solid decimal.2⟩

theorem exists_digits_of_isInteger {cs : List Char} (integer : isInteger cs = true) :
    ∃ sign d ds, cs = sign ++ digits (d :: ds) ∧
      (sign = [] ∨ ∃ c, sign = [c] ∧ (c = '+' ∨ c = '-')) := by
  obtain ⟨sign, split, signed⟩ := Decimal.exists_sign cs
  simp only [isInteger, Bool.and_eq_true, Bool.not_eq_true', List.isEmpty_eq_false_iff] at integer
  obtain ⟨ds, same⟩ := exists_digits (Decimal.splitSign cs).2
  rw [List.takeWhile_eq_self_iff.mpr (List.all_eq_true.mp integer.2)] at same
  cases ds with
  | nil => exact absurd same integer.1
  | cons d ds => exact ⟨sign, d, ds, by rw [← same, ← split], signed⟩

/-! ## Percentiles -/

theorem isDecimal_of_rank? {rank : List Char} (accepted : rank? rank = none) :
    isDecimal rank = true := by
  unfold rank? at accepted
  dsimp only at accepted
  split at accepted
  · rename_i fits
    exact (Bool.and_eq_true_iff.mp fits).1
  · cases accepted

theorem rankInParens?_append (rank : List Char) :
    rankInParens? ("percentile".toList ++ '(' :: (rank ++ [')'])) = some (Text.trim rank) := by
  have start : Text.trimStart ('(' :: (rank ++ [')'])) = ['('] ++ (rank ++ [')']) := rfl
  simp only [rankInParens?, Text.dropLead?_append, start, Option.bind_eq_bind, Option.bind_some,
    Text.dropLast?_concat]
  rfl

theorem choice?_percentile {d : Descriptor} {rank : List Char}
    (listed : d.lists "percentile" = true) (accepted : rank? rank = none) {text : String}
    (written : text.toList = "percentile".toList ++ '(' :: (rank ++ [')'])) :
    choice? d text = none := by
  have trimmed : Text.trim rank = rank := by
    have solid := Text.solid_of_forall (isBlank_of_isDecimal (isDecimal_of_rank? accepted))
    simpa using @Text.trim_of_split [] rank [] (by simp) solid (by simp)
  unfold choice?
  split
  · rfl
  · rw [written, rankInParens?_append, trimmed]
    exact accepted

end ValueCheck

/-! ## Seconds -/

namespace IntervalValue

theorem parse_of_spaced {text : String} {n : WrittenNumber} {star plural : Bool} {unit : TimeUnit}
    (spaced : TimeToken.Spaced (⟨.number, String.ofList n.chars⟩ :: (WrittenSummand.stars star ++
      [⟨.word, String.ofList (WrittenSummand.word unit plural)⟩])) (Text.lower text.toList)) :
    parse text = .ok (.counted ⟨n.value, unit⟩) := by
  obtain ⟨back, cut, read⟩ := Interval.ofChars?_spaced spaced
  rw [Text.trim_lower] at cut
  have other : n.chars ++ back ≠ ['a', 'l', 'l'] := by
    intro all
    exact digit_ne rfl n.first (List.cons.inj all).1
  rw [parse, cut, if_neg other, read]

theorem parse_of_sign {text : String} {c : Char} {cs : List Char} (first : text.toList = c :: cs)
    (sign : c = '+' ∨ c = '-') : (parse text).isOk = false := by
  have solid : Text.Solid [c] := by
    apply Text.solid_of_forall
    rcases sign with rfl | rfl <;> exact List.forall_mem_singleton.mpr rfl
  obtain ⟨piece, trimmed, -⟩ := Text.trim_append solid (List.cons_ne_nil _ _) cs
  have lowered : Text.lower (Text.trim text.toList) = c :: Text.lower piece := by
    rw [first, ← List.singleton_append, trimmed, Text.lower_append]
    rcases sign with rfl | rfl <;> rfl
  have uncounted : Interval.inCount c = false := by
    rcases sign with rfl | rfl <;> rfl
  have other : c :: Text.lower piece ≠ ['a', 'l', 'l'] := by
    rintro same
    rcases sign with rfl | rfl <;> cases same
  have missing : Interval.ofChars? (c :: Text.lower piece) = none := by
    simp [Interval.ofChars?, uncounted]
  rw [parse, lowered, if_neg other, missing]
  rfl

theorem parse_seconds {text : String} {d : Fin 10} {ds : List (Fin 10)}
    (written : text.toList = digits (d :: ds) ++ " second".toList) : (parse text).isOk = true := by
  let n : WrittenNumber := ⟨d, ds, []⟩
  have chars : n.chars = digits (d :: ds) := List.append_nil _
  have lowered : Text.lower text.toList = n.chars ++ ([' '] ++ ("second".toList ++ [])) := by
    have plain : ∀ d : Fin 10, (digit d).toLower = digit d := by decide
    rw [written, Text.lower_append, chars]
    simp [Text.lower, digits, plain]
  have spaced : TimeToken.Spaced (⟨.number, String.ofList n.chars⟩ ::
      (WrittenSummand.stars false ++ [⟨.word, String.ofList (WrittenSummand.word .second false)⟩]))
      (Text.lower text.toList) := by
    rw [lowered]
    refine ⟨[], _, ?_, List.forall_mem_nil _, [' '], [], rfl, ?_, List.forall_mem_nil _⟩
    · simp only [String.toList_ofList]
      rfl
    · exact List.forall_mem_singleton.mpr rfl
  rw [parse_of_spaced spaced]
  rfl

end IntervalValue

namespace ValueCheck

theorem interval?_eq_none_iff {d : Descriptor} {text : String} :
    interval? d text = none ↔ (IntervalValue.parse text).isOk = true ∨ d.lists text = true := by
  rw [← Bool.or_eq_true]
  unfold interval?
  constructor
  · intro accepted
    by_contra refused
    rw [if_neg refused] at accepted
    split at accepted <;> cases accepted
  · intro accepted
    rw [if_pos accepted]

theorem interval?_seconds {d : Descriptor} {number text : String}
    (integer : isInteger number.toList = true)
    (written : text.toList = number.toList ++ " second".toList) :
    interval? d text = none ↔
      (∀ c ∈ number.toList, c.isDigit = true) ∨ d.lists text = true := by
  rw [interval?_eq_none_iff]
  apply or_congr_left
  obtain ⟨sign, first, more, split, signed⟩ := exists_digits_of_isInteger integer
  rw [split] at written ⊢
  rcases signed with rfl | ⟨c, rfl, signed⟩
  · exact iff_of_true (IntervalValue.parse_seconds written) fun _ => isDigit_of_mem
  · have refused := IntervalValue.parse_of_sign written signed
    apply iff_of_false
    · rw [refused]
      exact Bool.false_ne_true
    · intro all
      have digit := all c (List.mem_cons_self ..)
      rcases signed with rfl | rfl <;> cases digit

theorem isComputed_seconds {number text : String} (integer : isInteger number.toList = true)
    (written : text.toList = number.toList ++ " second".toList) : isComputed text = false := by
  have free : '\x7b' ∉ text.toList := by
    obtain ⟨sign, first, more, split, signed⟩ := exists_digits_of_isInteger integer
    rw [written, split]
    simp only [List.mem_append, not_or]
    refine ⟨⟨?_, not_mem_digits rfl _⟩, by decide⟩
    rcases signed with rfl | ⟨c, rfl, rfl | rfl⟩ <;> decide
  have absent (c : Char) : Text.contains [c, '\x7b'] text.toList = false := by
    rw [Bool.eq_false_iff, Ne, Text.contains_iff]
    intro inside
    exact free (inside.subset (by simp))
  rw [isComputed, absent, absent]
  rfl

end ValueCheck

/-! ## Checking what is proposed -/

namespace Setting

theorem check_eq_none_iff {zones : ZoneDatabase} {s : Setting} {dates : DateContext}
    {value : Span} :
    (s.check dates value).2 = none ↔
      isComputed value.text = true ∨
        value.text.isEmpty = false ∧ s.descriptor.problem? dates value.text = none := by
  unfold check problem?
  by_cases computed : isComputed value.text = true
  · simp [computed]
  · by_cases empty : value.text.isEmpty = true
    · simp [computed, empty]
    · cases s.descriptor.problem? dates value.text <;> simp [computed, empty]

theorem exists_problem_of_deprecated {zones : ZoneDatabase} {s : Setting} {dates : DateContext}
    {value : Span} {d : Diagnostic} (reported : (s.check dates value).2 = some d)
    (deprecated : d.code = .deprecatedSetting) :
    ∃ p, s.descriptor.problem? dates value.text = some p ∧ d = .ofProblem p value := by
  unfold check problem? at reported
  by_cases computed : isComputed value.text = true
  · simp [computed] at reported
  · by_cases empty : value.text.isEmpty = true
    · simp only [computed, empty, if_true, if_false, Bool.false_eq_true] at reported
      cases reported
      cases deprecated
    · cases found : s.descriptor.problem? dates value.text with
      | none => simp [computed, empty, found] at reported
      | some p =>
          simp only [computed, empty, found, if_false, Bool.false_eq_true, Option.map_some,
            Option.some.injEq] at reported
          exact ⟨p, rfl, reported.symm⟩

open ValueCheck

theorem check_percentile {zones : ZoneDatabase} {s : Setting}
    (other : s.descriptor.name ≠ zoneSetting) (type : s.descriptor.type = .enum)
    (listed : s.descriptor.lists "percentile" = true)
    {rank : String} (accepted : rank? rank.toList = none) (dates : DateContext) {value : Span}
    (written : value.text = s!"percentile({rank})") : (s.check dates value).2 = none := by
  have chars : value.text.toList = "percentile".toList ++ '(' :: (rank.toList ++ [')']) := by
    rw [written, String.toList_append, String.toList_append]
    rfl
  have filled : value.text.isEmpty = false := by
    rw [Bool.eq_false_iff, Ne, String.isEmpty_iff, ← String.toList_eq_nil_iff, chars]
    exact List.cons_ne_nil _ _
  apply check_eq_none_iff.mpr
  refine .inr ⟨filled, ?_⟩
  rw [Descriptor.problem?, if_neg other, type]
  exact choice?_percentile listed accepted chars

theorem check_seconds {zones : ZoneDatabase} {s : Setting}
    (other : s.descriptor.name ≠ zoneSetting) (type : s.descriptor.type = .interval)
    {number : String} (integer : isInteger number.toList = true) (dates : DateContext)
    {value : Span}
    (written : value.text = s!"{number} second") :
    (s.check dates value).2 = none ↔
      (∀ c ∈ number.toList, c.isDigit = true) ∨ s.descriptor.lists value.text = true := by
  have chars : value.text.toList = number.toList ++ " second".toList := by
    rw [written, String.toList_append]
    rfl
  have filled : value.text.isEmpty = false := by
    rw [Bool.eq_false_iff, Ne, String.isEmpty_iff, ← String.toList_eq_nil_iff, chars]
    simp
  have plain := isComputed_seconds integer chars
  rw [check_eq_none_iff, plain, filled, Descriptor.problem?, if_neg other, type]
  simp [interval?_seconds integer chars]

/-- A setting with the same description accepts what is proposed in place of a deprecated value. The
one exception is a number of seconds with a sign, unless the setting lists the proposed value. -/
theorem check_replacement {zones : ZoneDatabase} {s : Setting} {dates : DateContext}
    {value : Span} {d : Diagnostic} (reported : (s.check dates value).2 = some d)
    (deprecated : d.code = .deprecatedSetting) :
    (∃ rank, value.text = "percentile_" ++ rank ∧
      d.message = s!"{value.text} is deprecated, use percentile({rank}) instead" ∧
        ∀ (t : Setting) (later : DateContext) (place : Span), t.descriptor = s.descriptor →
          place.text = s!"percentile({rank})" → (t.check later place).2 = none) ∨
    d.message =
        s!"{s.descriptor.name} without a unit is deprecated, use '{value.text} second' instead" ∧
      ∀ (t : Setting) (later : DateContext) (place : Span), t.descriptor = s.descriptor →
        place.text = s!"{value.text} second" →
          ((t.check later place).2 = none ↔
            (∀ c ∈ value.text.toList, c.isDigit = true) ∨
              s.descriptor.lists place.text = true) := by
  obtain ⟨p, found, rfl⟩ := exists_problem_of_deprecated reported deprecated
  have warned : p.code = .deprecatedSetting := deprecated
  rcases Descriptor.problem?_cases found with (code | code | code) | ⟨other, -, kind⟩
  · rw [code] at warned
    cases warned
  · rw [code] at warned
    cases warned
  · rw [code] at warned
    cases warned
  · rcases kind with ⟨type, found⟩ | ⟨type, found⟩
    · rcases choice?_cases found with code | ⟨listed, rank, split, accepted, rfl⟩
      · rw [code] at warned
        cases warned
      · refine .inl ⟨String.ofList rank, ?_, rfl, ?_⟩
        · apply String.toList_injective
          rw [Text.eq_append_of_dropLead? split, String.toList_append,
            String.toList_ofList (l := rank)]
        · intro t later place same
          rw [← same] at other type listed
          rw [← String.toList_ofList (l := rank)] at accepted
          exact check_percentile other type listed accepted later
    · rcases interval?_cases found with code | ⟨⟨integer, -⟩, rfl⟩
      · rw [code] at warned
        cases warned
      · refine .inr ⟨rfl, ?_⟩
        intro t later place same
        rw [← same] at other type ⊢
        exact check_seconds other type integer later

def updateInterval : Setting where
  descriptor := { name := "update-interval", type := .interval }
  name := ⟨"update-interval", 0, 0, 15⟩
  value := ⟨"030", 0, 18, 21⟩

def statistic : Setting where
  descriptor := { name := "statistic", type := .enum, options := ["avg", "percentile"] }
  name := ⟨"statistic", 0, 0, 9⟩
  value := ⟨"percentile_+99.5", 0, 12, 28⟩

def june : DateContext :=
  ⟨⟨1622505600000000000, by decide, by decide⟩, .utc⟩

/-- What is proposed for seconds without a sign and for a rank after a low line. -/
theorem check_replacement_accepted :
    (updateInterval.check june ⟨"030", 0, 18, 21⟩).2 =
        some (.ofProblem (.deprecatedSeconds "update-interval" "030") ⟨"030", 0, 18, 21⟩) ∧
      (updateInterval.check june ⟨"030 second", 0, 18, 28⟩).2 = none ∧
    (statistic.check june ⟨"percentile_+99.5", 0, 12, 28⟩).2 =
        some (.ofProblem (.deprecatedPercentile "percentile_+99.5" "+99.5")
          ⟨"percentile_+99.5", 0, 12, 28⟩) ∧
      (statistic.check june ⟨"percentile(+99.5)", 0, 12, 29⟩).2 = none := by
  have seconds : (updateInterval.check june ⟨"030", 0, 18, 21⟩).2 =
      some (.ofProblem (.deprecatedSeconds "update-interval" "030") ⟨"030", 0, 18, 21⟩) := by
    decide +kernel
  have percentile : (statistic.check june ⟨"percentile_+99.5", 0, 12, 28⟩).2 =
      some (.ofProblem (.deprecatedPercentile "percentile_+99.5" "+99.5")
        ⟨"percentile_+99.5", 0, 12, 28⟩) := by
    decide +kernel
  refine ⟨seconds, ?_, percentile, ?_⟩
  · rcases check_replacement seconds rfl with ⟨rank, written, -⟩ | ⟨-, accepted⟩
    · have first := congrArg (fun text => text.toList.head?) written
      simp at first
    · apply (accepted updateInterval june ⟨"030 second", 0, 18, 28⟩ rfl rfl).mpr
      exact .inl (List.all_eq_true.mp rfl)
  · rcases check_replacement percentile rfl with ⟨rank, written, -, accepted⟩ | ⟨message, -⟩
    · have same : rank = "+99.5" := by
        have chars := congrArg String.toList written
        apply String.toList_injective
        simpa using chars.symm
      exact accepted statistic june _ rfl (by rw [same]; rfl)
    · exact absurd message (by decide +kernel)

/-- With a sign, the value to use instead is no interval. -/
theorem check_signed_seconds :
    (updateInterval.check june ⟨"+5", 0, 18, 20⟩).2.map (fun d => (d.code, d.message)) =
        some (.deprecatedSetting,
          "update-interval without a unit is deprecated, use '+5 second' instead") ∧
      (updateInterval.check june ⟨"+5 second", 0, 18, 27⟩).2.map (fun d => (d.code, d.message)) =
        some (.invalidValue, "update-interval must be an interval such as '1 hour' or 'all'") := by
  decide +kernel

end Setting
end ChartLint
