import ChartLint.Validation

/-!
# What is reported on sections and settings

Sections, settings and rules report at headers, names and values only, never a problem of blocks and
never that a setting is repeated. These facts go through the same functions, so they are proved
together: `places` is any property that all spans of the document have, and
`Report Code.ofReading places` says that a diagnostic has none of these codes and points at such
spans.

* `OpenPath.push_reports` and `OpenPath.finish_reports`: what the open sections report.
* `Setting.check_reports`: what a setting reports.
-/

namespace ChartLint

def Code.ofBlocks : Code → Bool
  | .unclosedBlock | .unmatchedEnd | .malformedKeyword | .unknownName => true
  | _ => false

/-- The codes for what only the reading of lines can find: those for blocks, and repetitions. -/
def Code.ofReading : Code → Bool
  | .repeatedSetting => true
  | c => c.ofBlocks

theorem Code.ofBlocks_of_ofReading {c : Code} (other : c.ofReading = false) :
    c.ofBlocks = false := by
  cases c <;> simp_all [Code.ofReading, Code.ofBlocks]

structure Diagnostic.At (places : Span → Prop) (d : Diagnostic) : Prop where
  range : ∃ s, places s ∧ d.range = s.range
  related : ∀ r ∈ d.related, ∃ s, places s ∧ r.range = s.range

structure Report (excluded : Code → Bool) (places : Span → Prop) (d : Diagnostic) : Prop where
  code : excluded d.code = false
  at_place : d.At places

variable {places : Span → Prop}

theorem Report.ofBlocks {d : Diagnostic} (report : Report Code.ofReading places d) :
    Report Code.ofBlocks places d :=
  ⟨Code.ofBlocks_of_ofReading report.code, report.at_place⟩

theorem Diagnostic.at_ofProblem (p : Problem) {s : Span} (place : places s) :
    (Diagnostic.ofProblem p s).At places :=
  ⟨⟨s, place, rfl⟩, by simp [Diagnostic.ofProblem]⟩

theorem report_ofProblem {excluded : Code → Bool} {p : Problem} {s : Span}
    (code : excluded p.code = false) (place : places s) :
    Report excluded places (.ofProblem p s) :=
  ⟨code, Diagnostic.at_ofProblem p place⟩

theorem reports_single {excluded : Code → Bool} {p : Problem} {s : Span}
    (code : excluded p.code = false) (place : places s) :
    ∀ d ∈ [Diagnostic.ofProblem p s], Report excluded places d := by
  intro d member
  rw [List.mem_singleton] at member
  subst member
  exact report_ofProblem code place

/-! ## The open path -/

def OpenPath.Keeps (places : Span → Prop) (levels : List Level) : Prop :=
  ∀ l ∈ levels, ∀ origin ∈ l.origin, places origin.1

namespace OpenPath

theorem missing_reports (c : Catalog) (below : List Level) (l : Level)
    (kept : ∀ origin ∈ l.origin, places origin.1) :
    ∀ d ∈ l.missing c below, Report Code.ofReading places d := by
  intro d member
  unfold Level.missing at member
  cases origin : l.origin with
  | none => simp [origin] at member
  | some entry =>
      obtain ⟨header, kind⟩ := entry
      have place : places header := kept (header, kind) (by simp [origin])
      simp only [origin, List.mem_append, List.mem_map] at member
      rcases member with ⟨group, -, rfl⟩ | member
      · exact report_ofProblem rfl place
      · split at member
        · simp at member
        · exact reports_single rfl place d member

theorem closeTo_reports (c : Catalog) (n : Nat) (levels : List Level)
    (kept : Keeps places levels) :
    Keeps places (closeTo c n levels).1 ∧
      ∀ d ∈ (closeTo c n levels).2, Report Code.ofReading places d := by
  induction levels with
  | nil => simp [closeTo, kept]
  | cons l below ih =>
      have keptBelow : Keeps places below := fun l' member => kept l' (by simp [member])
      obtain ⟨levelsKept, reports⟩ := ih keptBelow
      unfold closeTo
      split
      · refine ⟨levelsKept, ?_⟩
        intro d member
        rcases List.mem_append.mp member with member | member
        · exact missing_reports c below l (kept l (by simp)) d member
        · exact reports d member
      · exact ⟨kept, by simp⟩

theorem makeRoom_reports (c : Catalog) (p : OpenPath) (header : Span) (kind : SectionKind)
    (kept : Keeps places p.levels) (place : places header) :
    Keeps places (p.makeRoom c header kind).1 ∧
      ∀ d ∈ (p.makeRoom c header kind).2, Report Code.ofReading places d := by
  unfold makeRoom
  dsimp only
  split
  · constructor
    · intro l member
      rcases List.mem_append.mp member with member | member
      · rw [List.eq_of_mem_replicate member]
        simp
      · exact kept l member
    · exact reports_single rfl place
  · exact closeTo_reports c _ p.levels kept

theorem origin_sees (l : Level) (kind : SectionKind) : (l.sees kind).origin = l.origin := by
  unfold Level.sees
  split <;> rfl

theorem enter_reports (c : Catalog) (p : OpenPath) (header : Span) (kind : SectionKind)
    (kept : Keeps places p.levels) (place : places header) :
    Keeps places (p.enter c header kind).1.levels ∧
      ∀ d ∈ (p.enter c header kind).2, Report Code.ofReading places d := by
  obtain ⟨roomKept, reports⟩ := makeRoom_reports c p header kind kept place
  constructor
  · intro l member origin originMember
    simp only [enter, List.mem_cons, List.mem_map] at member
    rcases member with rfl | ⟨l', member, rfl⟩
    · simp only [Level.ofHeader, Option.mem_some] at originMember
      subst originMember
      exact place
    · rw [origin_sees] at originMember
      exact roomKept l' member origin originMember
  · intro d member
    simp only [enter, List.mem_append] at member
    rcases member with member | member
    · exact reports d member
    · split at member
      · exact reports_single rfl place d member
      · simp at member

theorem push_reports (c : Catalog) (p : OpenPath) (header : Span)
    (kept : Keeps places p.levels) (place : places header) :
    Keeps places (p.push c header).1.levels ∧
      ∀ d ∈ (p.push c header).2.2, Report Code.ofReading places d := by
  unfold push
  cases SectionKind.ofName? header.text with
  | none => exact ⟨kept, reports_single rfl place⟩
  | some kind => exact enter_reports c p header kind kept place

theorem declare_keeps (c : Catalog) (p : OpenPath) (name value : String)
    (kept : Keeps places p.levels) : Keeps places (p.declare c name value).levels := by
  unfold declare
  cases levels : p.levels with
  | nil => simp [levels, Keeps]
  | cons l below =>
      rw [levels] at kept
      intro l' member
      rcases List.mem_cons.mp member with rfl | member
      · exact kept l (by simp)
      · exact kept l' (by simp [member])

theorem finish_reports (c : Catalog) (p : OpenPath) (kept : Keeps places p.levels) :
    ∀ d ∈ p.finish c, Report Code.ofReading places d :=
  (closeTo_reports c 0 p.levels kept).2

end OpenPath

/-! ## Values -/

namespace ValueCheck

theorem text?_code {d : Descriptor} {text : String} {p : Problem} (found : text? d text = some p) :
    p.code = .invalidValue := by
  unfold text? at found
  split at found
  · split at found
    · split at found
      · cases found
      · cases found
        rfl
    · cases found
  · obtain ⟨item, -, rfl⟩ := Option.map_eq_some_iff.mp found
    rfl

theorem number?_code {d : Descriptor} {text : String} {p : Problem}
    (found : number? d text = some p) : p.code = .invalidValue := by
  unfold number? at found
  dsimp only at found
  split at found
  · cases found
    rfl
  · obtain ⟨-, equal⟩ := Option.ite_none_left_eq_some.mp found
    cases equal
    rfl

theorem rank?_code {rank : List Char} {p : Problem} (found : rank? rank = some p) :
    p.code = .invalidValue := by
  unfold rank? at found
  dsimp only at found
  split at found
  · cases found
  · cases found
    rfl

theorem choice?_cases {d : Descriptor} {text : String} {p : Problem}
    (found : choice? d text = some p) :
    p.code = .invalidValue ∨
      d.lists "percentile" = true ∧ ∃ rank,
        Text.dropLead? "percentile_".toList text.toList = some rank ∧ rank? rank = none ∧
          p = .deprecatedPercentile text (String.ofList rank) := by
  unfold choice? at found
  dsimp only at found
  split at found
  · cases found
  · split at found
    · rename_i listed
      split at found
      · exact .inl (rank?_code found)
      · split at found
        · rename_i rank split
          cases inner : rank? rank with
          | none =>
              simp only [inner, Option.getD_none, Option.some.injEq] at found
              exact .inr ⟨listed, rank, split, inner, found.symm⟩
          | some q =>
              simp only [inner, Option.getD_some, Option.some.injEq] at found
              subst found
              exact .inl (rank?_code inner)
        · cases found
          exact .inl rfl
    · cases found
      exact .inl rfl

theorem interval?_cases {d : Descriptor} {text : String} {p : Problem}
    (found : interval? d text = some p) :
    p.code = .invalidValue ∨
      (isInteger text.toList = true ∧ d.name = secondsSetting) ∧
        p = .deprecatedSeconds d.name text := by
  unfold interval? at found
  split at found
  · cases found
  · split at found
    · rename_i seconds
      rw [Bool.and_eq_true, beq_iff_eq] at seconds
      exact .inr ⟨seconds, (Option.some.inj found).symm⟩
    · cases found
      exact .inl rfl

theorem date?_code {d : Descriptor} {dates : DateContext} {text : String} {p : Problem}
    (found : date? d dates text = some p) : p.code = .invalidDate := by
  unfold date? at found
  split at found
  · cases found
  · cases found
    rfl

theorem object?_code {d : Descriptor} {text : String} {p : Problem}
    (found : object? d text = some p) : p.code = .invalidObject := by
  unfold object? at found
  split at found
  · cases found
  · cases found
  · cases found
    rfl
  · cases found
    rfl

theorem zone?_code {zones : ZoneDatabase} {d : Descriptor} {text : String} {p : Problem}
    (found : zone? d text = some p) : p.code = .invalidValue := by
  unfold zone? at found
  split at found
  · cases found
  · cases found
    rfl

end ValueCheck

open ValueCheck in
theorem Descriptor.problem?_cases {zones : ZoneDatabase} {d : Descriptor} {dates : DateContext}
    {text : String} {p : Problem} (found : d.problem? dates text = some p) :
    (p.code = .invalidValue ∨ p.code = .invalidDate ∨ p.code = .invalidObject) ∨
      d.name ≠ zoneSetting ∧ p.code = .deprecatedSetting ∧
        (d.type = .enum ∧ choice? d text = some p ∨
          d.type = .interval ∧ interval? d text = some p) := by
  unfold Descriptor.problem? at found
  split at found
  · exact .inl (.inl (zone?_code found))
  · rename_i other
    cases type : d.type <;> simp only [type] at found
    case string => exact .inl (.inl (text?_code found))
    case number => exact .inl (.inl (number?_code found))
    case integer => exact .inl (.inl (number?_code found))
    case boolean =>
      split at found
      · cases found
      · cases found
        exact .inl (.inl rfl)
    case enum =>
      rcases choice?_cases found with code | ⟨-, rank, -, -, rfl⟩
      · exact .inl (.inl code)
      · exact .inr ⟨other, rfl, .inl ⟨rfl, found⟩⟩
    case interval =>
      rcases interval?_cases found with code | ⟨-, rfl⟩
      · exact .inl (.inl code)
      · exact .inr ⟨other, rfl, .inr ⟨rfl, found⟩⟩
    case date => exact .inl (.inr (.inl (date?_code found)))
    case object => exact .inl (.inr (.inr (object?_code found)))

theorem Descriptor.problem?_code {zones : ZoneDatabase} {d : Descriptor} {dates : DateContext}
    {text : String} {p : Problem} (found : d.problem? dates text = some p) :
    p.code.ofReading = false := by
  rcases problem?_cases found with (code | code | code) | ⟨-, code, -⟩ <;> rw [code] <;> rfl

namespace Setting

theorem problem?_place {zones : ZoneDatabase} {s : Setting} {dates : DateContext} {value : Span}
    {p : Problem} {place : Span} (found : s.problem? dates value = some (p, place)) :
    p.code.ofReading = false ∧ (place = s.name ∨ place = value ∧ value.text.isEmpty = false) := by
  unfold problem? at found
  split at found
  · cases found
  · split at found
    · cases found
      exact ⟨rfl, .inl rfl⟩
    · rename_i filled
      obtain ⟨q, inner, equal⟩ := Option.map_eq_some_iff.mp found
      cases equal
      exact ⟨Descriptor.problem?_code inner, .inr ⟨rfl, by simpa using filled⟩⟩

theorem check_reports {zones : ZoneDatabase} (s : Setting) (dates : DateContext) (value : Span)
    (name : places s.name) (valued : value.text.isEmpty = false → places value) :
    (s.check dates value).1.name = s.name ∧
      ∀ d ∈ (s.check dates value).2, Report Code.ofReading places d := by
  unfold check
  cases found : s.problem? dates value with
  | none => simp
  | some entry =>
      obtain ⟨p, place⟩ := entry
      obtain ⟨code, where_⟩ := problem?_place found
      have placed : places place := by
        rcases where_ with rfl | ⟨rfl, filled⟩
        · exact name
        · exact valued filled
      constructor
      · dsimp only
        split <;> rfl
      · intro d member
        rw [Option.mem_some] at member
        subst member
        exact report_ofProblem code placed

theorem name_dateValue (s : Setting) (dates : DateContext) :
    (s.dateValue dates).1.name = s.name := by
  unfold dateValue
  split
  · rfl
  · split
    · rfl
    · rfl
    · split <;> rfl

end Setting
end ChartLint
