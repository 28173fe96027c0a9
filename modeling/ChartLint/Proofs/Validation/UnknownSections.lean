import ChartLint.Proofs.Validation.Bodies
import ChartLint.Proofs.Validation.Inheritance

/-!
# Sections of an unknown kind

A header of an unknown kind completes the section before it, which the next header of a known kind
or the end of the document would have done as well. The settings below it are passed over. So the
one report on the header is all that the section leaves behind: `reports_unknownSection`.

Two passes are compared, one over the section and one over blank lines in its place. They differ by
`Pass.abandoned` until the next header or the end, where the difference is gone.
-/

namespace ChartLint

namespace Line

def isSetting : Line → Bool
  | .setting .. => true
  | _ => false

def isKnownHeader : Line → Bool
  | .header name => (SectionKind.ofName? name.text).isSome
  | _ => false

theorem classify_blank (no : Nat) {text : String}
    (blank : ∀ c ∈ text.toList, Text.isBlank c = true) : classify no text = .blank := by
  rw [classify, ofChars, if_pos]
  rwa [List.all_eq_true]

end Line

namespace Block

theorem references_eq_nil {cs : List Char} (free : Text.contains ['@', '\x7b'] cs = false)
    (column : Nat) : references column cs = [] := by
  induction cs generalizing column with
  | nil => rw [references]
  | cons c rest ih =>
      rw [Text.contains, Bool.or_eq_false_iff] at free
      have here : ¬ (c = '@' ∧ rest.head? = some '\x7b') := by
        rintro ⟨rfl, brace⟩
        obtain ⟨body, rfl⟩ := List.head?_eq_some_iff.mp brace
        simp [Text.dropLead?] at free
      rw [references, if_neg here]
      exact ih free.2 _

theorem Stack.checkReferences_eq_nil (s : Stack) (no : Nat) {cs : List Char}
    (free : Text.contains ['@', '\x7b'] cs = false) : s.checkReferences no cs = [] := by
  rw [checkReferences, referredNames, references_eq_nil free]
  simp

end Block

namespace Pass

variable {p : Pass} {no : Nat} (env : Environment)

/-! ## Lines without effect -/

theorem step_eq_sectionStep (outside : p.blocks.inText = false) {text : String} {line : Line}
    (classified : Line.classify no text = line)
    (same : p.blocks.step no text.toList line = (p.blocks, [])) :
    p.step env no text = p.sectionStep env line := by
  rw [step, classified, same, outside]
  rfl

theorem step_header (outside : p.blocks.inText = false) {text : String} {name : Span}
    (line : Line.classify no text = .header name) : p.step env no text = p.header env name := by
  apply step_eq_sectionStep env outside line
  simp [Block.Stack.step, outside]

theorem step_blank (outside : p.blocks.inText = false) (no : Nat) {text : String}
    (blank : ∀ c ∈ text.toList, Text.isBlank c = true) : p.step env no text = (p, []) := by
  apply step_eq_sectionStep env outside (Line.classify_blank no blank)
  simp [Block.Stack.step, outside]

theorem run_blank (outside : p.blocks.inText = false) (no : Nat) {lines : List String}
    (blank : ∀ text ∈ lines, ∀ c ∈ text.toList, Text.isBlank c = true) :
    p.run env no lines = (p, []) := by
  induction lines generalizing no with
  | nil => rfl
  | cons text lines ih =>
      obtain ⟨first, others⟩ := List.forall_mem_cons.mp blank
      simp only [run, step_blank env outside no first, ih (no + 1) others, List.append_nil]

theorem step_passed (outside : p.blocks.inText = false) (unknown : p.inUnknown = true)
    {text : String} (setting : (Line.classify no text).isSetting = true)
    (free : Text.contains ['@', '\x7b'] text.toList = false) : p.step env no text = (p, []) := by
  cases line : Line.classify no text with
  | setting name value =>
      rw [step_eq_sectionStep env outside line, sectionStep, Pass.setting, unknown]
      · rfl
      · simp [Block.Stack.step, outside, Block.Stack.checkReferences_eq_nil _ no free]
  | _ => simp [line, Line.isSetting] at setting

theorem run_passed (outside : p.blocks.inText = false) (unknown : p.inUnknown = true)
    {lines : List String}
    (settings : ∀ line ∈ Line.classifyFrom no lines, line.isSetting = true)
    (free : ∀ text ∈ lines, Text.contains ['@', '\x7b'] text.toList = false) :
    p.run env no lines = (p, []) := by
  induction lines generalizing no with
  | nil => rfl
  | cons text lines ih =>
      obtain ⟨first, others⟩ := List.forall_mem_cons.mp settings
      obtain ⟨freeFirst, freeOthers⟩ := List.forall_mem_cons.mp free
      simp only [run, step_passed env outside unknown first freeFirst, ih others freeOthers,
        List.append_nil]

/-! ## After the header -/

def abandoned (p : Pass) : Pass :=
  { p.flush with inUnknown := true }

theorem blocks_abandoned (p : Pass) : p.abandoned.blocks = p.blocks :=
  blocks_flush

theorem path_flush (p : Pass) : p.flush.path = p.path := by
  unfold flush
  split <;> rfl

theorem pending_flush (p : Pass) : p.flush.pending = none := by
  unfold flush
  split
  · assumption
  · rfl

theorem flush_abandoned (p : Pass) : p.abandoned.flush = p.abandoned := by
  have done : p.abandoned.pending = none := pending_flush p
  rw [flush]
  split
  · rfl
  · rename_i s pending
    rw [done] at pending
    cases pending

theorem step_unknown (outside : p.blocks.inText = false) {text : String} {name : Span}
    (header : Line.classify no text = .header name)
    (unknown : SectionKind.ofName? name.text = none) :
    p.step env no text = (p.abandoned, [.ofProblem (.unknownSection name.text) name]) := by
  rw [step_header env outside header, header_unknown env unknown]
  rfl

theorem header_abandoned {name : Span} {kind : SectionKind}
    (known : SectionKind.ofName? name.text = some kind) :
    p.abandoned.header env name = p.header env name := by
  rw [header_known env known, header_known env known, opened, opened, flush_abandoned]
  rfl

theorem step_abandoned (outside : p.blocks.inText = false) {text : String}
    (known : (Line.classify no text).isKnownHeader = true) :
    p.abandoned.step env no text = p.step env no text := by
  cases line : Line.classify no text with
  | header name =>
      rw [line] at known
      obtain ⟨kind, known⟩ := Option.isSome_iff_exists.mp known
      have left : p.abandoned.blocks.inText = false := blocks_abandoned p ▸ outside
      rw [step_header env outside line, step_header env left line]
      exact header_abandoned env known
  | _ => simp [line, Line.isKnownHeader] at known

theorem finish_abandoned (p : Pass) : p.abandoned.finish env = p.finish env := by
  have path : p.abandoned.path = p.path := path_flush p
  have tree : p.abandoned.flush.tree = p.flush.tree := by
    rw [flush_abandoned]
    rfl
  simp only [finish, path, tree, blocks_abandoned]

/-! ## The rest of a document -/

def reportsFrom (p : Pass) (no : Nat) (lines : List String) : List Diagnostic :=
  (p.run env no lines).2 ++ (p.run env no lines).1.finish env

theorem reportsFrom_append (p : Pass) (no : Nat) (lines others : List String) :
    p.reportsFrom env no (lines ++ others) =
      (p.run env no lines).2 ++
        (p.run env no lines).1.reportsFrom env (no + lines.length) others := by
  simp only [reportsFrom, run_append, List.append_assoc]

theorem reportsFrom_abandoned (outside : p.blocks.inText = false) {rest : List String}
    (next : ∀ text ∈ rest.head?, (Line.classify no text).isKnownHeader = true) :
    p.abandoned.reportsFrom env no rest = p.reportsFrom env no rest := by
  cases rest with
  | nil => exact finish_abandoned env p
  | cons text lines =>
      have same := step_abandoned env outside (next text rfl)
      simp only [reportsFrom, run, same]

end Pass

/-! ## Repetitions -/

namespace Diagnostic

theorem firsts_middle {found others : List Diagnostic} {d : Diagnostic}
    (fresh : ∀ e ∈ found ++ others, e.key ≠ d.key) :
    ∃ found' others', firsts (found ++ d :: others) = found' ++ d :: others' ∧
      firsts (found ++ others) = found' ++ others' := by
  induction found with
  | nil =>
      refine ⟨[], firsts others, ?_, rfl⟩
      rw [List.nil_append, List.nil_append, firsts_cons, List.filter_eq_self.mpr]
      intro e member
      exact bne_iff_ne.mpr (fresh e (mem_of_mem_firsts member))
  | cons e found ih =>
      obtain ⟨first, rest⟩ := List.forall_mem_cons.mp fresh
      obtain ⟨found', others', with_, without⟩ := ih rest
      refine ⟨e :: found'.filter (fun x => x.key != e.key),
        others'.filter (fun x => x.key != e.key), ?_, ?_⟩
      · have kept : (d.key != e.key) = true := bne_iff_ne.mpr (Ne.symm first)
        simp only [List.cons_append, firsts_cons, with_, List.filter_append, List.filter_cons, kept,
          if_true]
      · simp only [List.cons_append, firsts_cons, without, List.filter_append]

end Diagnostic

theorem line_ne_of_reports (env : Environment) {lines : List String} {no : Nat} {text : String}
    (at_ : lines[no]? = some text) (blank : ∀ c ∈ text.toList, Text.isBlank c = true) :
    ∀ d ∈ reports env lines, d.range.start.line ≠ no := by
  rintro d member rfl
  obtain ⟨s, ⟨text', found, onLine⟩, range⟩ := (reports_at env lines d member).range
  rw [range] at at_
  cases Option.some.inj (at_.symm.trans found)
  obtain ⟨⟨-, before, after, split, -, -⟩, filled, solid⟩ := onLine
  obtain ⟨c, cs, first⟩ := List.exists_cons_of_ne_nil filled
  have visible : Text.isBlank c = false := solid.1 c (by simp [first])
  rw [blank c (by simp [split, first])] at visible
  cases visible

/-- With blank lines in place of a section of an unknown kind and its settings, the report on its
header is gone and all others are the same, with repetitions and without. -/
theorem reports_unknownSection (env : Environment) (before : List String) (first : String)
    (body blanks rest : List String) {name : Span}
    (outside : (Pass.run env {} 0 before).1.blocks.inText = false)
    (header : Line.classify before.length first = .header name)
    (unknown : SectionKind.ofName? name.text = none)
    (settings : ∀ line ∈ Line.classifyFrom (before.length + 1) body, line.isSetting = true)
    (free : ∀ text ∈ body, Text.contains ['@', '\x7b'] text.toList = false)
    (next : ∀ text ∈ rest.head?,
      (Line.classify (before.length + 1 + body.length) text).isKnownHeader = true)
    (size : blanks.length = (first :: body).length)
    (blank : ∀ text ∈ blanks, ∀ c ∈ text.toList, Text.isBlank c = true) :
    (∃ found others,
      reports env (before ++ (first :: body) ++ rest) =
        found ++ .ofProblem (.unknownSection name.text) name :: others ∧
      reports env (before ++ blanks ++ rest) = found ++ others) ∧
    ∀ source, ∃ found others,
      Diagnostic.finish source (reports env (before ++ (first :: body) ++ rest)) =
        found ++ { Diagnostic.ofProblem (.unknownSection name.text) name with source } :: others ∧
      Diagnostic.finish source (reports env (before ++ blanks ++ rest)) = found ++ others := by
  have start (lines : List String) : reports env lines = Pass.reportsFrom env {} 0 lines := rfl
  generalize reached : (Pass.run env {} 0 before).1 = p at outside
  have entered : p.run env before.length (first :: body) =
      (p.abandoned, [.ofProblem (.unknownSection name.text) name]) := by
    have passed : p.abandoned.run env (before.length + 1) body = (p.abandoned, []) := by
      apply Pass.run_passed env _ rfl settings free
      rwa [Pass.blocks_abandoned]
    simp only [Pass.run, Pass.step_unknown env outside header unknown, passed, List.append_nil]
  have skipped := Pass.run_blank env outside before.length blank
  have same := Pass.reportsFrom_abandoned env outside next
  have place : before.length + (first :: body).length = before.length + 1 + body.length := by
    rw [List.length_cons]
    omega
  have reported : reports env (before ++ (first :: body) ++ rest) =
      (Pass.run env {} 0 before).2 ++ .ofProblem (.unknownSection name.text) name ::
        p.reportsFrom env (before.length + 1 + body.length) rest := by
    rw [start, List.append_assoc, Pass.reportsFrom_append, reached, Nat.zero_add,
      Pass.reportsFrom_append, entered, place, same]
    rfl
  have unreported : reports env (before ++ blanks ++ rest) =
      (Pass.run env {} 0 before).2 ++ p.reportsFrom env (before.length + 1 + body.length) rest := by
    rw [start, List.append_assoc, Pass.reportsFrom_append, reached, Nat.zero_add,
      Pass.reportsFrom_append, skipped, size, place, List.nil_append]
  refine ⟨⟨_, _, reported, unreported⟩, fun source => ?_⟩
  -- Where the header stood, the line is blank now, and so no other report is taken for its own.
  have fresh : ∀ d ∈ reports env (before ++ blanks ++ rest),
      d.key ≠ (Diagnostic.ofProblem (.unknownSection name.text) name).key := by
    obtain ⟨text, lines, rfl⟩ := List.exists_cons_of_ne_nil
      (List.ne_nil_of_length_pos (Nat.lt_of_lt_of_eq (Nat.succ_pos _) size.symm))
    have here : (before ++ text :: lines ++ rest)[before.length]? = some text := by simp
    have line : name.line = before.length := by
      have pieces := Line.pieces_ofChars before.length first.toList
      rw [show Line.ofChars before.length first.toList = .header name from header] at pieces
      exact (pieces.slices name (List.mem_singleton_self name)).1
    intro d member equal
    apply line_ne_of_reports env here (blank text List.mem_cons_self) d member
    rw [← line]
    exact congrArg (fun key => key.1.start.line) equal
  rw [unreported] at fresh
  obtain ⟨found, others, with_, without⟩ := Diagnostic.firsts_middle fresh
  refine ⟨found.map fun d => { d with source }, others.map fun d => { d with source }, ?_, ?_⟩
  · rw [Diagnostic.finish, reported, with_, List.map_append, List.map_cons]
  · rw [Diagnostic.finish, unreported, without, List.map_append]

/-- In an arm of a conditional, between a series and another one. -/
theorem reports_unknownSection_in_arm :
    ∃ found others,
      reports seriesEnvironment ["[group]", "[widget]", "[series]", "if a", "entity = e",
          "[serie]", "entity = f", "metrics = m", "[series]", "metric = m"] =
        found ++ .ofProblem (.unknownSection "serie") ⟨"serie", 5, 1, 6⟩ :: others ∧
      reports seriesEnvironment ["[group]", "[widget]", "[series]", "if a", "entity = e",
          "", " ", "\t", "[series]", "metric = m"] = found ++ others := by
  have blank : (["", " ", "\t"].all fun text => text.toList.all Text.isBlank) = true := by decide
  exact (reports_unknownSection seriesEnvironment
    ["[group]", "[widget]", "[series]", "if a", "entity = e"] "[serie]"
    ["entity = f", "metrics = m"] ["", " ", "\t"] ["[series]", "metric = m"]
    (by decide) (by decide : _ = Line.header ⟨"serie", 5, 1, 6⟩) (by decide) (by decide) (by decide)
    (by decide) rfl
    fun text member => List.all_eq_true.mp (List.all_eq_true.mp blank text member)).1

end ChartLint
