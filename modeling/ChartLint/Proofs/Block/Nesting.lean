import ChartLint.Proofs.Block.Reports
import ChartLint.Proofs.Validation.Reports
import ChartLint.Time.Zone.Name

/-!
# Nesting of blocks

Which documents are well nested is a grammar on lines, `Block.WellNested`. Loops and conditionals
contain complete pieces again, conditionals also arms; all other blocks contain any lines up to the
first that closes them. The main statement is `reports_nested_iff`: a pass reports no block without
its end and no end or arm without its block if and only if the document is well nested.

Between the two stands `Block.advance`, the keywords of the open blocks as a line changes them. It
gives up at the first line that does not fit, while a pass reports the line and goes on.

* `Block.Stack.outcome_step` and `Pass.outcome_run`: until something is reported, a pass follows
  `advance`.
* `Block.follow_eq_nil_iff`: `advance` gets through to the end of all blocks if and only if the
  lines complete them in the sense of the grammar.
-/

namespace ChartLint

namespace Line

/-- Whether a line is complete in itself: it neither opens, divides nor closes a block, or it opens
one and is inline. -/
def isPlain : Line → Bool
  | .opener _ inline _ _ => inline
  | .arm .. | .closer .. => false
  | _ => true

def opens (kw : Block.Keyword) : Line → Bool
  | .opener kw' inline _ _ => kw' == kw && !inline
  | _ => false

def closes (kw : Block.Keyword) : Line → Bool
  | .closer kw' _ _ => kw' == kw
  | _ => false

def isArm : Line → Bool
  | .arm .. => true
  | _ => false

def classifyFrom (no : Nat) : List String → List Line
  | [] => []
  | line :: lines => classify no line :: classifyFrom (no + 1) lines

end Line

namespace Block

/-- The complete pieces of a document. `inIf` says whether a piece stands directly in a conditional,
where an arm is a piece too. -/
inductive Item : Bool → List Line → Prop where
  | plain {inIf : Bool} {line : Line} (plain : line.isPlain = true) : Item inIf [line]
  | arm {line : Line} (arm : line.isArm = true) : Item true [line]
  | loop {inIf : Bool} {first last : Line} {parts : List (List Line)}
      (opens : first.opens .for = true) (items : ∀ part ∈ parts, Item false part)
      (closes : last.closes .for = true) : Item inIf (first :: (parts.flatten ++ [last]))
  | conditional {inIf : Bool} {first last : Line} {parts : List (List Line)}
      (opens : first.opens .if = true) (items : ∀ part ∈ parts, Item true part)
      (closes : last.closes .if = true) : Item inIf (first :: (parts.flatten ++ [last]))
  | text {inIf : Bool} {kw : Keyword} {first last : Line} {body : List Line}
      (own : kw.isOpaque = true) (opens : first.opens kw = true)
      (open_ : ∀ line ∈ body, line.closes kw = false)
      (closes : last.closes kw = true) : Item inIf (first :: (body ++ [last]))

def Items (inIf : Bool) (lines : List Line) : Prop :=
  ∃ parts : List (List Line), (∀ part ∈ parts, Item inIf part) ∧ lines = parts.flatten

def WellNested (lines : List Line) : Prop :=
  Items false lines

def Fills : Keyword → List Line → Prop
  | .for, lines => Items false lines
  | .if, lines => Items true lines
  | kw, lines => ∀ line ∈ lines, line.closes kw = false

def Completes : List Keyword → List Line → Prop
  | [], lines => WellNested lines
  | kw :: below, lines => ∃ body last rest,
      lines = body ++ last :: rest ∧ Fills kw body ∧ last.closes kw = true ∧ Completes below rest

def armed (opened : List Keyword) : Bool :=
  opened.head? == some .if

def textNext (opened : List Keyword) : Bool :=
  opened.head?.any Keyword.isOpaque

def advance (opened : List Keyword) (line : Line) : Option (List Keyword) :=
  if textNext opened then
    some (if opened.head?.any fun kw => line.closes kw then opened.tail else opened)
  else
    match line with
    | .opener kw inline _ _ => some (if inline then opened else kw :: opened)
    | .arm .. => if armed opened then some opened else none
    | .closer kw _ _ => if opened.head? = some kw then some opened.tail else none
    | _ => some opened

def follow (opened : List Keyword) : List Line → Option (List Keyword)
  | [] => some opened
  | line :: lines => (advance opened line).bind fun opened => follow opened lines

/-! ## The grammar -/

theorem items_nil (inIf : Bool) : Items inIf [] :=
  ⟨[], by simp, rfl⟩

theorem items_append {inIf : Bool} {part rest : List Line} (item : Item inIf part)
    (items : Items inIf rest) : Items inIf (part ++ rest) := by
  obtain ⟨parts, all, rfl⟩ := items
  exact ⟨part :: parts, List.forall_mem_cons.mpr ⟨item, all⟩, rfl⟩

theorem item_of_fills (inIf : Bool) {kw : Keyword} {first last : Line} {body : List Line}
    (opens : first.opens kw = true) (fills : Fills kw body) (closes : last.closes kw = true) :
    Item inIf (first :: (body ++ [last])) := by
  cases kw with
  | «for» =>
      obtain ⟨parts, items, rfl⟩ := fills
      exact .loop opens items closes
  | «if» =>
      obtain ⟨parts, items, rfl⟩ := fills
      exact .conditional opens items closes
  | _ => exact .text rfl opens fills closes

theorem fills_nil (kw : Keyword) : Fills kw [] := by
  cases kw with
  | «for» => exact items_nil false
  | «if» => exact items_nil true
  | _ => simp [Fills]

theorem fills_text {kw : Keyword} (own : kw.isOpaque = true) (body : List Line) :
    Fills kw body ↔ ∀ line ∈ body, line.closes kw = false := by
  cases kw with
  | «for» => cases own
  | «if» => cases own
  | _ => simp [Fills]

theorem completes_append {opened : List Keyword} {part rest : List Line}
    (transparent : textNext opened = false) (item : Item (armed opened) part)
    (completes : Completes opened rest) : Completes opened (part ++ rest) := by
  cases opened with
  | nil => exact items_append item completes
  | cons kw below =>
      obtain ⟨body, last, rest, rfl, fills, closes, completes⟩ := completes
      refine ⟨part ++ body, last, rest, by simp, ?_, closes, completes⟩
      cases kw with
      | «for» => exact items_append item fills
      | «if» => exact items_append item fills
      | _ => cases transparent

/-- Lines that lead to the end of all blocks complete them: each line is put in front of what the
lines after it complete. -/
theorem completes_of_follow {opened : List Keyword} {lines : List Line}
    (followed : follow opened lines = some []) : Completes opened lines := by
  induction lines generalizing opened with
  | nil =>
      cases followed
      exact items_nil false
  | cons line lines ih =>
      obtain ⟨next, advanced, followed⟩ := Option.bind_eq_some_iff.mp followed
      have completes := ih followed
      unfold advance at advanced
      split at advanced
      · -- text of a block: the line is one more of its body, or closes it
        rename_i own
        cases opened with
        | nil => cases own
        | cons kw below =>
            cases closes : line.closes kw with
            | true =>
                simp only [List.head?_cons, Option.any_some, closes, if_true, List.tail_cons,
                  Option.some.injEq] at advanced
                subst advanced
                exact ⟨[], line, lines, rfl, fills_nil kw, closes, completes⟩
            | false =>
                simp only [List.head?_cons, Option.any_some, closes, Bool.false_eq_true, if_false,
                  Option.some.injEq] at advanced
                subst advanced
                obtain ⟨body, last, rest, rfl, fills, closing, completes⟩ := completes
                have filled : Fills kw (line :: body) :=
                  (fills_text own _).mpr
                    (List.forall_mem_cons.mpr ⟨closes, (fills_text own _).mp fills⟩)
                exact ⟨line :: body, last, rest, rfl, filled, closing, completes⟩
      · rename_i transparent
        rw [Bool.not_eq_true] at transparent
        cases line with
        | opener kw inline head tail =>
            cases inline with
            | true =>
                cases advanced
                exact completes_append transparent (.plain rfl) completes
            | false =>
                cases advanced
                obtain ⟨body, last, rest, rfl, fills, closes, completes⟩ := completes
                have opens : (Line.opener kw false head tail).opens kw = true := by
                  simp [Line.opens]
                have item := item_of_fills (armed opened) opens fills closes
                simpa using completes_append transparent item completes
        | arm which head tail =>
            simp only [Option.ite_none_right_eq_some, Option.some.injEq] at advanced
            obtain ⟨inIf, rfl⟩ := advanced
            have item : Item (armed opened) [.arm which head tail] := by
              rw [inIf]
              exact .arm rfl
            exact completes_append transparent item completes
        | closer kw head tail =>
            simp only [Option.ite_none_right_eq_some, Option.some.injEq] at advanced
            obtain ⟨innermost, rfl⟩ := advanced
            cases opened with
            | nil => cases innermost
            | cons kw' below =>
                cases innermost
                exact ⟨[], _, lines, rfl, fills_nil kw, by simp [Line.closes], completes⟩
        | _ =>
            cases advanced
            exact completes_append transparent (.plain rfl) completes

/-! ## Lines of the grammar lead on -/

theorem follow_text {kw : Keyword} (own : kw.isOpaque = true) (below : List Keyword)
    {body : List Line} (open_ : ∀ line ∈ body, line.closes kw = false) (rest : List Line) :
    follow (kw :: below) (body ++ rest) = follow (kw :: below) rest := by
  induction body with
  | nil => rfl
  | cons line body ih =>
      obtain ⟨first, others⟩ := List.forall_mem_cons.mp open_
      simp only [List.cons_append, follow, advance, textNext, List.head?_cons, Option.any_some, own,
        first, if_true, Bool.false_eq_true, if_false, Option.bind_some]
      exact ih others

theorem follow_opens {kw : Keyword} {opened : List Keyword} {first : Line}
    (transparent : textNext opened = false) (opens : first.opens kw = true) (rest : List Line) :
    follow opened (first :: rest) = follow (kw :: opened) rest := by
  cases first with
  | opener kw' inline head tail =>
      simp only [Line.opens, Bool.and_eq_true, beq_iff_eq, Bool.not_eq_true'] at opens
      obtain ⟨rfl, rfl⟩ := opens
      simp [follow, advance, transparent]
  | _ => cases opens

theorem follow_closes (kw : Keyword) (below : List Keyword) {last : Line}
    (closes : last.closes kw = true) (rest : List Line) :
    follow (kw :: below) (last :: rest) = follow below rest := by
  cases last with
  | closer kw' head tail =>
      simp only [Line.closes, beq_iff_eq] at closes
      subst closes
      cases own : kw'.isOpaque <;> simp [follow, advance, textNext, own, Line.closes]
  | _ => cases closes

theorem follow_flatten (opened : List Keyword) {parts : List (List Line)}
    (leads : ∀ part ∈ parts, ∀ rest, follow opened (part ++ rest) = follow opened rest)
    (rest : List Line) : follow opened (parts.flatten ++ rest) = follow opened rest := by
  induction parts with
  | nil => rfl
  | cons part parts ih =>
      obtain ⟨first, others⟩ := List.forall_mem_cons.mp leads
      rw [List.flatten_cons, List.append_assoc, first]
      exact ih others

theorem follow_item {inIf : Bool} {part : List Line} (item : Item inIf part)
    {opened : List Keyword} (transparent : textNext opened = false)
    (arms : inIf = true → armed opened = true) (rest : List Line) :
    follow opened (part ++ rest) = follow opened rest := by
  induction item generalizing opened rest with
  | @plain inIf line plain => cases line <;> simp_all [Line.isPlain, follow, advance]
  | @arm line arm => cases line <;> simp_all [Line.isArm, follow, advance]
  | @loop inIf first last parts opens items closes ih =>
      have inner := follow_flatten (.for :: opened) fun part member rest =>
        ih part member rfl (by simp) rest
      rw [List.cons_append, follow_opens transparent opens, List.append_assoc, inner]
      exact follow_closes .for opened closes rest
  | @conditional inIf first last parts opens items closes ih =>
      have inner := follow_flatten (.if :: opened) fun part member rest =>
        ih part member rfl (fun _ => rfl) rest
      rw [List.cons_append, follow_opens transparent opens, List.append_assoc, inner]
      exact follow_closes .if opened closes rest
  | @text inIf kw first last body own opens open_ closes =>
      rw [List.cons_append, follow_opens transparent opens, List.append_assoc,
        follow_text own opened open_]
      exact follow_closes kw opened closes rest

theorem follow_items {inIf : Bool} {lines : List Line} (items : Items inIf lines)
    (opened : List Keyword) (transparent : textNext opened = false)
    (arms : inIf = true → armed opened = true) (rest : List Line) :
    follow opened (lines ++ rest) = follow opened rest := by
  obtain ⟨parts, items, rfl⟩ := items
  exact follow_flatten opened
    (fun part member rest => follow_item (items part member) transparent arms rest) rest

theorem follow_fills {kw : Keyword} {body : List Line} (fills : Fills kw body)
    (below : List Keyword) (rest : List Line) :
    follow (kw :: below) (body ++ rest) = follow (kw :: below) rest := by
  cases own : kw.isOpaque with
  | true => exact follow_text own below ((fills_text own body).mp fills) rest
  | false =>
      cases kw with
      | «for» => exact follow_items fills (.for :: below) rfl (by simp) rest
      | «if» => exact follow_items fills (.if :: below) rfl (fun _ => rfl) rest
      | _ => cases own

theorem follow_of_completes {opened : List Keyword} {lines : List Line}
    (completes : Completes opened lines) : follow opened lines = some [] := by
  induction opened generalizing lines with
  | nil => simpa [follow] using follow_items completes [] rfl (by simp) []
  | cons kw below ih =>
      obtain ⟨body, last, rest, rfl, fills, closes, completes⟩ := completes
      rw [follow_fills fills, follow_closes kw below closes]
      exact ih completes

theorem follow_eq_nil_iff (opened : List Keyword) (lines : List Line) :
    follow opened lines = some [] ↔ Completes opened lines :=
  ⟨completes_of_follow, follow_of_completes⟩

end Block

/-! ## A pass follows the keywords -/

theorem Code.ofNesting_of_ofBlocks {c : Code} (other : c.ofBlocks = false) :
    c.ofNesting = false := by
  cases c <;> simp_all [Code.ofBlocks, Code.ofNesting]

namespace Block.Stack

def opened (s : Stack) : List Keyword :=
  s.frames.map Frame.keyword

def outcome (r : Stack × List Diagnostic) : Option (List Keyword) :=
  if r.2.any fun d => d.code.ofNesting then none else some r.1.opened

theorem outcome_of_quiet {s : Stack} {ds : List Diagnostic}
    (quiet : ∀ d ∈ ds, d.code.ofNesting = false) : outcome (s, ds) = some s.opened := by
  have none_ : ds.any (fun d => d.code.ofNesting) = false := by
    rw [List.any_eq_false]
    intro d member
    simp [quiet d member]
  simp [outcome, none_]

theorem innermost?_eq (s : Stack) : s.innermost? = s.opened.head? := by
  cases frames : s.frames <;> simp [innermost?, opened, frames]

theorem inText_eq (s : Stack) : s.inText = textNext s.opened := by
  rw [inText, innermost?_eq, textNext]

theorem outcome_enter (s : Stack) (kw : Keyword) (inline : Bool) (head tail : Span) :
    outcome (s.enter kw inline head tail) = some (if inline then s.opened else kw :: s.opened) := by
  have loop : LoopAt (fun _ => True) tail := fun _ _ _ _ _ => trivial
  obtain ⟨frames, keyword, -, found⟩ := openFrame_reports s kw head trivial loop
  unfold enter
  dsimp only
  rw [outcome_of_quiet fun d member => (found d member).code]
  cases inline <;> simp [opened, frames, keyword]

theorem outcome_nextArm (s : Stack) (which : Arm) (head tail : Span) :
    outcome (s.nextArm which head tail) = if armed s.opened then some s.opened else none := by
  unfold nextArm
  cases frames : s.frames with
  | nil => simp [outcome, opened, armed, frames, Diagnostic.ofProblem, Problem.code, Code.ofNesting]
  | cons frame below =>
      dsimp only
      by_cases conditional : frame.keyword = .if
      · rw [if_pos conditional, outcome_of_quiet]
        · simp [opened, armed, frames, conditional]
        · intro d member
          split at member
          · rw [List.mem_singleton] at member
            subst member
            rfl
          · simp at member
      · rw [if_neg conditional]
        simp [outcome, opened, armed, frames, conditional, Diagnostic.ofProblem, Problem.code,
          Code.ofNesting]

theorem outcome_leave (s : Stack) (kw : Keyword) (head : Span) :
    outcome (s.leave kw head) =
      if s.opened.head? = some kw then some s.opened.tail else none := by
  unfold leave
  cases frames : s.frames with
  | nil =>
      simp [splitAt?, outcome, opened, frames, Diagnostic.ofProblem, Problem.code, Code.ofNesting]
  | cons frame below =>
      by_cases innermost : frame.keyword = kw
      · simp [splitAt?, outcome, opened, frames, innermost]
      · have outer : s.opened.head? ≠ some kw := by simpa [opened, frames] using innermost
        rw [if_neg outer]
        simp only [splitAt?, innermost, if_false]
        cases splitAt? kw below with
        | none => simp [outcome, Diagnostic.ofProblem, Problem.code, Code.ofNesting]
        | some parts =>
            simp [outcome, unclosed, Diagnostic.ofProblem, Problem.code, Code.ofNesting]

theorem outcome_textLine (s : Stack) (no : Nat) (line : List Char) :
    outcome (s.textLine no line) = some s.opened := by
  have quiet (t : Table) : ∀ d ∈ (tableLine t no line).2, Report Code.ofNesting (fun _ => True) d :=
    tableLine_reports t fun _ _ => trivial
  unfold textLine
  cases frames : s.frames with
  | nil => exact outcome_of_quiet (by simp)
  | cons frame below =>
      dsimp only
      cases table : frame.table with
      | none => exact outcome_of_quiet (by simp)
      | some t =>
          dsimp only
          rw [outcome_of_quiet fun d member => (quiet t d member).code]
          simp [opened, frames]

theorem outcome_references (s : Stack) (no : Nat) (line : List Char) :
    outcome (s, s.checkReferences no line) = some s.opened := by
  have quiet : ∀ d ∈ s.checkReferences no line, Report Code.ofNesting (fun _ => True) d :=
    checkReferences_reports s fun _ _ => trivial
  exact outcome_of_quiet fun d member => (quiet d member).code

theorem outcome_step (s : Stack) (no : Nat) (text : List Char) (line : Line) :
    outcome (s.step no text line) = advance s.opened line := by
  unfold step advance
  rw [inText_eq]
  split
  · -- in a text only the end of the block counts
    rename_i own
    cases line with
    | closer kw head tail =>
        dsimp only
        rw [innermost?_eq]
        by_cases innermost : s.opened.head? = some kw
        · rw [if_pos innermost, outcome_leave, if_pos innermost, innermost]
          simp [Line.closes]
        · rw [if_neg innermost, outcome_textLine]
          cases opened : s.opened with
          | nil => simp
          | cons kw' below =>
              have other : ¬ kw = kw' := by
                intro equal
                exact innermost (by simp [opened, equal])
              simp [Line.closes, other]
    | _ =>
        dsimp only
        rw [outcome_textLine]
        cases s.opened <;> simp [Line.closes]
  · cases line with
    | opener kw inline head tail => exact outcome_enter s kw inline head tail
    | arm which head tail => exact outcome_nextArm s which head tail
    | closer kw head tail => exact outcome_leave s kw head
    | setting name value => exact outcome_references s no text
    | text => exact outcome_references s no text
    | header name => exact outcome_of_quiet (by simp)
    | blank => exact outcome_of_quiet (by simp)

theorem finish_quiet_iff (s : Stack) :
    (∀ d ∈ s.finish, d.code.ofNesting = false) ↔ s.opened = [] := by
  unfold finish opened
  cases s.frames with
  | nil => simp
  | cons frame below =>
      constructor
      · intro quiet
        have first := quiet (unclosed frame) (by simp)
        cases first
      · simp

theorem outcome_append (s s' : Stack) (found others : List Diagnostic) :
    outcome (s', found ++ others) = (outcome (s, found)).bind fun _ => outcome (s', others) := by
  unfold outcome
  dsimp only
  rw [List.any_append]
  cases found.any fun d => d.code.ofNesting <;> rfl

theorem outcome_append_quiet {s : Stack} (found : List Diagnostic) {others : List Diagnostic}
    (quiet : ∀ d ∈ others, d.code.ofNesting = false) :
    outcome (s, found ++ others) = outcome (s, found) := by
  rw [outcome_append s, outcome_of_quiet quiet]
  unfold outcome
  split <;> rfl

theorem outcome_eq_some_iff (s : Stack) (ds : List Diagnostic) (opened : List Keyword) :
    outcome (s, ds) = some opened ↔ (∀ d ∈ ds, d.code.ofNesting = false) ∧ s.opened = opened := by
  simp [outcome]

end Block.Stack

namespace Pass

open Block Block.Stack

theorem keeps_any (p : Pass) : p.Keeps fun _ => True where
  path := fun _ _ _ _ => trivial
  tree := fun _ _ => ⟨trivial, fun _ _ => trivial⟩
  pending := fun _ _ => ⟨trivial, fun _ _ => trivial⟩

theorem sectionStep_quiet (env : Environment) (p : Pass) (line : Line) :
    ∀ d ∈ (p.sectionStep env line).2, d.code.ofBlocks = false := by
  have any : line.Keeps fun _ => True := by cases line <;> simp [Line.Keeps]
  exact fun d member => ((sectionStep_reports env (keeps_any p) any).2 d member).code

theorem outcome_passStep (env : Environment) (p : Pass) (no : Nat) (text : String) :
    outcome ((p.step env no text).1.blocks, (p.step env no text).2) =
      advance p.blocks.opened (Line.classify no text) := by
  rw [← outcome_step p.blocks no text.toList]
  unfold step
  dsimp only
  generalize p.blocks.step no text.toList (Line.classify no text) = blockStep
  obtain ⟨blocks, found⟩ := blockStep
  split
  · rfl
  · -- the section step reports nothing on nesting, so that the blocks decide
    dsimp only
    rw [blocks_sectionStep, outcome_append_quiet found fun d member =>
      Code.ofNesting_of_ofBlocks (sectionStep_quiet env _ _ d member)]

theorem outcome_run (env : Environment) (p : Pass) (no : Nat) (lines : List String) :
    outcome ((p.run env no lines).1.blocks, (p.run env no lines).2) =
      follow p.blocks.opened (Line.classifyFrom no lines) := by
  induction lines generalizing p no with
  | nil => rfl
  | cons text lines ih =>
      simp only [run, Line.classifyFrom, follow]
      rw [outcome_append (p.step env no text).1.blocks, outcome_passStep, ih]
      cases advanced : advance p.blocks.opened (Line.classify no text) with
      | none => rfl
      | some opened =>
          rw [← outcome_passStep env, outcome_eq_some_iff] at advanced
          rw [← advanced.2]
          rfl

theorem finish_nested_iff (env : Environment) (p : Pass) :
    (∀ d ∈ p.finish env, d.code.ofNesting = false) ↔ p.blocks.opened = [] := by
  have sections : ∀ d ∈ p.path.finish env.catalog, d.code.ofNesting = false := fun d member =>
    Code.ofNesting_of_ofBlocks
      (OpenPath.finish_reports env.catalog p.path (keeps_any p).path d member).ofBlocks.code
  have rules (rules : List Rule) :
      ∀ d ∈ Rule.run env.ruleContext rules p.flush.tree,
        d.code.ofNesting = false := fun d member =>
    Code.ofNesting_of_ofBlocks
      (Rule.run_reports (keeps_any p.flush).tree _ rules d member).ofBlocks.code
  rw [← finish_quiet_iff]
  unfold finish
  dsimp only
  rw [List.forall_mem_append, List.forall_mem_append]
  exact ⟨fun quiet => quiet.1.2, fun quiet => ⟨⟨sections, quiet⟩, rules _⟩⟩

end Pass

/-- A pass finds fault with the nesting of blocks exactly if the lines are not well nested. -/
theorem reports_nested_iff (env : Environment) (lines : List String) :
    (∀ d ∈ reports env lines, d.code ≠ .unclosedBlock ∧ d.code ≠ .unmatchedEnd) ↔
      Block.WellNested (Line.classifyFrom 0 lines) := by
  have codes (c : Code) : (c ≠ .unclosedBlock ∧ c ≠ .unmatchedEnd) ↔ c.ofNesting = false := by
    cases c <;> simp [Code.ofNesting]
  have run := Pass.outcome_run env {} 0 lines
  have completes := Block.follow_eq_nil_iff [] (Line.classifyFrom 0 lines)
  change Block.Stack.outcome _ = Block.follow [] _ at run
  change _ ↔ Block.WellNested _ at completes
  simp only [codes, reports, List.forall_mem_append]
  rw [← completes, ← run, Block.Stack.outcome_eq_some_iff, Pass.finish_nested_iff]

/-- The end of a loop in a table is text. -/
theorem reports_nested_iff_table :
    (∀ d ∈ reports ⟨{}, {}, ⟨0, by decide, by decide⟩⟩
        ["for a in b", "if x", "else", "csv t =", "endfor", "endcsv", "endif", "endfor"],
      d.code ≠ .unclosedBlock ∧ d.code ≠ .unmatchedEnd) ∧
    Block.WellNested (Line.classifyFrom 0
      ["for a in b", "if x", "else", "csv t =", "endfor", "endcsv", "endif", "endfor"]) := by
  have quiet : ∀ d ∈ reports ⟨{}, {}, ⟨0, by decide, by decide⟩⟩
        ["for a in b", "if x", "else", "csv t =", "endfor", "endcsv", "endif", "endfor"],
      d.code ≠ .unclosedBlock ∧ d.code ≠ .unmatchedEnd := by decide
  exact ⟨quiet, (reports_nested_iff _ _).mp quiet⟩

end ChartLint
