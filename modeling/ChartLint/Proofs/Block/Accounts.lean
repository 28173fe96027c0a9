import Mathlib.Data.List.Nodup
import ChartLint.Proofs.Validation.Declarations

/-!
# Every block and every end is accounted for

A line that opens a block is closed by one later line, or reported as not closed, and a line that
ends a block closes one, or is reported as unmatched: `blocks_accounted`. This holds of any
document, however its blocks are nested.

What a line does to the blocks is told once, by `Block.Stack.Turn`. From it follows a balance of
each line, `Visit.balance`: the blocks before it and the block it opens are the blocks after it, the
block it closes and those it reports. Over a document these balances add up, and as no two blocks
are opened by one line, nothing is counted twice.
-/

namespace ChartLint

namespace Block

structure Mark where
  keyword : Keyword
  word : Span
  deriving DecidableEq

def Mark.unclosed (m : Mark) : Diagnostic :=
  .ofProblem (.unclosedBlock m.keyword) m.word

def Mark.unmatched (m : Mark) : Diagnostic :=
  .ofProblem (.unmatchedEnd m.keyword) m.word

def Frame.mark (f : Frame) : Mark :=
  ⟨f.keyword, f.head⟩

namespace Stack

def takesEnd (s : Stack) (kw : Keyword) : Bool :=
  !s.inText || s.innermost? == some kw

def opening? (s : Stack) : Line → Option Mark
  | .opener kw false head _ => if s.inText then none else some ⟨kw, head⟩
  | _ => none

def ending? (s : Stack) : Line → Option Mark
  | .closer kw head _ => if s.takesEnd kw then some ⟨kw, head⟩ else none
  | _ => none

def closed? (s : Stack) (line : Line) : Option Mark :=
  (s.ending? line).bind fun e =>
    (s.frames.find? fun f => f.keyword == e.keyword).map Frame.mark

inductive Turn (no : Nat) (s : Stack) : Line → Stack × List Diagnostic → Prop where
  | opens {kw : Keyword} {head tail : Span} {s' : Stack} {frame : Frame} {found : List Diagnostic}
      (outside : s.inText = false) (here : head.line = no) (frames : s'.frames = frame :: s.frames)
      (mark : frame.mark = ⟨kw, head⟩)
      (quiet : ∀ d ∈ found, Report Code.ofNesting (fun place => place.line = no) d)
      (worded : ∀ d ∈ found, d.message ≠ (Problem.unclosedBlock kw).message) :
      Turn no s (.opener kw false head tail) (s', found)
  | closes {kw : Keyword} {head tail : Span} {above below : List Frame} {frame : Frame}
      (taken : s.takesEnd kw = true) (here : head.line = no)
      (frames : s.frames = above ++ frame :: below)
      (keyword : frame.keyword = kw) (inner : ∀ f ∈ above, f.keyword ≠ kw) :
      Turn no s (.closer kw head tail) ({ s with frames := below }, above.reverse.map unclosed)
  | unmatched {kw : Keyword} {head tail : Span} (taken : s.takesEnd kw = true)
      (here : head.line = no)
      (open_ : ∀ f ∈ s.frames, f.keyword ≠ kw) :
      Turn no s (.closer kw head tail) (s, [(Mark.mk kw head).unmatched])
  | stray {which : Arm} {head tail : Span} (here : head.line = no) :
      Turn no s (.arm which head tail) (s, [.ofProblem (.strayArm which) head])
  | passes {line : Line} {s' : Stack} {found : List Diagnostic} (opening : s.opening? line = none)
      (ending : s.ending? line = none)
      (frames : s'.frames.map Frame.mark = s.frames.map Frame.mark)
      (quiet : ∀ d ∈ found, Report Code.ofNesting (fun place => place.line = no) d) :
      Turn no s line (s', found)

/-! ## What a line does -/

variable {s : Stack} {no : Nat} {cs : List Char}

theorem splitAt?_eq_none_iff {kw : Keyword} {frames : List Frame} :
    splitAt? kw frames = none ↔ ∀ f ∈ frames, f.keyword ≠ kw := by
  induction frames with
  | nil => simp [splitAt?]
  | cons frame below ih =>
      rw [splitAt?, List.forall_mem_cons]
      split
      · simp_all
      · simp_all

theorem frames_of_splitAt? {kw : Keyword} {frames above below : List Frame}
    (found : splitAt? kw frames = some (above, below)) :
    ∃ frame, frames = above ++ frame :: below ∧ frame.keyword = kw ∧
      ∀ f ∈ above, f.keyword ≠ kw := by
  induction frames generalizing above with
  | nil => cases found
  | cons frame rest ih =>
      rw [splitAt?] at found
      split at found
      · cases found
        exact ⟨frame, rfl, ‹_›, by simp⟩
      · obtain ⟨⟨above', below'⟩, found', same⟩ := Option.map_eq_some_iff.mp found
        cases same
        obtain ⟨target, rfl, keyword, inner⟩ := ih found'
        exact ⟨target, rfl, keyword, List.forall_mem_cons.mpr ⟨‹_›, inner⟩⟩

theorem leave_turn {kw : Keyword} {head tail : Span} (taken : s.takesEnd kw = true)
    (pieces : (Line.closer kw head tail).Pieces no cs) :
    Turn no s (.closer kw head tail) (s.leave kw head) := by
  unfold leave
  cases split : splitAt? kw s.frames with
  | none => exact .unmatched taken pieces.1.slices.1 (splitAt?_eq_none_iff.mp split)
  | some parts =>
      obtain ⟨above, below⟩ := parts
      obtain ⟨frame, frames, keyword, inner⟩ := frames_of_splitAt? split
      exact .closes taken pieces.1.slices.1 frames keyword inner

theorem textLine_turn {line : Line} (opening : s.opening? line = none)
    (ending : s.ending? line = none) : Turn no s line (s.textLine no cs) := by
  unfold textLine
  cases frames : s.frames with
  | nil => exact .passes opening ending rfl (by simp)
  | cons frame below =>
      dsimp only
      cases frame.table with
      | none => exact .passes opening ending rfl (by simp)
      | some t =>
          refine .passes opening ending ?_ (tableLine_reports t fun place onLine => onLine.slices.1)
          rw [frames]
          rfl

theorem head?_unclosedBlock (kw : Keyword) :
    (Problem.unclosedBlock kw).message.toList.head? = some '\x27' := by
  cases kw <;> rfl

theorem openFrame_message (s : Stack) (kw : Keyword) (head tail : Span) :
    ∀ d ∈ (s.openFrame kw head tail).2.2, d.message ≠ (Problem.unclosedBlock kw).message := by
  have single {p : Problem} {place : Span} (starts : p.message.toList.head? ≠ some '\x27') :
      ∀ d ∈ [Diagnostic.ofProblem p place], d.message ≠ (Problem.unclosedBlock kw).message := by
    intro d member same
    rw [List.mem_singleton.mp member] at same
    exact starts ((congrArg (fun text => text.toList.head?) same).trans (head?_unclosedBlock kw))
  have named (kw' : Keyword) (name : List Char) :
      ∀ d ∈ (s.declareName kw' head name).2, d.message ≠ (Problem.unclosedBlock kw).message := by
    unfold declareName
    split
    · exact single (by cases kw' <;> decide)
    · simp
  cases kw with
  | «for» =>
      simp only [openFrame, forFrame]
      cases loopParts? tail with
      | none => exact single (by decide)
      | some parts =>
          obtain ⟨name, collection⟩ := parts
          dsimp only
          cases collectionName? collection with
          | none => simp
          | some place =>
              simp only [Option.elim_some, checkName]
              split
              · simp
              · have quoted : (Problem.unknownName place.text).message =
                    "unknown name '" ++ place.text ++ "'" := rfl
                exact single (by rw [quoted]; simp)
  | «if» =>
      simp only [openFrame]
      split
      · exact single (by decide)
      · simp
  | var => exact named .var _
  | list => exact named .list _
  | csv => exact named .csv _
  | sql => simp [openFrame]
  | script => simp [openFrame]

theorem enter_turn {kw : Keyword} {inline : Bool} {head tail : Span} (outside : s.inText = false)
    (pieces : (Line.opener kw inline head tail).Pieces no cs) :
    Turn no s (.opener kw inline head tail) (s.enter kw inline head tail) := by
  have loop : LoopAt (fun place => place.line = no) tail :=
    loopAt_of_slices (fun place onLine => onLine.slices.1) pieces.2
  obtain ⟨frames, keyword, opened, quiet⟩ := openFrame_reports s kw head pieces.1.slices.1 loop
  unfold enter
  cases inline with
  | true => exact .passes rfl rfl (congrArg _ frames) quiet
  | false =>
      refine .opens outside pieces.1.slices.1 (congrArg _ frames) ?_ quiet
        (openFrame_message s kw head tail)
      exact congrArg₂ Mark.mk keyword opened

theorem nextArm_turn {which : Arm} {head tail : Span}
    (pieces : (Line.arm which head tail).Pieces no cs) :
    Turn no s (.arm which head tail) (s.nextArm which head tail) := by
  unfold nextArm
  cases frames : s.frames with
  | nil => exact .stray pieces.1.slices.1
  | cons frame below =>
      dsimp only
      split
      · refine .passes rfl rfl ?_ ?_
        · rw [frames]
          rfl
        · split
          · exact reports_single rfl pieces.1.slices.1
          · simp
      · exact .stray pieces.1.slices.1

theorem step_turn {line : Line} (pieces : line.Pieces no cs) :
    Turn no s line (s.step no cs line) := by
  have here : ∀ place : Span, place.OnLine no cs → place.line = no :=
    fun place onLine => onLine.slices.1
  unfold step
  split
  · -- in a text only the end of the block counts
    rename_i own
    cases line with
    | closer kw head tail =>
        dsimp only
        split
        · rename_i innermost
          exact leave_turn (by simp [takesEnd, innermost]) pieces
        · rename_i other
          exact textLine_turn rfl (by simp [ending?, takesEnd, own, other])
    | opener kw inline head tail =>
        exact textLine_turn (by cases inline <;> simp [opening?, own]) rfl
    | _ => exact textLine_turn rfl rfl
  · rename_i outside
    rw [Bool.not_eq_true] at outside
    have references := checkReferences_reports s here
    cases line with
    | opener kw inline head tail => exact enter_turn outside pieces
    | arm which head tail => exact nextArm_turn pieces
    | closer kw head tail => exact leave_turn (by simp [takesEnd, outside]) pieces
    | setting name value => exact .passes rfl rfl rfl references
    | text => exact .passes rfl rfl rfl references
    | header name => exact .passes rfl rfl rfl (by simp)
    | blank => exact .passes rfl rfl rfl (by simp)

/-! ## What follows for the blocks -/

theorem closed?_closer {kw : Keyword} (taken : s.takesEnd kw = true) (head tail : Span) :
    s.closed? (.closer kw head tail) =
      (s.frames.find? fun f => f.keyword == kw).map Frame.mark := by
  rw [closed?, ending?, if_pos taken, Option.bind_some]

theorem closed?_of_ending {line : Line} (ending : s.ending? line = none) :
    s.closed? line = none := by
  rw [closed?, ending, Option.bind_none]

theorem find?_target {kw : Keyword} {above : List Frame} {frame : Frame} (below : List Frame)
    (keyword : frame.keyword = kw) (inner : ∀ f ∈ above, f.keyword ≠ kw) :
    (above ++ frame :: below).find? (fun f => f.keyword == kw) = some frame := by
  have passed : above.find? (fun f => f.keyword == kw) = none := by
    simpa [List.find?_eq_none] using inner
  simp [List.find?_append, passed, keyword]

theorem find?_open {kw : Keyword} {frames : List Frame} (open_ : ∀ f ∈ frames, f.keyword ≠ kw) :
    frames.find? (fun f => f.keyword == kw) = none := by
  simpa [List.find?_eq_none] using open_

variable {line : Line} {result : Stack × List Diagnostic}

theorem Turn.frames_of_closed {m : Mark} (turn : Turn no s line result)
    (closed : s.closed? line = some m) :
    ∃ e above frame below, s.ending? line = some e ∧ e.keyword = m.keyword ∧
      s.frames = above ++ frame :: below ∧ frame.mark = m ∧ (∀ f ∈ above, f.keyword ≠ m.keyword) ∧
      result.1.frames = below ∧ result.2 = above.reverse.map unclosed := by
  cases turn with
  | opens => cases closed
  | @closes kw head tail above below frame taken here frames keyword inner =>
      rw [closed?_closer taken, frames, find?_target below keyword inner] at closed
      cases closed
      subst keyword
      exact ⟨⟨frame.keyword, head⟩, above, frame, below, if_pos taken, rfl, frames, rfl, inner, rfl,
        rfl⟩
  | unmatched taken here open_ =>
      rw [closed?_closer taken, find?_open open_] at closed
      cases closed
  | stray => cases closed
  | passes opening ending frames quiet =>
      rw [closed?_of_ending ending] at closed
      cases closed

theorem Turn.reports_of_unmatched {e : Mark} (turn : Turn no s line result)
    (ending : s.ending? line = some e) (open_ : s.closed? line = none) :
    result.2 = [e.unmatched] := by
  cases turn with
  | opens => cases ending
  | closes taken here frames keyword inner =>
      rw [closed?_closer taken, frames, find?_target _ keyword inner] at open_
      cases open_
  | unmatched taken here others =>
      rw [ending?, if_pos taken] at ending
      cases ending
      rfl
  | stray => cases ending
  | passes opening none_ frames quiet =>
      rw [none_] at ending
      cases ending

theorem Turn.line_of_opening {m : Mark} (turn : Turn no s line result)
    (opening : s.opening? line = some m) : m.word.line = no := by
  cases turn with
  | opens outside here frames mark quiet worded =>
      simp only [opening?, outside, Bool.false_eq_true, if_false, Option.some.injEq] at opening
      subst opening
      exact here
  | passes none_ ending frames quiet =>
      rw [none_] at opening
      cases opening
  | _ => cases opening

theorem Turn.line_of_ending {e : Mark} (turn : Turn no s line result)
    (ending : s.ending? line = some e) : e.word.line = no := by
  cases turn with
  | closes taken here frames keyword inner =>
      rw [ending?, if_pos taken] at ending
      cases ending
      exact here
  | unmatched taken here open_ =>
      rw [ending?, if_pos taken] at ending
      cases ending
      exact here
  | passes opening none_ frames quiet =>
      rw [none_] at ending
      cases ending
  | _ => cases ending

theorem Turn.unmatched_eq {d : Diagnostic} (turn : Turn no s line result) (member : d ∈ result.2)
    (code : d.code = .unmatchedEnd) : d.range.start.line = no ∧ result.2 = [d] := by
  have loud {ds : List Diagnostic} {places : Span → Prop}
      (quiet : ∀ d ∈ ds, Report Code.ofNesting places d) : d ∉ ds := by
    intro member
    have other := (quiet d member).code
    rw [code] at other
    cases other
  cases turn with
  | opens outside here frames mark quiet worded => exact absurd member (loud quiet)
  | closes taken here frames keyword inner =>
      obtain ⟨f, -, rfl⟩ := List.mem_map.mp member
      cases code
  | unmatched taken here open_ =>
      rw [List.mem_singleton.mp member]
      exact ⟨here, rfl⟩
  | stray here =>
      rw [List.mem_singleton.mp member]
      exact ⟨here, rfl⟩
  | passes opening ending frames quiet => exact absurd member (loud quiet)

theorem Turn.line_of_mem {d : Diagnostic} (turn : Turn no s line result) (member : d ∈ result.2)
    (other : d.code ≠ .unclosedBlock) : d.range.start.line = no := by
  have placed {ds : List Diagnostic}
      (quiet : ∀ d ∈ ds, Report Code.ofNesting (fun place => place.line = no) d) (member : d ∈ ds) :
      d.range.start.line = no := by
    obtain ⟨place, here, range⟩ := (quiet d member).at_place.range
    rw [range]
    exact here
  cases turn with
  | opens outside here frames mark quiet worded => exact placed quiet member
  | closes taken here frames keyword inner =>
      obtain ⟨f, -, rfl⟩ := List.mem_map.mp member
      exact absurd rfl other
  | unmatched taken here open_ =>
      rw [List.mem_singleton.mp member]
      exact here
  | stray here =>
      rw [List.mem_singleton.mp member]
      exact here
  | passes opening ending frames quiet => exact placed quiet member

theorem Turn.reports_of_opening {m : Mark} (turn : Turn no s line result)
    (opening : s.opening? line = some m) :
    ∀ d ∈ result.2, d.code.ofNesting = false ∧ d.message ≠ m.unclosed.message := by
  cases turn with
  | opens outside here frames mark quiet worded =>
      simp only [opening?, outside, Bool.false_eq_true, if_false, Option.some.injEq] at opening
      subst opening
      exact fun d member => ⟨(quiet d member).code, worded d member⟩
  | passes none_ ending frames quiet =>
      rw [none_] at opening
      cases opening
  | _ => cases opening

theorem Turn.keeps (turn : Turn no s line result) (places : Span → Prop)
    (word : (s.opening? line).isSome = true ∨ ∃ d ∈ result.2, d.code.ofNesting = true) :
    line.Keeps places := by
  cases turn with
  | passes opening ending frames quiet =>
      rcases word with opens | ⟨d, member, loud⟩
      · rw [opening] at opens
        cases opens
      · rw [(quiet d member).code] at loud
        cases loud
  | _ => trivial

def isUnclosed (d : Diagnostic) : Bool :=
  d.code == .unclosedBlock

theorem ofNesting_of_isUnclosed (d : Diagnostic) (chosen : isUnclosed d = true) :
    d.code.ofNesting = true := by
  rw [eq_of_beq chosen]
  rfl

theorem ofBlocks_of_isUnclosed (d : Diagnostic) (chosen : isUnclosed d = true) :
    d.code.ofBlocks = true := by
  rw [eq_of_beq chosen]
  rfl

theorem filter_isUnclosed {places : Span → Prop} {ds : List Diagnostic}
    (quiet : ∀ d ∈ ds, Report Code.ofNesting places d) : ds.filter isUnclosed = [] := by
  rw [List.filter_eq_nil_iff]
  intro d member chosen
  have other := (quiet d member).code
  rw [eq_of_beq chosen] at other
  cases other

theorem filter_unclosed (frames : List Frame) :
    (frames.map unclosed).filter isUnclosed = (frames.map Frame.mark).map Mark.unclosed := by
  rw [List.filter_eq_self.mpr]
  · simp [Function.comp_def, unclosed, Frame.mark, Mark.unclosed]
  · intro d member
    obtain ⟨f, -, rfl⟩ := List.mem_map.mp member
    rfl

/-- The blocks before a line and the one it opens are the one it closes, those it reports and those
after it. -/
theorem Turn.balance (turn : Turn no s line result) :
    ∃ dropped : List Mark, result.2.filter isUnclosed = dropped.map Mark.unclosed ∧
      ((s.opening? line).toList ++ s.frames.map Frame.mark).Perm
        ((s.closed? line).toList ++ (dropped ++ result.1.frames.map Frame.mark)) := by
  cases turn with
  | opens outside here frames mark quiet worded =>
      refine ⟨[], filter_isUnclosed quiet, ?_⟩
      rw [frames, List.map_cons, mark, opening?, outside]
      exact .refl _
  | @closes kw head tail above below frame taken here frames keyword inner =>
      refine ⟨(above.reverse.map Frame.mark), filter_unclosed _, ?_⟩
      rw [closed?_closer taken, frames, find?_target below keyword inner]
      simp only [opening?, Option.toList_none, List.nil_append, List.map_append, List.map_cons,
        Option.map_some, Option.toList_some, List.singleton_append]
      refine List.perm_middle.trans (.cons _ (.append_right _ ?_))
      rw [List.map_reverse]
      exact (List.reverse_perm _).symm
  | unmatched taken here open_ =>
      refine ⟨[], rfl, ?_⟩
      rw [closed?_closer taken, find?_open open_]
      exact .refl _
  | stray => exact ⟨[], rfl, .refl _⟩
  | passes opening ending frames quiet =>
      refine ⟨[], filter_isUnclosed quiet, ?_⟩
      rw [opening, closed?_of_ending ending, frames]
      exact .refl _

end Stack
end Block

open Block

structure Visit where
  pass : Pass
  no : Nat
  text : String

def Pass.visits (env : Environment) (p : Pass) (no : Nat) : List String → List Visit
  | [] => []
  | text :: lines => ⟨p, no, text⟩ :: (p.step env no text).1.visits env (no + 1) lines

def visits (env : Environment) (lines : List String) : List Visit :=
  Pass.visits env {} 0 lines

namespace Visit

def line (v : Visit) : Line :=
  Line.classify v.no v.text

def opening? (v : Visit) : Option Mark :=
  v.pass.blocks.opening? v.line

def ending? (v : Visit) : Option Mark :=
  v.pass.blocks.ending? v.line

def closed? (v : Visit) : Option Mark :=
  v.pass.blocks.closed? v.line

def turn (v : Visit) : Stack × List Diagnostic :=
  v.pass.blocks.step v.no v.text.toList v.line

/-- The line closes a block: it is an end of the keyword, the block is the innermost one with it,
and the blocks after the line are those around the block. -/
def Closes (env : Environment) (v : Visit) (m : Mark) : Prop :=
  ∃ e above frame below, v.ending? = some e ∧ e.keyword = m.keyword ∧
    v.pass.blocks.frames = above ++ frame :: below ∧ frame.mark = m ∧
    (∀ f ∈ above, f.keyword ≠ m.keyword) ∧
    (v.pass.step env v.no v.text).1.blocks.frames = below

variable (env : Environment) (v : Visit)

theorem turns : Stack.Turn v.no v.pass.blocks v.line v.turn :=
  Stack.step_turn (Line.pieces_ofChars v.no v.text.toList)

theorem blocks_next : (v.pass.step env v.no v.text).1.blocks = v.turn.1 :=
  Pass.blocks_step env _ _ _

theorem closes_iff {m : Mark} : v.Closes env m ↔ v.closed? = some m := by
  constructor
  · rintro ⟨e, above, frame, below, ending, keyword, frames, rfl, inner, -⟩
    have target := Stack.find?_target below rfl inner
    rw [closed?, Stack.closed?, ← ending?, ending, Option.bind_some, frames, keyword]
    exact congrArg (Option.map Frame.mark) target
  · intro closed
    obtain ⟨e, above, frame, below, ending, keyword, frames, mark, inner, after, -⟩ :=
      v.turns.frames_of_closed closed
    exact ⟨e, above, frame, below, ending, keyword, frames, mark, inner, by rw [blocks_next, after]⟩

theorem balance : ∃ dropped : List Mark,
    v.turn.2.filter Stack.isUnclosed = dropped.map Mark.unclosed ∧
      (v.opening?.toList ++ v.pass.blocks.frames.map Frame.mark).Perm (v.closed?.toList ++
        (dropped ++ (v.pass.step env v.no v.text).1.blocks.frames.map Frame.mark)) := by
  rw [blocks_next]
  exact v.turns.balance

instance : Decidable (∃ m, v.Closes env m) :=
  decidable_of_iff (v.closed?.isSome = true) (by simp only [closes_iff, Option.isSome_iff_exists])

end Visit

/-! ## Along a document -/

namespace Pass

variable (env : Environment) {picked : Diagnostic → Bool}

theorem filter_of_quiet {class_ : Code → Bool} (only : ∀ d, picked d = true → class_ d.code = true)
    {ds : List Diagnostic} (quiet : ∀ d ∈ ds, class_ d.code = false) : ds.filter picked = [] := by
  rw [List.filter_eq_nil_iff]
  intro d member chosen
  exact Bool.false_ne_true ((quiet d member).symm.trans (only d chosen))

theorem no_le_of_mem_visits {p : Pass} {no : Nat} {lines : List String} {v : Visit}
    (member : v ∈ p.visits env no lines) : no ≤ v.no := by
  induction lines generalizing p no with
  | nil => cases member
  | cons text lines ih =>
      rcases List.mem_cons.mp member with rfl | later
      · exact Nat.le_refl _
      · exact Nat.le_of_succ_le (ih later)

theorem pairwise_visits (p : Pass) (no : Nat) (lines : List String) :
    (p.visits env no lines).Pairwise fun v w => v.no < w.no := by
  induction lines generalizing p no with
  | nil => exact .nil
  | cons text lines ih => exact .cons (fun w later => no_le_of_mem_visits env later) (ih _ _)

theorem filter_step (only : ∀ d, picked d = true → d.code.ofBlocks = true) (p : Pass) (no : Nat)
    (text : String) :
    (p.step env no text).2.filter picked = (Visit.mk p no text).turn.2.filter picked := by
  unfold step
  dsimp only
  split
  · rfl
  · dsimp only
    rw [List.filter_append, filter_of_quiet only (sectionStep_quiet env _ _), List.append_nil]
    rfl

theorem filter_run (only : ∀ d, picked d = true → d.code.ofBlocks = true) (p : Pass) (no : Nat)
    (lines : List String) :
    (p.run env no lines).2.filter picked =
      (p.visits env no lines).flatMap fun v => v.turn.2.filter picked := by
  induction lines generalizing p no with
  | nil => rfl
  | cons text lines ih =>
      rw [run, visits, List.flatMap_cons, ← filter_step env only, ← ih]
      exact List.filter_append ..

theorem run_balance (p : Pass) (no : Nat) (lines : List String) :
    ∃ dropped : List Mark,
      (p.run env no lines).2.filter Stack.isUnclosed = dropped.map Mark.unclosed ∧
      ((p.visits env no lines).filterMap Visit.opening? ++ p.blocks.frames.map Frame.mark).Perm
        ((p.visits env no lines).filterMap Visit.closed? ++
          (dropped ++ (p.run env no lines).1.blocks.frames.map Frame.mark)) := by
  induction lines generalizing p no with
  | nil => exact ⟨[], rfl, .refl _⟩
  | cons text lines ih =>
      obtain ⟨dropped, found, perm⟩ := (Visit.mk p no text).balance env
      obtain ⟨later, others, rest⟩ := ih (p.step env no text).1 (no + 1)
      have here := filter_step env Stack.ofBlocks_of_isUnclosed p no text
      refine ⟨dropped ++ later, ?_, ?_⟩
      · rw [List.map_append, ← found, ← others, ← here]
        exact List.filter_append ..
      · rw [List.perm_iff_count] at perm rest ⊢
        intro m
        have now := perm m
        have next := rest m
        simp only [visits, run, List.filterMap_eq_flatMap_toList, List.flatMap_cons,
          List.count_append]
          at now next ⊢
        omega

theorem exists_opening {p : Pass} {no : Nat} {lines : List String} {w : Visit} {m : Mark}
    (member : w ∈ p.visits env no lines) (open_ : m ∈ w.pass.blocks.frames.map Frame.mark) :
    m ∈ p.blocks.frames.map Frame.mark ∨
      ∃ v ∈ p.visits env no lines, v.no < w.no ∧ v.opening? = some m := by
  induction lines generalizing p no with
  | nil => cases member
  | cons text lines ih =>
      rcases List.mem_cons.mp member with rfl | later
      · exact .inl open_
      · rcases ih later with before | ⟨v, among, earlier, opening⟩
        · obtain ⟨dropped, -, perm⟩ := (Visit.mk p no text).balance env
          have known := perm.symm.subset
            (List.mem_append_right _ (List.mem_append_right dropped before))
          rcases List.mem_append.mp known with opened | kept
          · exact .inr ⟨_, List.mem_cons_self, no_le_of_mem_visits env later,
              Option.mem_toList.mp opened⟩
          · exact .inl kept
        · exact .inr ⟨v, List.mem_cons_of_mem _ among, earlier, opening⟩

theorem run_parts {places : Span → Prop} {p : Pass} (kept : p.Keeps places) (no : Nat)
    (lines : List String) (keeps : ∀ v ∈ p.visits env no lines, v.line.Keeps places) :
    (p.run env no lines).1.Keeps places ∧
      ∀ d ∈ (p.run env no lines).2, d.At places ∨ ∃ v ∈ p.visits env no lines, d ∈ v.turn.2 := by
  induction lines generalizing p no with
  | nil => exact ⟨kept, by simp [run]⟩
  | cons text lines ih =>
      obtain ⟨first, others⟩ := List.forall_mem_cons.mp keeps
      have here : (p.step env no text).1.Keeps places ∧
          ∀ d ∈ (p.step env no text).2, d.At places ∨ d ∈ (Visit.mk p no text).turn.2 := by
        unfold step
        dsimp only
        split
        · exact ⟨⟨kept.path, kept.tree, kept.pending⟩, fun d member => .inr member⟩
        · have entered : Keeps places { p with blocks := (Visit.mk p no text).turn.1 } :=
            ⟨kept.path, kept.tree, kept.pending⟩
          obtain ⟨keeps, found⟩ := sectionStep_reports env entered first
          refine ⟨keeps, List.forall_mem_append.mpr ⟨fun d member => .inr member, ?_⟩⟩
          exact fun d member => .inl (found d member).at_place
      obtain ⟨kept, found⟩ := ih here.1 (no + 1) others
      refine ⟨kept, List.forall_mem_append.mpr ⟨?_, ?_⟩⟩
      · intro d member
        exact (here.2 d member).imp id fun turn => ⟨_, List.mem_cons_self, turn⟩
      · intro d member
        rcases found d member with away | ⟨v, among, turn⟩
        · exact .inl away
        · exact .inr ⟨v, List.mem_cons_of_mem _ among, turn⟩

end Pass

section Documents

variable {env : Environment} {lines : List String}

theorem eq_of_no {v w : Visit} (among : v ∈ visits env lines) (among' : w ∈ visits env lines)
    (same : v.no = w.no) : v = w := by
  have distinct : ((visits env lines).map Visit.no).Nodup :=
    List.pairwise_map.mpr ((Pass.pairwise_visits env {} 0 lines).imp Nat.ne_of_lt)
  exact List.inj_on_of_nodup_map distinct among among' same

theorem Visit.line_of_opening {v : Visit} {m : Mark} (opening : v.opening? = some m) :
    m.word.line = v.no :=
  v.turns.line_of_opening opening

theorem nodup_openings (env : Environment) (lines : List String) :
    ((visits env lines).filterMap Visit.opening?).Nodup := by
  refine List.pairwise_filterMap.mpr ((Pass.pairwise_visits env {} 0 lines).imp ?_)
  rintro v w apart m opening _ opening' rfl
  rw [← Visit.line_of_opening opening, ← Visit.line_of_opening opening'] at apart
  exact Nat.lt_irrefl _ apart

theorem finish_quiet (env : Environment) (p : Pass) :
    (∀ d ∈ p.path.finish env.catalog, d.code.ofBlocks = false) ∧
      ∀ rules, ∀ d ∈ Rule.run env.ruleContext rules p.flush.tree,
        d.code.ofBlocks = false := by
  constructor
  · exact fun d member =>
      (OpenPath.finish_reports env.catalog p.path (Pass.keeps_any p).path d member).ofBlocks.code
  · exact fun rules d member =>
      (Rule.run_reports (Pass.keeps_any p.flush).tree _ rules d member).ofBlocks.code

theorem filter_reports_ofBlocks {picked : Diagnostic → Bool}
    (only : ∀ d, picked d = true → d.code.ofBlocks = true) (env : Environment)
    (lines : List String) :
    (reports env lines).filter picked =
      (Pass.run env {} 0 lines).2.filter picked ++
        (Pass.run env {} 0 lines).1.blocks.finish.filter picked := by
  obtain ⟨sections, rules⟩ := finish_quiet env (Pass.run env {} 0 lines).1
  unfold reports Pass.finish
  dsimp only
  rw [List.filter_append, List.filter_append, List.filter_append,
    Pass.filter_of_quiet only sections, Pass.filter_of_quiet only (rules _), List.append_nil,
    List.nil_append]

theorem filter_reports {picked : Diagnostic → Bool}
    (only : ∀ d, picked d = true → d.code.ofNesting = true) (env : Environment)
    (lines : List String) :
    (reports env lines).filter picked =
      (Pass.run env {} 0 lines).2.filter picked ++
        (Pass.run env {} 0 lines).1.blocks.finish.filter picked := by
  refine filter_reports_ofBlocks (fun d chosen => ?_) env lines
  by_contra other
  rw [Bool.not_eq_true] at other
  exact Bool.false_ne_true ((Code.ofNesting_of_ofBlocks other).symm.trans (only d chosen))

theorem filter_reports_at {picked : Diagnostic → Bool} {w : Visit} (visited : w ∈ visits env lines)
    (only : ∀ d, picked d = true →
      d.code.ofBlocks = true ∧ d.code ≠ .unclosedBlock ∧ d.range.start.line = w.no) :
    (reports env lines).filter picked = w.turn.2.filter picked := by
  have blocks (d : Diagnostic) (chosen : picked d = true) : d.code.ofBlocks = true :=
    (only d chosen).1
  have elsewhere {v : Visit} (apart : v.no ≠ w.no) : v.turn.2.filter picked = [] := by
    rw [List.filter_eq_nil_iff]
    intro d member chosen
    obtain ⟨-, other, line⟩ := only d chosen
    exact apart ((v.turns.line_of_mem member other).symm.trans line)
  have finish : (Pass.run env {} 0 lines).1.blocks.finish.filter picked = [] := by
    rw [List.filter_eq_nil_iff]
    intro d member chosen
    obtain ⟨f, -, rfl⟩ := List.mem_map.mp member
    exact (only _ chosen).2.1 rfl
  have order := Pass.pairwise_visits env {} 0 lines
  rw [filter_reports_ofBlocks blocks, finish, List.append_nil, Pass.filter_run env blocks]
  obtain ⟨before, after, split⟩ := List.append_of_mem visited
  unfold visits at split
  rw [split] at order ⊢
  obtain ⟨-, following, earlier⟩ := List.pairwise_append.mp order
  have before_ := fun v among => elsewhere (Nat.ne_of_lt (earlier v among w List.mem_cons_self))
  have after_ :=
    fun v among => elsewhere (Nat.ne_of_gt ((List.pairwise_cons.mp following).1 v among))
  rw [List.flatMap_append, List.flatMap_cons, List.flatMap_eq_nil_iff.mpr before_,
    List.flatMap_eq_nil_iff.mpr after_, List.append_nil, List.nil_append]

theorem reports_balance (env : Environment) (lines : List String) :
    ∃ dropped : List Mark, (reports env lines).filter Stack.isUnclosed = dropped.map Mark.unclosed ∧
      ((visits env lines).filterMap Visit.opening?).Perm
        ((visits env lines).filterMap Visit.closed? ++ dropped) := by
  obtain ⟨dropped, found, perm⟩ := Pass.run_balance env {} 0 lines
  refine ⟨dropped ++ (Pass.run env {} 0 lines).1.blocks.frames.reverse.map Frame.mark, ?_, ?_⟩
  · rw [filter_reports Stack.ofNesting_of_isUnclosed, found, Stack.finish, Stack.filter_unclosed,
      List.map_append]
  · rw [List.map_nil, List.append_nil] at perm
    refine perm.trans (.append_left _ (.append_left _ ?_))
    rw [List.map_reverse]
    exact (List.reverse_perm _).symm

theorem visit_of_nesting {d : Diagnostic} (member : d ∈ reports env lines)
    (nesting : d.code.ofNesting = true) :
    ∃ v ∈ visits env lines, v.no = d.range.start.line ∧
      (v.turn.2 = [d] ∨ ∃ m, v.opening? = some m ∧ d = m.unclosed) := by
  cases code : d.code with
  | unclosedBlock =>
      obtain ⟨dropped, found, perm⟩ := reports_balance env lines
      have chosen : d ∈ (reports env lines).filter Stack.isUnclosed :=
        List.mem_filter.mpr ⟨member, beq_iff_eq.mpr code⟩
      rw [found] at chosen
      obtain ⟨m, among, rfl⟩ := List.mem_map.mp chosen
      obtain ⟨v, visited, opening⟩ :=
        List.mem_filterMap.mp (perm.symm.subset (List.mem_append_right _ among))
      exact ⟨v, visited, (Visit.line_of_opening opening).symm, .inr ⟨m, opening, rfl⟩⟩
  | unmatchedEnd =>
      have only (d : Diagnostic) (chosen : (d.code == .unmatchedEnd) = true) :
          d.code.ofBlocks = true := by
        rw [eq_of_beq chosen]
        rfl
      have chosen : d ∈ (reports env lines).filter fun d => d.code == .unmatchedEnd :=
        List.mem_filter.mpr ⟨member, beq_iff_eq.mpr code⟩
      rw [filter_reports_ofBlocks only, Pass.filter_run env only] at chosen
      rcases List.mem_append.mp chosen with run | finish
      · obtain ⟨v, visited, turned⟩ := List.mem_flatMap.mp run
        obtain ⟨line, single⟩ := v.turns.unmatched_eq (List.mem_of_mem_filter turned) code
        exact ⟨v, visited, line.symm, .inl single⟩
      · obtain ⟨f, -, rfl⟩ := List.mem_map.mp (List.mem_of_mem_filter finish)
        cases code
  | _ =>
      rw [code] at nesting
      cases nesting

theorem mem_turn_of_line {v : Visit} (visited : v ∈ visits env lines)
    (free : v.line.Keeps fun place => place.line ≠ v.no) {e : Diagnostic}
    (member : e ∈ reports env lines)
    (other : e.code.ofNesting = false) (line : v.no = e.range.start.line) : e ∈ v.turn.2 := by
  have unlike : e.code ≠ .unclosedBlock := by
    intro same
    rw [same] at other
    cases other
  have keeps : ∀ w ∈ visits env lines, w.line.Keeps fun place => place.line ≠ v.no := by
    intro w visited'
    by_cases here : w.no = v.no
    · obtain rfl := eq_of_no visited' visited here
      exact free
    · refine Line.keeps_of_pieces (fun place onLine => ?_) (Line.pieces_ofChars w.no w.text.toList)
      rw [onLine.slices.1]
      exact here
  have apart (at_ : e.At fun place => place.line ≠ v.no) : e ∈ v.turn.2 := by
    obtain ⟨place, away, placed⟩ := at_.range
    rw [placed] at line
    exact absurd line.symm away
  obtain ⟨kept, found⟩ := Pass.run_parts env Pass.keeps_empty 0 lines keeps
  unfold reports Pass.finish at member
  dsimp only at member
  rcases List.mem_append.mp member with run | finish
  · rcases found e run with away | ⟨w, visited', turned⟩
    · exact apart away
    · obtain rfl := eq_of_no visited visited' (line.trans (w.turns.line_of_mem turned unlike))
      exact turned
  · rcases List.mem_append.mp finish with early | rules
    · rcases List.mem_append.mp early with sections | blocks
      · exact apart (OpenPath.finish_reports env.catalog _ kept.path e sections).at_place
      · obtain ⟨f, -, rfl⟩ := List.mem_map.mp blocks
        cases other
    · exact apart (Rule.run_reports (Pass.keeps_flush kept).tree _ _ e rules).at_place

theorem eq_of_nesting {d e : Diagnostic} (member : d ∈ reports env lines)
    (nesting : d.code.ofNesting = true) (other : e ∈ reports env lines) (same : e.key = d.key) :
    e = d := by
  obtain ⟨v, visited, line, source⟩ := visit_of_nesting member nesting
  have range : e.range = d.range := congrArg Prod.fst same
  rw [← range] at line
  cases kind : e.code.ofNesting with
  | true =>
      obtain ⟨w, visited', line', source'⟩ := visit_of_nesting other kind
      obtain rfl := eq_of_no visited visited' (line.trans line'.symm)
      rcases source with single | ⟨m, opening, rfl⟩
      · rcases source' with single' | ⟨m, opening, rfl⟩
        · exact List.singleton_inj.mp (single'.symm.trans single)
        · have quiet := (v.turns.reports_of_opening opening d (by simp [single])).1
          rw [quiet] at nesting
          cases nesting
      · rcases source' with single' | ⟨m', opening', rfl⟩
        · have quiet := (v.turns.reports_of_opening opening e (by simp [single'])).1
          rw [quiet] at kind
          cases kind
        · rw [Option.some.inj (opening.symm.trans opening')]
  | false =>
      have free : v.line.Keeps fun place => place.line ≠ v.no := by
        apply v.turns.keeps
        rcases source with single | ⟨m, opening, -⟩
        · exact .inr ⟨d, by simp [single], nesting⟩
        · exact .inl (by rw [← Visit.opening?, opening]; rfl)
      have turned := mem_turn_of_line visited free other kind line
      rcases source with single | ⟨m, opening, rfl⟩
      · rw [single] at turned
        exact List.mem_singleton.mp turned
      · exact absurd (congrArg Prod.snd same) (v.turns.reports_of_opening opening e turned).2

end Documents

def reportsAt (env : Environment) (lines : List String) (code : Code) (word : Span) :
    List Diagnostic :=
  (reports env lines).filter fun d => d.code == code && d.range == word.range

section Ends

variable {env : Environment} {lines : List String}

theorem count_opening {v : Visit} {m : Mark} (visited : v ∈ visits env lines)
    (opening : v.opening? = some m) {dropped : List Mark}
    (perm : ((visits env lines).filterMap Visit.opening?).Perm
      ((visits env lines).filterMap Visit.closed? ++ dropped)) :
    ((visits env lines).filterMap Visit.closed?).count m + dropped.count m = 1 := by
  rw [← List.count_append, ← perm.count_eq]
  exact List.count_eq_one_of_mem (nodup_openings env lines)
    (List.mem_filterMap.mpr ⟨v, visited, opening⟩)

theorem reportsAt_unclosed {v : Visit} {m : Mark} (visited : v ∈ visits env lines)
    (opening : v.opening? = some m) {dropped : List Mark}
    (found : (reports env lines).filter Stack.isUnclosed = dropped.map Mark.unclosed)
    (among : ∀ m ∈ dropped, m ∈ (visits env lines).filterMap Visit.opening?) :
    reportsAt env lines .unclosedBlock m.word = List.replicate (dropped.count m) m.unclosed := by
  have split : reportsAt env lines .unclosedBlock m.word =
      ((reports env lines).filter Stack.isUnclosed).filter fun d => d.range == m.word.range := by
    rw [reportsAt, List.filter_filter]
    apply List.filter_congr
    intro d _
    rw [Stack.isUnclosed, Bool.and_comm]
  have same : ∀ m' ∈ dropped, (m'.unclosed.range == m.word.range) = (m' == m) := by
    intro m' within
    rw [Bool.eq_iff_iff, beq_iff_eq, beq_iff_eq]
    constructor
    · intro range
      obtain ⟨w, visited', opening'⟩ := List.mem_filterMap.mp (among m' within)
      have line : m'.word.line = m.word.line := congrArg (fun r => r.start.line) range
      rw [Visit.line_of_opening opening, Visit.line_of_opening opening'] at line
      obtain rfl := eq_of_no visited' visited line
      exact Option.some.inj (opening'.symm.trans opening)
    · rintro rfl
      rfl
  rw [split, found, List.filter_map, Function.comp_def, List.filter_congr same, List.filter_beq,
    List.map_replicate]

theorem reportsAt_unmatched {w : Visit} {e : Mark} (visited : w ∈ visits env lines)
    (ending : w.ending? = some e) :
    reportsAt env lines .unmatchedEnd e.word =
      w.turn.2.filter fun d => d.code == .unmatchedEnd && d.range == e.word.range := by
  apply filter_reports_at visited
  intro d chosen
  obtain ⟨code, range⟩ := Bool.and_eq_true_iff.mp chosen
  rw [eq_of_beq code, eq_of_beq range]
  exact ⟨rfl, by decide, w.turns.line_of_ending ending⟩

theorem eq_of_opening {v w : Visit} {m : Mark} (visited : v ∈ visits env lines)
    (visited' : w ∈ visits env lines) (opening : v.opening? = some m)
    (opening' : w.opening? = some m) : v = w :=
  eq_of_no visited visited'
    ((Visit.line_of_opening opening).symm.trans (Visit.line_of_opening opening'))

theorem exists_opening_of_closed {w : Visit} {m : Mark} (visited : w ∈ visits env lines)
    (closed : w.closed? = some m) : ∃ v ∈ visits env lines, v.no < w.no ∧ v.opening? = some m := by
  obtain ⟨e, above, frame, below, -, -, frames, mark, -⟩ := w.turns.frames_of_closed closed
  have open_ : m ∈ w.pass.blocks.frames.map Frame.mark := by simp [frames, mark]
  exact (Pass.exists_opening env visited open_).resolve_left List.not_mem_nil

theorem existsUnique_closing {m : Mark}
    (distinct : ((visits env lines).filterMap Visit.closed?).Nodup)
    (member : m ∈ (visits env lines).filterMap Visit.closed?) :
    ∃! w, w ∈ visits env lines ∧ w.Closes env m := by
  simp only [Visit.closes_iff]
  obtain ⟨w, visited, closed⟩ := List.mem_filterMap.mp member
  refine ⟨w, ⟨visited, closed⟩, ?_⟩
  rintro w' ⟨visited', closed'⟩
  obtain ⟨before, after, split⟩ := List.append_of_mem visited
  rw [split] at distinct visited'
  rw [List.filterMap_append, List.filterMap_cons_some closed] at distinct
  obtain ⟨-, following, apart⟩ := List.nodup_append.mp distinct
  rcases List.mem_append.mp visited' with early | late
  · exact absurd rfl (apart m (List.mem_filterMap.mpr ⟨w', early, closed'⟩) m List.mem_cons_self)
  · rcases List.mem_cons.mp late with rfl | later
    · rfl
    · exact absurd (List.mem_filterMap.mpr ⟨w', later, closed'⟩) (List.nodup_cons.mp following).1

theorem nodup_unmatched (env : Environment) (lines : List String) :
    ((reports env lines).filter fun d => d.code == .unmatchedEnd).Nodup := by
  have only (d : Diagnostic) (chosen : (d.code == .unmatchedEnd) = true) :
      d.code.ofBlocks = true := by
    rw [eq_of_beq chosen]
    rfl
  have finish : (Pass.run env {} 0 lines).1.blocks.finish.filter
      (fun d => d.code == .unmatchedEnd) = [] := by
    rw [List.filter_eq_nil_iff]
    intro d member chosen
    obtain ⟨f, -, rfl⟩ := List.mem_map.mp member
    cases chosen
  have placed {v : Visit} {d : Diagnostic}
      (member : d ∈ v.turn.2.filter fun d => d.code == .unmatchedEnd) :=
    v.turns.unmatched_eq (List.mem_of_mem_filter member) (eq_of_beq (List.mem_filter.mp member).2)
  rw [filter_reports_ofBlocks only, finish, List.append_nil, Pass.filter_run env only,
    List.nodup_flatMap]
  refine ⟨?_, (Pass.pairwise_visits env {} 0 lines).imp ?_⟩
  · intro v _
    rcases List.eq_nil_or_concat (v.turn.2.filter fun d => d.code == .unmatchedEnd)
      with none_ | ⟨_, d, some_⟩
    · rw [none_]
      exact List.nodup_nil
    · have single := (placed (v := v) (d := d) (by simp [some_])).2
      exact (List.nodup_singleton d).sublist (single ▸ List.filter_sublist)
  · intro v w earlier d first second
    exact Nat.ne_of_lt earlier ((placed first).1.symm.trans (placed second).1)

theorem nodup_unclosed (env : Environment) (lines : List String) :
    ((reports env lines).filter Stack.isUnclosed).Nodup := by
  obtain ⟨dropped, found, perm⟩ := reports_balance env lines
  have distinct := (perm.nodup_iff.mp (nodup_openings env lines)).of_append_right
  rw [found]
  refine distinct.map_on ?_
  intro m within m' within' same
  obtain ⟨v, visited, opening⟩ :=
    List.mem_filterMap.mp (perm.symm.subset (List.mem_append_right _ within))
  obtain ⟨v', visited', opening'⟩ :=
    List.mem_filterMap.mp (perm.symm.subset (List.mem_append_right _ within'))
  have line : m.word.line = m'.word.line := congrArg (fun d => d.range.start.line) same
  rw [Visit.line_of_opening opening, Visit.line_of_opening opening'] at line
  obtain rfl := eq_of_no visited visited' line
  exact Option.some.inj (opening.symm.trans opening')

theorem nodup_nesting (env : Environment) (lines : List String) :
    ((reports env lines).filter fun d => d.code.ofNesting).Nodup := by
  rw [List.nodup_iff_count_le_one]
  intro d
  cases code : d.code with
  | unclosedBlock =>
      have once := List.nodup_iff_count_le_one.mp (nodup_unclosed env lines) d
      rwa [List.count_filter (by simp [Stack.isUnclosed, code]),
        ← List.count_filter (p := fun d => d.code.ofNesting) (by simp [code, Code.ofNesting])]
        at once
  | unmatchedEnd =>
      have once := List.nodup_iff_count_le_one.mp (nodup_unmatched env lines) d
      rwa [List.count_filter (by simp [code]),
        ← List.count_filter (p := fun d => d.code.ofNesting) (by simp [code, Code.ofNesting])]
        at once
  | _ =>
      rw [List.count_eq_zero_of_not_mem]
      · exact Nat.zero_le 1
      · simp [code, Code.ofNesting]

theorem opening_accounted {v : Visit} (visited : v ∈ visits env lines) {m : Mark}
    (opening : v.opening? = some m) :
    ((∃! w, w ∈ visits env lines ∧ w.Closes env m) ∧
      (∀ w ∈ visits env lines, w.Closes env m → v.no < w.no) ∧
      reportsAt env lines .unclosedBlock m.word = []) ∨
    ((∀ w ∈ visits env lines, ¬ w.Closes env m) ∧
      reportsAt env lines .unclosedBlock m.word = [m.unclosed]) := by
  obtain ⟨dropped, found, perm⟩ := reports_balance env lines
  have among : ∀ m ∈ dropped, m ∈ (visits env lines).filterMap Visit.opening? :=
    fun m within => perm.symm.subset (List.mem_append_right _ within)
  have distinct := (perm.nodup_iff.mp (nodup_openings env lines)).of_append_left
  have total := count_opening visited opening perm
  rw [reportsAt_unclosed visited opening found among]
  by_cases within : m ∈ (visits env lines).filterMap Visit.closed?
  · have once := List.count_eq_one_of_mem distinct within
    refine .inl ⟨existsUnique_closing distinct within, ?_, ?_⟩
    · intro w visited' closes
      obtain ⟨v', among', earlier, opening'⟩ :=
        exists_opening_of_closed visited' ((w.closes_iff env).mp closes)
      rwa [eq_of_opening visited among' opening opening']
    · rw [show dropped.count m = 0 by omega]
      rfl
  · have none_ := List.count_eq_zero_of_not_mem within
    refine .inr ⟨?_, ?_⟩
    · intro w visited' closes
      exact within (List.mem_filterMap.mpr ⟨w, visited', (w.closes_iff env).mp closes⟩)
    · rw [show dropped.count m = 1 by omega]
      rfl

theorem ending_accounted {w : Visit} (visited : w ∈ visits env lines) {e : Mark}
    (ending : w.ending? = some e) :
    ((∃! v, v ∈ visits env lines ∧
        ∃ m, v.opening? = some m ∧ m.keyword = e.keyword ∧ w.Closes env m) ∧
      reportsAt env lines .unmatchedEnd e.word = []) ∨
    ((∀ m, ¬ w.Closes env m) ∧ reportsAt env lines .unmatchedEnd e.word = [e.unmatched]) := by
  rw [reportsAt_unmatched visited ending]
  cases closed : w.closed? with
  | none =>
      refine .inr ⟨?_, ?_⟩
      · intro m closes
        rw [(w.closes_iff env).mp closes] at closed
        cases closed
      · rw [w.turns.reports_of_unmatched ending closed]
        simp [Mark.unmatched, Diagnostic.ofProblem, Problem.code]
  | some m =>
      obtain ⟨e', above, frame, below, ending', keyword, -, -, -, -, dropped⟩ :=
        w.turns.frames_of_closed closed
      obtain rfl := Option.some.inj (ending.symm.trans ending')
      obtain ⟨v, visited', earlier, opening⟩ := exists_opening_of_closed visited closed
      refine .inl ⟨⟨v, ⟨visited', m, opening, keyword.symm, (w.closes_iff env).mpr closed⟩, ?_⟩, ?_⟩
      · rintro v' ⟨among', m', opening', -, closes⟩
        obtain rfl := Option.some.inj (closed.symm.trans ((w.closes_iff env).mp closes))
        exact eq_of_opening among' visited' opening' opening
      · rw [dropped, List.filter_eq_nil_iff]
        intro d member chosen
        obtain ⟨f, -, rfl⟩ := List.mem_map.mp member
        cases (Bool.and_eq_true_iff.mp chosen).1

theorem countP_opening (env : Environment) (lines : List String) :
    (visits env lines).countP (fun v => v.opening?.isSome) =
      (visits env lines).countP (fun w => ∃ m, w.Closes env m) +
        (reports env lines).countP (fun d => d.code == .unclosedBlock) := by
  obtain ⟨dropped, found, perm⟩ := reports_balance env lines
  have sizes := perm.length_eq
  have reported := congrArg List.length found
  rw [List.length_append, List.length_filterMap_eq_countP, List.length_filterMap_eq_countP] at sizes
  rw [List.length_map, ← List.countP_eq_length_filter] at reported
  have same : (visits env lines).countP (fun w => decide (∃ m, w.Closes env m)) =
      (visits env lines).countP fun w => w.closed?.isSome := by
    apply List.countP_congr
    intro w _
    simp only [decide_eq_true_eq, Visit.closes_iff, Option.isSome_iff_exists]
  rw [same, sizes, ← reported]
  rfl

end Ends

/-- A line that opens a block is closed by exactly one line, which comes later and is an end of its
keyword, or exactly one report says at its keyword that it is not closed. A line that ends a block
closes exactly one of those, or exactly one report says that it is unmatched. So the blocks that are
opened are as many as those that are closed and those that are reported together, and no report on
nesting is dropped as being known. -/
theorem blocks_accounted (env : Environment) (lines : List String) :
    (∀ v ∈ visits env lines, ∀ m, v.opening? = some m →
      ((∃! w, w ∈ visits env lines ∧ w.Closes env m) ∧
        (∀ w ∈ visits env lines, w.Closes env m → v.no < w.no) ∧
        reportsAt env lines .unclosedBlock m.word = []) ∨
      ((∀ w ∈ visits env lines, ¬ w.Closes env m) ∧
        reportsAt env lines .unclosedBlock m.word = [m.unclosed])) ∧
    (∀ w ∈ visits env lines, ∀ e, w.ending? = some e →
      ((∃! v, v ∈ visits env lines ∧
          ∃ m, v.opening? = some m ∧ m.keyword = e.keyword ∧ w.Closes env m) ∧
        reportsAt env lines .unmatchedEnd e.word = []) ∨
      ((∀ m, ¬ w.Closes env m) ∧ reportsAt env lines .unmatchedEnd e.word = [e.unmatched])) ∧
    (visits env lines).countP (fun v => v.opening?.isSome) =
      (visits env lines).countP (fun w => ∃ m, w.Closes env m) +
        (reports env lines).countP (fun d => d.code == .unclosedBlock) ∧
    ∀ source, (Diagnostic.finish source (reports env lines)).filter (fun d => d.code.ofNesting) =
      ((reports env lines).filter fun d => d.code.ofNesting).map fun d => { d with source } := by
  refine ⟨fun v visited m opening => opening_accounted visited opening,
    fun w visited e ending => ending_accounted visited ending, countP_opening env lines, ?_⟩
  intro source
  rw [Diagnostic.finish, List.filter_map, ← Diagnostic.filter_firsts _ (nodup_nesting env lines)]
  · rfl
  · exact fun d member nesting e other same => eq_of_nesting member nesting other same

/-- A loop that ends within a conditional: the loop is closed, the conditional is not, and the end
of the conditional is unmatched. -/
def crossedLines : List String :=
  ["for x in y", "if z", "endfor", "endif"]

theorem blocks_accounted_crossed :
    (∃ v ∈ visits seriesEnvironment crossedLines, v.opening? = some ⟨.if, ⟨"if", 1, 0, 2⟩⟩ ∧
      (∀ w ∈ visits seriesEnvironment crossedLines,
        ¬ w.Closes seriesEnvironment ⟨.if, ⟨"if", 1, 0, 2⟩⟩) ∧
      reportsAt seriesEnvironment crossedLines .unclosedBlock ⟨"if", 1, 0, 2⟩ =
        [Mark.unclosed ⟨.if, ⟨"if", 1, 0, 2⟩⟩]) ∧
    ∃ w ∈ visits seriesEnvironment crossedLines, w.ending? = some ⟨.if, ⟨"endif", 3, 0, 5⟩⟩ ∧
      (∀ m, ¬ w.Closes seriesEnvironment m) ∧
      reportsAt seriesEnvironment crossedLines .unmatchedEnd ⟨"endif", 3, 0, 5⟩ =
        [Mark.unmatched ⟨.if, ⟨"endif", 3, 0, 5⟩⟩] := by
  obtain ⟨openings, endings, -⟩ := blocks_accounted seriesEnvironment crossedLines
  refine ⟨⟨_, .tail _ (.head _), by decide, ?_⟩,
    ⟨_, .tail _ (.tail _ (.tail _ (.head _))), by decide, ?_⟩⟩
  · refine (openings _ (.tail _ (.head _)) ⟨.if, ⟨"if", 1, 0, 2⟩⟩ (by decide)).resolve_left ?_
    rintro ⟨-, -, none_⟩
    exact absurd none_ (by decide)
  · refine (endings _ (.tail _ (.tail _ (.tail _ (.head _)))) ⟨.if, ⟨"endif", 3, 0, 5⟩⟩
      (by decide)).resolve_left ?_
    rintro ⟨-, none_⟩
    exact absurd none_ (by decide)

end ChartLint
