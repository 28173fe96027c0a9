import ChartLint.Block.Name
import ChartLint.Block.Table
import ChartLint.Diagnostic.Basic
import ChartLint.Line.Basic

/-!
# Open blocks

The blocks around the current line, and the names declared so far. Conditionals and loops nest; the
lines of all other blocks are text of their own, up to the word that closes the block.
-/

namespace ChartLint.Block

structure Frame where
  keyword : Keyword
  head : Span
  arm : Nat := 0
  loopVar : Option String := none
  table : Option Table := none

/-- The open blocks, the innermost first, and what has been declared. -/
structure Stack where
  frames : List Frame := []
  declared : List String := []
  arms : Nat := 0

namespace Stack

def innermost? (s : Stack) : Option Keyword :=
  s.frames.head?.map Frame.keyword

def inText (s : Stack) : Bool :=
  s.innermost?.any Keyword.isOpaque

def arm (s : Stack) : Nat :=
  ((s.frames.find? fun f => f.keyword == .if).map Frame.arm).getD 0

def knows (s : Stack) (name : String) : Bool :=
  s.declared.contains name || s.frames.any fun f => f.loopVar == some name

def checkName (s : Stack) (name : Span) : List Diagnostic :=
  if s.knows name.text then [] else [.ofProblem (.unknownName name.text) name]

def unclosed (f : Frame) : Diagnostic :=
  .ofProblem (.unclosedBlock f.keyword) f.head

def forFrame (s : Stack) (head tail : Span) : Frame × List Diagnostic :=
  match loopParts? tail with
  | some (name, collection) =>
    ({ keyword := .for, head, loopVar := some name },
      (collectionName? collection).elim [] s.checkName)
  | none => ({ keyword := .for, head }, [.ofProblem .malformedFor head])

def declareName (s : Stack) (kw : Keyword) (head : Span) (name : List Char) :
    List String × List Diagnostic :=
  if name.isEmpty then (s.declared, [.ofProblem (.missingName kw) head])
  else (String.ofList name :: s.declared, [])

def openFrame (s : Stack) (kw : Keyword) (head tail : Span) : Stack × Frame × List Diagnostic :=
  match kw with
  | .for =>
    let (frame, diagnostics) := s.forFrame head tail
    (s, frame, diagnostics)
  | .if =>
    let arm := s.arms + 1
    ({ s with arms := arm }, { keyword := kw, head, arm },
      if tail.text.isEmpty then [.ofProblem (.missingCondition kw.spelling) head] else [])
  | .var | .list =>
    let (declared, diagnostics) := s.declareName kw head (declarationParts tail.text.toList).1
    ({ s with declared }, { keyword := kw, head }, diagnostics)
  | .csv =>
    let (name, rest) := declarationParts tail.text.toList
    let (declared, diagnostics) := s.declareName kw head name
    ({ s with declared }, { keyword := kw, head, table := some (.start (Text.trim rest)) },
      diagnostics)
  | .sql | .script => (s, { keyword := kw, head }, [])

def enter (s : Stack) (kw : Keyword) (inline : Bool) (head tail : Span) :
    Stack × List Diagnostic :=
  let (s, frame, diagnostics) := s.openFrame kw head tail
  (if inline then s else { s with frames := frame :: s.frames }, diagnostics)

def nextArm (s : Stack) (which : Arm) (head tail : Span) : Stack × List Diagnostic :=
  match s.frames with
  | frame :: below =>
    if frame.keyword = .if then
      let arm := s.arms + 1
      ({ s with frames := { frame with arm } :: below, arms := arm },
        if which = .elseif ∧ tail.text.isEmpty then
          [.ofProblem (.missingCondition which.spelling) head]
        else [])
    else (s, [.ofProblem (.strayArm which) head])
  | [] => (s, [.ofProblem (.strayArm which) head])

/-- Splits off the frames above the innermost one with a keyword, and the frames below it. -/
def splitAt? (kw : Keyword) : List Frame → Option (List Frame × List Frame)
  | [] => none
  | frame :: below =>
    if frame.keyword = kw then some ([], below)
    else (splitAt? kw below).map fun (above, rest) => (frame :: above, rest)

/-- Closes the innermost block with a keyword. The blocks within it are not closed, the outermost
is reported first. -/
def leave (s : Stack) (kw : Keyword) (head : Span) : Stack × List Diagnostic :=
  match splitAt? kw s.frames with
  | none => (s, [.ofProblem (.unmatchedEnd kw) head])
  | some (above, below) => ({ s with frames := below }, above.reverse.map unclosed)

def tableLine (t : Table) (no : Nat) (line : List Char) : Table × List Diagnostic :=
  let row := Span.trimmed line no 0
  let cs := row.text.toList
  if cs.isEmpty then (t, [])
  else if t.headerOpen then (t.extend cs, [])
  else if cells cs = t.columns then (t, [])
  else (t, [.ofProblem (.columnCount t.columns (cells cs)) row])

def textLine (s : Stack) (no : Nat) (line : List Char) : Stack × List Diagnostic :=
  match s.frames with
  | frame :: below =>
    match frame.table with
    | some t =>
      let (t, diagnostics) := tableLine t no line
      ({ s with frames := { frame with table := some t } :: below }, diagnostics)
    | none => (s, [])
  | [] => (s, [])

/-- Reports references to unknown names. Only a text within a loop is looked at. -/
def checkReferences (s : Stack) (no : Nat) (line : List Char) : List Diagnostic :=
  if s.frames.any fun f => f.keyword == .for then (referredNames no line).flatMap s.checkName
  else []

def step (s : Stack) (no : Nat) (text : List Char) (line : Line) : Stack × List Diagnostic :=
  if s.inText then
    match line with
    | .closer kw head _ => if s.innermost? = some kw then s.leave kw head else s.textLine no text
    | _ => s.textLine no text
  else
    match line with
    | .opener kw inline head tail => s.enter kw inline head tail
    | .arm which head tail => s.nextArm which head tail
    | .closer kw head _ => s.leave kw head
    | .setting .. | .text => (s, s.checkReferences no text)
    | .header _ | .blank => (s, [])

/-- Reports the blocks that are not closed at the end, the outermost first. -/
def finish (s : Stack) : List Diagnostic :=
  s.frames.reverse.map unclosed

end Stack
end ChartLint.Block
