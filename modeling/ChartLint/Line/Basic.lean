import ChartLint.Span
import ChartLint.Line.Head

/-!
# Lines

A line of a document is blank, a section header, a setting, one of the block keywords, or some
other text.
-/

namespace ChartLint

inductive Line where
  | blank
  | header (name : Span)
  | opener (kw : Block.Keyword) (inline : Bool) (head tail : Span)
  | arm (which : Block.Arm) (head tail : Span)
  | closer (kw : Block.Keyword) (head tail : Span)
  | setting (name value : Span)
  | text
  deriving DecidableEq, Repr

namespace Line

def inSettingName (c : Char) : Bool :=
  c.isLower || c.isDigit || c == '-' || c == '_' || c == ' ' || c == '\t'

def isSettingName : List Char → Bool
  | [] => false
  | c :: cs => c.isLower && cs.all inSettingName

def isSectionName (cs : List Char) : Bool :=
  !cs.isEmpty && cs.all fun c => c.isLower || c == '-'

/-- The name and value of `name = value`. The first `=` divides them, unless another follows it. -/
def settingParts? (no : Nat) (line : List Char) : Option (Span × Span) :=
  match Text.splitOnce? '=' line with
  | none => none
  | some (before, after) =>
    if after.head? = some '=' then none
    else if isSettingName (Text.trim before) then
      some (.trimmed before no 0, .trimmed after no (Text.byteLength before + 1))
    else none

/-- The name in `[name]`, read after the opening bracket, which ends at `column`. -/
def sectionName? (no column : Nat) (afterBracket : List Char) : Option Span :=
  match Text.splitOnce? ']' afterBracket with
  | none => none
  | some (inner, _) =>
    if isSectionName (Text.trim inner) then some (.trimmed inner no column) else none

def ofChars (no : Nat) (line : List Char) : Line :=
  if line.all Text.isBlank then .blank
  else
    let margin := line.takeWhile Text.isGap
    let body := line.dropWhile Text.isGap
    let column := Text.byteLength margin
    match Head.read body with
    | none => .text
    | some (head, n) =>
      let token := Span.place (body.take n) no column
      let tail := Span.trimmed (body.drop n) no token.stop
      match head with
      | .gap => .text
      | .opener kw => .opener kw (Block.isInline kw tail.text.toList) token tail
      | .arm which => .arm which token tail
      | .closer kw => .closer kw token tail
      | .bracket => (sectionName? no token.stop (body.drop n)).elim .text .header
      | .word | .equals =>
        (settingParts? no line).elim .text fun (name, value) => .setting name value

def classify (no : Nat) (line : String) : Line :=
  ofChars no line.toList

end Line
end ChartLint
