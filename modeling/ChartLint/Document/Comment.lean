import ChartLint.Text.Basic

/-!
# Comments

A comment is blanked, not removed, so that what is left keeps its line and column. Block comments
run from `/*` to `*/` over any number of lines. A `#` starts a comment up to the end of its line,
but only as the first character of the line that is not blank: values such as `#ff0000` use it too.

The scan goes from character to character with one character of foresight, and decides for each
whether it is hidden.
-/

namespace ChartLint.Comment

/-- Where a scan for comments stands. `fresh` holds as long as the line has shown blanks only. -/
inductive Mode where
  | code (fresh : Bool)
  | line
  | opening
  | block (fresh : Bool)
  | closing (fresh : Bool)
  deriving DecidableEq, Repr

def Mode.start : Mode := .code true

def Mode.nextLine : Mode → Mode
  | .block _ => .block true
  | _ => .code true

def Mode.hides (m : Mode) (c : Char) (next : Option Char) : Bool :=
  match m with
  | .code fresh => (c == '/' && next == some '*') || (fresh && c == '#')
  | _ => c != '\n'

def Mode.after (m : Mode) (c : Char) (next : Option Char) : Mode :=
  if c = '\n' then m.nextLine
  else
    match m with
    | .code fresh =>
      if c == '/' && next == some '*' then .opening
      else if fresh && c == '#' then .line
      else .code (fresh && Text.isBlank c)
    | .line => .line
    | .opening => .block false
    | .block fresh => if c == '*' && next == some '/' then .closing fresh else .block fresh
    | .closing fresh => .code fresh

/-- What stands for a hidden character: as many spaces as it has bytes, tabs and returns kept. -/
def blanks (c : Char) : List Char :=
  if c = '\r' ∨ c = '\t' then [c] else List.replicate c.utf8Size ' '

def blank : Mode → List Char → List Char
  | _, [] => []
  | m, c :: cs =>
    (if m.hides c cs.head? then blanks c else [c]) ++ blank (m.after c cs.head?) cs

end ChartLint.Comment
