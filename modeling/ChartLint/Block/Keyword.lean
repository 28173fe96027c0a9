import ChartLint.Text.Basic

/-!
# Block keywords

The words that open a region of several lines, the words that close one, and the words that divide
an `if`. Some openers also have a form that is complete on one line and takes no closing word.
-/

namespace ChartLint.Block

inductive Keyword where
  | «for» | «if» | var | list | csv | sql | script
  deriving DecidableEq, Repr

namespace Keyword

def all : List Keyword :=
  [.for, .if, .var, .list, .csv, .sql, .script]

def spelling : Keyword → String
  | .for => "for"
  | .if => "if"
  | .var => "var"
  | .list => "list"
  | .csv => "csv"
  | .sql => "sql"
  | .script => "script"

def closer : Keyword → String
  | .for => "endfor"
  | .if => "endif"
  | .var => "endvar"
  | .list => "endlist"
  | .csv => "endcsv"
  | .sql => "endsql"
  | .script => "endscript"

/-- Whether the lines of the block are text of their own and no configuration. -/
def isOpaque : Keyword → Bool
  | .for | .if => false
  | _ => true

end Keyword

inductive Arm where
  | elseif | «else»
  deriving DecidableEq, Repr

def Arm.spelling : Arm → String
  | .elseif => "elseif"
  | .else => "else"

structure Balance where
  quote : Option Char
  depth : Int

/-- The balance after one more character. Brackets inside quotes do not count. -/
def Balance.step (b : Balance) (c : Char) : Balance :=
  match b.quote with
  | some q => if c = q then { b with quote := none } else b
  | none =>
    if c = '\x22' ∨ c = '\x27' then { b with quote := some c }
    else if c = '[' ∨ c = '(' ∨ c = '\x7b' then { b with depth := b.depth + 1 }
    else if c = ']' ∨ c = ')' ∨ c = '\x7d' then { b with depth := b.depth - 1 }
    else b

def balance (cs : List Char) : Int :=
  (cs.foldl Balance.step ⟨none, 0⟩).depth

/-- Whether a keyword followed by `tail` is complete on its line and takes no closing word. -/
def isInline (kw : Keyword) (tail : List Char) : Bool :=
  match kw with
  | .for | .if => false
  | .var =>
    match Text.splitOnce? '=' tail with
    | some (_, value) =>
      let value := Text.trim value
      !value.isEmpty && decide (balance value ≤ 0)
    | none => true
  | .list =>
    match Text.splitOnce? '=' tail with
    | some (_, value) =>
      let value := Text.trim value
      !value.isEmpty && !Text.endsWith value ','
    | none => true
  | .csv => (Text.words tail)[1]? == some ['f', 'r', 'o', 'm'] || !tail.contains '='
  | .sql | .script => tail.head? == some '='

end ChartLint.Block
