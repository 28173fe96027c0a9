import ChartLint.Text.Basic

/-!
# Lists of values

A value may be a list with commas between its items. A comma within quotes or parentheses belongs to
an item.
-/

namespace ChartLint.Items

structure State where
  depth : Nat := 0
  quote : Option Char := none
  deriving DecidableEq, Repr

def State.isClear (s : State) : Bool :=
  s.depth == 0 && s.quote.isNone

def State.after (s : State) (c : Char) : State :=
  match s.quote with
  | some q => if c = q then { s with quote := none } else s
  | none =>
    if c = '\x22' ∨ c = '\x27' then { s with quote := some c }
    else if c = '(' then { s with depth := s.depth + 1 }
    else if c = ')' then { s with depth := s.depth - 1 }
    else s

def pieces (s : State) : List Char → List (List Char)
  | [] => [[]]
  | c :: cs =>
    if s.isClear ∧ c = ',' then [] :: pieces s cs
    else
      match pieces (s.after c) cs with
      | [] => [[c]]
      | piece :: rest => (c :: piece) :: rest

def split (text : String) : List String :=
  (((pieces {} text.toList).map Text.trim).filter fun item => !item.isEmpty).map String.ofList

end ChartLint.Items
