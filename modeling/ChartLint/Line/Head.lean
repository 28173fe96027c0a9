import ChartLint.Block.Keyword

/-!
# The tokens of a line's head

The first token of a line decides what the line is. A word is read as far as it goes, so `format`
and `for2` are words of their own and not the keyword `for` with something after it.
-/

namespace ChartLint

inductive Head where
  | gap
  | opener (kw : Block.Keyword)
  | arm (which : Block.Arm)
  | closer (kw : Block.Keyword)
  | word
  | bracket
  | equals
  deriving DecidableEq, Repr

namespace Head

def startsWord (c : Char) : Bool :=
  c.isLower || c == '_'

def inWord (c : Char) : Bool :=
  c.isLower || c.isDigit || c == '_' || c == '-'

def ofWord (w : String) : Head :=
  match Block.Keyword.all.find? fun kw => kw.spelling == w with
  | some kw => .opener kw
  | none =>
    match Block.Keyword.all.find? fun kw => kw.closer == w with
    | some kw => .closer kw
    | none =>
      match [Block.Arm.elseif, .else].find? fun a => a.spelling == w with
      | some a => .arm a
      | none => .word

def read : List Char → Option (Head × Nat)
  | [] => none
  | c :: cs =>
    if Text.isGap c then some (.gap, (cs.takeWhile Text.isGap).length + 1)
    else if startsWord c then
      let w := c :: cs.takeWhile inWord
      some (ofWord (String.ofList w), w.length)
    else if c = '[' then some (.bracket, 1)
    else if c = '=' then some (.equals, 1)
    else none

inductive Scanned where
  | token (head : Head) (start stop : Nat)
  | stuck (start : Nat)
  deriving Repr

def scan (column : Nat) : List Char → List Scanned
  | [] => []
  | c :: cs =>
    match read (c :: cs) with
    | none => [.stuck column]
    | some (head, n) =>
      let stop := column + Text.byteLength ((c :: cs).take n)
      let rest := scan stop (cs.drop (n - 1))
      if head = .gap then rest else .token head column stop :: rest
termination_by cs => cs.length
decreasing_by simp only [List.length_drop, List.length_cons]; omega

end Head
end ChartLint
