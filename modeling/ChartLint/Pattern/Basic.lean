import ChartLint.Pattern.CharSet

/-!
# Patterns

Regular expressions with anchors. A text matches if some stretch of it does.

A search marks the characters of the pattern that may stand for the one read last. Reading the next
character moves all marks at once. Parts of the pattern without marks cost nothing, so a search is
fast even in a large pattern.
-/

namespace ChartLint

inductive Pattern where
  | empty
  | start
  | finish
  | char (set : Pattern.CharSet)
  | seq (first second : Pattern)
  | alt (left right : Pattern)
  | star (inner : Pattern)
  | plus (inner : Pattern)
  deriving DecidableEq, Repr

namespace Pattern

/-- Whether a pattern matches the empty text at a place that is, or is not, the start and the end of
the whole text. -/
def isNullable (atStart atEnd : Bool) : Pattern → Bool
  | .empty | .star _ => true
  | .start => atStart
  | .finish => atEnd
  | .char _ => false
  | .seq first second => first.isNullable atStart atEnd && second.isNullable atStart atEnd
  | .alt left right => left.isNullable atStart atEnd || right.isNullable atStart atEnd
  | .plus inner => inner.isNullable atStart atEnd

/-- Marks in a pattern: on a character, or in the two parts of a sequence or a choice. The marks of
a repetition are those of what is repeated. -/
inductive Marks where
  | clear
  | here
  | pair (first second : Marks)
  deriving DecidableEq, Repr

namespace Marks

def isClear : Marks → Bool
  | .clear => true
  | _ => false

def first : Marks → Marks
  | .pair m _ => m
  | _ => .clear

def second : Marks → Marks
  | .pair _ m => m
  | _ => .clear

def join : Marks → Marks → Marks
  | .clear, .clear => .clear
  | m, n => .pair m n

end Marks

/-- Whether a match under way may end here: nothing but the empty text has to follow a mark. -/
def isDone (atStart atEnd : Bool) (p : Pattern) (marks : Marks) : Bool :=
  if marks.isClear then false
  else
    match p with
    | .empty | .start | .finish => false
    | .char _ => true
    | .seq first second =>
      second.isDone atStart atEnd marks.second ||
        (first.isDone atStart atEnd marks.first && second.isNullable atStart atEnd)
    | .alt left right =>
      left.isDone atStart atEnd marks.first || right.isDone atStart atEnd marks.second
    | .star inner | .plus inner => inner.isDone atStart atEnd marks

/-- Moves the marks over a character. With `enter` a match may also begin at this place. -/
def shift (atStart : Bool) (c : Char) (p : Pattern) (enter : Bool) (marks : Marks) : Marks :=
  if !enter && marks.isClear then .clear
  else
    match p with
    | .empty | .start | .finish => .clear
    | .char set => if enter && set.holds c then .here else .clear
    | .seq first second =>
      let pass := first.isDone atStart false marks.first ||
        (enter && first.isNullable atStart false)
      .join (first.shift atStart c enter marks.first) (second.shift atStart c pass marks.second)
    | .alt left right =>
      .join (left.shift atStart c enter marks.first) (right.shift atStart c enter marks.second)
    | .star inner | .plus inner =>
      inner.shift atStart c (enter || inner.isDone atStart false marks) marks

def search (p : Pattern) (marks : Marks) (atStart : Bool) : List Char → Bool
  | [] => p.isNullable atStart true || p.isDone atStart true marks
  | c :: cs =>
    p.isNullable atStart false || p.isDone atStart false marks ||
      search p (p.shift atStart c true marks) false cs

def isMatch (p : Pattern) (text : String) : Bool :=
  search p .clear true text.toList

/-- A number of repetitions, put together from halves so that the nesting stays low. -/
def times (p : Pattern) (n : Nat) : Pattern :=
  if n = 0 then .empty
  else if n = 1 then p
  else
    let half := times p (n / 2)
    if n % 2 = 0 then .seq half half else .seq p (.seq half half)
termination_by n
decreasing_by omega

def atMost (p : Pattern) (n : Nat) : Pattern :=
  times (.alt .empty p) n

def repeated (p : Pattern) (low : Nat) : Option Nat → Pattern
  | none =>
    match low with
    | 0 => .star p
    | low + 1 => .seq (p.times low) (.plus p)
  | some high => .seq (p.times low) (p.atMost (high - low))

def connect (join : Pattern → Pattern → Pattern) (p : Pattern) : List Pattern → Pattern
  | [] => p
  | q :: qs => join p (connect join q qs)

end Pattern
end ChartLint
