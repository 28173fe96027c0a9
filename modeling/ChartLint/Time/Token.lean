import ChartLint.Text.Basic
import ChartLint.Time.Error

/-!
# Tokens of a date expression

At each place the longest token that fits is taken. The functions named `…Length` say how many
characters a token or an optional part of one takes up at the start of a text, zero meaning that it
is not there.
-/

namespace ChartLint

namespace TimeToken

inductive Kind where
  /-- `yyyy-mm`, `yyyy-mm-dd`, or a date with `t` and a time. -/
  | date
  /-- `hh:mm`, with seconds, decimals and an offset if need be. -/
  | time
  | number
  | word
  | plus
  | minus
  | star
  deriving DecidableEq, Repr

def twoDigits : List Char → Bool
  | a :: b :: _ => a.isDigit && b.isDigit
  | _ => false

def offsetLength : List Char → Nat
  | [] => 0
  | c :: cs =>
    if c = 'z' then 1
    else if (c = '+' ∨ c = '-') ∧ twoDigits cs then
      match cs.drop 2 with
      | ':' :: r => if twoDigits r then 6 else 0
      | r => if twoDigits r then 5 else 0
    else 0

def decimalsLength : List Char → Nat
  | '.' :: cs =>
    let n := (cs.takeWhile Char.isDigit).length
    if n = 0 then 0 else n + 1
  | _ => 0

def secondsLength : List Char → Nat
  | ':' :: cs => if twoDigits cs then 3 + decimalsLength (cs.drop 2) else 0
  | _ => 0

def timeLength (cs : List Char) : Nat :=
  if twoDigits cs then
    match cs.drop 2 with
    | ':' :: r =>
      if twoDigits r then
        let seconds := secondsLength (r.drop 2)
        5 + seconds + offsetLength (r.drop (2 + seconds))
      else 0
    | _ => 0
  else 0

def inlineTimeLength : List Char → Nat
  | 't' :: cs =>
    let n := timeLength cs
    if n = 0 then 0 else n + 1
  | _ => 0

def dayLength : List Char → Nat
  | '-' :: cs => if twoDigits cs then 3 + inlineTimeLength (cs.drop 2) else 0
  | _ => 0

def dateLength (cs : List Char) : Nat :=
  if twoDigits cs ∧ twoDigits (cs.drop 2) then
    match cs.drop 4 with
    | '-' :: r => if twoDigits r then 7 + dayLength (r.drop 2) else 0
    | _ => 0
  else 0

def numberLength (cs : List Char) : Nat :=
  let n := (cs.takeWhile Char.isDigit).length
  if n = 0 then 0 else n + decimalsLength (cs.drop n)

def inWord (c : Char) : Bool :=
  c.isLower || c == '_'

def longest? (cs : List Char) : Option (Kind × Nat) :=
  match cs with
  | [] => none
  | c :: _ =>
    if c.isDigit then
      if dateLength cs ≠ 0 then some (.date, dateLength cs)
      else if timeLength cs ≠ 0 then some (.time, timeLength cs)
      else some (.number, numberLength cs)
    else if inWord c then some (.word, (cs.takeWhile inWord).length)
    else if c = '+' then some (.plus, 1)
    else if c = '-' then some (.minus, 1)
    else if c = '*' then some (.star, 1)
    else none

end TimeToken

structure TimeToken where
  kind : TimeToken.Kind
  text : String
  deriving DecidableEq, Repr

namespace TimeToken

/-- The tokens of a text. Spaces and tabs only separate them. -/
def scan : List Char → Except TimeError (List TimeToken)
  | [] => .ok []
  | c :: cs =>
    if Text.isGap c then scan cs
    else
      match longest? (c :: cs) with
      | none => .error (.unexpectedToken (String.ofList [c]))
      | some (kind, n) => do
        let rest ← scan (cs.drop (n - 1))
        return ⟨kind, String.ofList ((c :: cs).take n)⟩ :: rest
termination_by cs => cs.length
decreasing_by all_goals simp only [List.length_drop, List.length_cons]; omega

def tokenize (text : String) : Except TimeError (List TimeToken) :=
  scan text.toList

end TimeToken
end ChartLint
