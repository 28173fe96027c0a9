import ChartLint.Text.Basic

/-!
# Tokens of a predicate
-/

namespace ChartLint

inductive PredicateError where
  | invalidCharacter (text : String)
  | unexpected (expected found : String)
  | unexpectedEnd (expected : String)
  deriving DecidableEq, Repr

def PredicateError.message : PredicateError → String
  | .invalidCharacter text => s!"unexpected character '{text}'"
  | .unexpected expected found => s!"expected {expected}, found '{found}'"
  | .unexpectedEnd expected => s!"unexpected end of predicate, expected {expected}"

namespace PredicateToken

inductive Kind where
  | widget
  | sectionName
  | equals
  | differs
  | bang
  | and
  | not
  | in
  | openParen
  | closeParen
  | openBracket
  | closeBracket
  | comma
  | quoted
  | word
  deriving DecidableEq, Repr

def startsWord (c : Char) : Bool :=
  c.isAlpha || c == '_'

def inWord (c : Char) : Bool :=
  c.isAlphanum || c == '_' || c == '-'

def ofWord (w : String) : Kind :=
  if w = "widget" then .widget
  else if w = "section" then .sectionName
  else if w = "not" then .not
  else if w = "in" then .in
  else .word

def ofChar? (c : Char) : Option Kind :=
  if c = '(' then some .openParen
  else if c = ')' then some .closeParen
  else if c = '[' then some .openBracket
  else if c = ']' then some .closeBracket
  else if c = ',' then some .comma
  else if c = '!' then some .bang
  else none

/-- The token at the start of a text that is not empty, and its length. A quote that is not closed
spoils all that follows it. -/
def read (c : Char) (cs : List Char) : Except PredicateError (Kind × Nat) :=
  if startsWord c then
    let w := c :: cs.takeWhile inWord
    .ok (ofWord (String.ofList w), w.length)
  else if c = '\x22' ∨ c = '\x27' then
    match Text.splitOnce? c cs with
    | some (inner, _) => .ok (.quoted, inner.length + 2)
    | none => .error (.invalidCharacter (String.ofList (c :: cs)))
  else if c = '=' ∧ cs.head? = some '=' then .ok (.equals, 2)
  else if c = '!' ∧ cs.head? = some '=' then .ok (.differs, 2)
  else if c = '&' ∧ cs.head? = some '&' then .ok (.and, 2)
  else
    match ofChar? c with
    | some kind => .ok (kind, 1)
    | none => .error (.invalidCharacter (String.ofList [c]))

end PredicateToken

structure PredicateToken where
  kind : PredicateToken.Kind
  text : String
  deriving DecidableEq, Repr

namespace PredicateToken

/-- The tokens of a text. Spaces and tabs only separate them. -/
def scan : List Char → Except PredicateError (List PredicateToken)
  | [] => .ok []
  | c :: cs =>
    if Text.isGap c then scan cs
    else
      match read c cs with
      | .error e => .error e
      | .ok (kind, n) =>
        (scan (cs.drop (n - 1))).map (⟨kind, String.ofList ((c :: cs).take n)⟩ :: ·)
termination_by cs => cs.length
decreasing_by all_goals simp only [List.length_drop, List.length_cons]; omega

end PredicateToken
end ChartLint
