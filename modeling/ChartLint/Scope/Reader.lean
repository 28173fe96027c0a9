import ChartLint.Scope.Predicate
import ChartLint.Scope.Token

/-!
# Reading predicates

* a predicate is one or more terms with `&&` between them;
* a term is `!` and a term, a predicate in parentheses, or a test;
* a test compares `widget` or `section` with a value by `==` or `!=`, or with a list of values in
  brackets by `in` or `not in`;
* a value is quoted, or a word.
-/

namespace ChartLint.Predicate

def refuse {α : Type} (expected : String) : List PredicateToken → Except PredicateError α
  | [] => .error (.unexpectedEnd expected)
  | token :: _ => .error (.unexpected expected token.text)

def expect (kind : PredicateToken.Kind) (expected : String) (tokens : List PredicateToken) :
    Except PredicateError (List PredicateToken) :=
  match tokens with
  | token :: rest => if token.kind = kind then .ok rest else refuse expected tokens
  | [] => refuse expected tokens

def valueOf? (token : PredicateToken) : Option String :=
  match token.kind with
  | .quoted => some (String.ofList (token.text.toList.drop 1).dropLast)
  | .word | .widget | .sectionName | .not | .in => some token.text
  | _ => none

def readValue (tokens : List PredicateToken) :
    Except PredicateError (String × List PredicateToken) :=
  match tokens with
  | token :: rest =>
    match valueOf? token with
    | some value => .ok (value, rest)
    | none => refuse "a value" tokens
  | [] => refuse "a value" tokens

def readMore : List PredicateToken → Except PredicateError (List String × List PredicateToken)
  | [] => refuse "']'" []
  | token :: rest =>
    match token.kind with
    | .closeBracket => .ok ([], rest)
    | .comma =>
      match rest with
      | [] => refuse "a value" []
      | next :: rest =>
        match valueOf? next with
        | some value => (readMore rest).map fun (values, after) => (value :: values, after)
        | none => refuse "a value" (next :: rest)
    | _ => refuse "',' or ']'" (token :: rest)

def readList (tokens : List PredicateToken) :
    Except PredicateError (List String × List PredicateToken) := do
  let tokens ← expect .openBracket "'['" tokens
  let (value, tokens) ← readValue tokens
  let (values, tokens) ← readMore tokens
  return (value :: values, tokens)

def readComparison (var : ScopeVar) (tokens : List PredicateToken) :
    Except PredicateError (Predicate × List PredicateToken) :=
  match tokens with
  | [] => refuse "a comparison" tokens
  | token :: rest =>
    match token.kind with
    | .equals => (readValue rest).map fun (value, after) => (.equals var value, after)
    | .differs => (readValue rest).map fun (value, after) => (.not (.equals var value), after)
    | .in => (readList rest).map fun (values, after) => (.oneOf var values, after)
    | .not => do
      let (values, after) ← readList (← expect .in "'in'" rest)
      return (.not (.oneOf var values), after)
    | _ => refuse "a comparison" tokens

def readTest (tokens : List PredicateToken) :
    Except PredicateError (Predicate × List PredicateToken) :=
  match tokens with
  | [] => refuse "'widget' or 'section'" tokens
  | token :: rest =>
    match token.kind with
    | .widget => readComparison .widget rest
    | .sectionName => readComparison .sectionName rest
    | _ => refuse "'widget' or 'section'" tokens

def conjunction : List Predicate → Predicate
  | [part] => part
  | parts => .all parts

mutual

/-- A term. The first argument bounds the depth of the reading. -/
def readTerm (fuel : Nat) (tokens : List PredicateToken) :
    Except PredicateError (Predicate × List PredicateToken) :=
  match fuel, tokens with
  | fuel + 1, ⟨.bang, _⟩ :: rest =>
    (readTerm fuel rest).map fun (inner, after) => (.not inner, after)
  | fuel + 1, ⟨.openParen, _⟩ :: rest => do
    let (parts, after) ← readTerms fuel rest
    return (conjunction parts, ← expect .closeParen "')'" after)
  | _, tokens => readTest tokens

def readTerms (fuel : Nat) (tokens : List PredicateToken) :
    Except PredicateError (List Predicate × List PredicateToken) :=
  match fuel with
  | 0 => refuse "'widget' or 'section'" tokens
  | fuel + 1 => do
    let (part, after) ← readTerm fuel tokens
    match after with
    | ⟨.and, _⟩ :: rest =>
      let (parts, after) ← readTerms fuel rest
      return (part :: parts, after)
    | after => return ([part], after)

end

def parse (text : String) : Except PredicateError Predicate := do
  let tokens ← PredicateToken.scan text.toList
  let (parts, after) ← readTerms (2 * tokens.length + 2) tokens
  if after.isEmpty then return conjunction parts else refuse "'&&' or end of predicate" after

end ChartLint.Predicate
