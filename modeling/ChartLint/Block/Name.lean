import ChartLint.Span

/-!
# Names in blocks

A `for` names a variable and a collection, a declaration names what it declares, and a text refers
to names by `@` and braces.
-/

namespace ChartLint.Block

def inName (c : Char) : Bool :=
  c.isLower || c.isDigit || c == '_'

def isName (cs : List Char) : Bool :=
  !cs.isEmpty && cs.all inName

def loopParts? (tail : Span) : Option (String × Span) :=
  let cs := tail.text.toList
  let loopVar := cs.takeWhile fun c => !Text.isBlank c
  let afterVar := cs.dropWhile fun c => !Text.isBlank c
  if afterVar.isEmpty || !isName loopVar then none
  else
    match Text.trimStart afterVar with
    | 'i' :: 'n' :: rest =>
      let column := tail.start + (Text.byteLength cs - Text.byteLength rest)
      let collection := Span.trimmed rest tail.line column
      if rest.head?.any Text.isBlank && !collection.text.isEmpty then
        some (String.ofList loopVar, collection)
      else none
    | _ => none

/-- The name that a collection refers to, if it is neither written out nor a call. -/
def collectionName? (collection : Span) : Option Span :=
  let cs := collection.text.toList
  let base := cs.takeWhile inName
  let rest := Text.trimStart (cs.dropWhile inName)
  if cs.head? = some '[' ∨ Text.contains ['@', '\x7b'] cs ∨ base = [] ∨ rest.head? = some '(' then
    none
  else some (.place base collection.line collection.start)

def declarationParts (tail : List Char) : List Char × List Char :=
  let stops := fun c => c == '=' || Text.isBlank c
  let name := tail.takeWhile fun c => !stops c
  let rest := Text.trimStart (tail.dropWhile fun c => !stops c)
  (name, (Text.dropLead? ['='] rest).getD rest)

/-- What stands between `@` with a brace and the next closing brace, with its column. A reference
that is not closed ends the search. -/
def references (column : Nat) (cs : List Char) : List (List Char × Nat) :=
  match cs with
  | [] => []
  | c :: rest =>
    if c = '@' ∧ rest.head? = some '\x7b' then
      let body := rest.drop 1
      let inner := body.takeWhile fun d => d != '\x7d'
      if inner.length < body.length then
        (inner, column + 2) ::
          references (column + 3 + Text.byteLength inner) (body.drop (inner.length + 1))
      else []
    else references (column + c.utf8Size) rest
termination_by cs.length
decreasing_by all_goals simp only [List.length_drop, List.length_cons]; omega

def referredNames (no : Nat) (cs : List Char) : List Span :=
  (references 0 cs).filterMap fun (inner, column) =>
    if isName (Text.trim inner) then some (.trimmed inner no column) else none

end ChartLint.Block
