import ChartLint.Decimal.Read
import ChartLint.Pattern.Footprint

/-!
# Reading patterns

* alternatives are sequences with `|` between them;
* a sequence is a row of items, each with any number of repetition marks after it;
* an item is a group in parentheses, a set in brackets, an anchor `^` or `$`, a dot, a backslash
  with a letter or a sign, or any other character;
* a repetition mark is `*`, `+`, `?` or counts in braces. A `?` right after a mark asks for the
  shortest match, which does not change whether there is one.

A pattern that is nested too deeply or that is too large is refused. Counts in braces make a
pattern much larger than its text. Of the usual syntax this leaves out classes by name, marks of
word ends, flags, groups without a number and characters by their codes.
-/

namespace ChartLint.Pattern

def CharSet.ofChar (c : Char) : CharSet :=
  ⟨[.ofChar c]⟩

def escaped? (c : Char) : Option CharSet :=
  match c with
  | 'd' => some .digits
  | 'D' => some CharSet.digits.complement
  | 's' => some .blanks
  | 'S' => some CharSet.blanks.complement
  | 'n' => some (.ofChar '\n')
  | 'r' => some (.ofChar '\r')
  | 't' => some (.ofChar '\t')
  | c => if c.toNat < 128 ∧ !c.isAlphanum then some (.ofChar c) else none

def readMember? : List Char → Option (CharSet × List Char)
  | [] | '[' :: _ => none
  | '\\' :: c :: rest => (escaped? c).map fun set => (set, rest)
  | '\\' :: [] => none
  | c :: rest => some (.ofChar c, rest)

def range? (low high : CharSet) : Option CharSet := do
  let low ← low.single?
  let high ← high.single?
  if low ≤ high then some ⟨[⟨low.toNat, high.toNat⟩]⟩ else none

/-- Reads the members of a set up to its closing bracket. A `-` before the bracket is a member. The
first argument bounds the steps. -/
def readMembers? : Nat → List Char → Option (List CharSet × List Char)
  | 0, _ => none
  | _, ']' :: rest => some ([], rest)
  | fuel + 1, cs => do
    let (member, rest) ← readMember? cs
    let (member, rest) ← match rest with
      | '-' :: ']' :: _ => pure (member, rest)
      | '-' :: rest =>
        let (high, rest) ← readMember? rest
        pure (← range? member high, rest)
      | rest => pure (member, rest)
    let (members, after) ← readMembers? fuel rest
    return (member :: members, after)

/-- Reads the members of a set after its opening bracket and a `^`. Each `-` that comes first is a
member, and so is a closing bracket that comes first. -/
def readAllMembers? (cs : List Char) : Option (List CharSet × List Char) := do
  let dashes := cs.takeWhile (· = '-')
  let (lead, rest) := match dashes, cs with
    | [], ']' :: rest => ([']'], rest)
    | dashes, cs => (dashes, cs.drop dashes.length)
  let (members, after) ← readMembers? (rest.length + 1) rest
  return (lead.map CharSet.ofChar ++ members, after)

structure Draft where
  form : Form
  /-- The nesting of sets, groups, repetitions, and of sequences and alternatives of several. -/
  depth : Nat := 0

namespace Draft

def maxDepth : Nat := 250

def combine (join : List Form → Form) : List Draft → Draft
  | [d] => d
  | ds =>
    { form := join (ds.map Draft.form)
      depth := if ds.isEmpty then 0 else ds.foldl (fun n d => max n d.depth) 0 + 1 }

end Draft

def readSet? (cs : List Char) : Option (Draft × List Char) := do
  let (negated, cs) := match cs with
    | '^' :: rest => (true, rest)
    | cs => (false, cs)
  let (members, after) ← readAllMembers? cs
  let set := CharSet.ofRanges (members.flatMap CharSet.ranges)
  let depth := if members.length = 1 then 1 else 2
  return (⟨.ofSet (if negated then set.complement else set), depth⟩, after)

def readItem? : List Char → Option (Draft × List Char)
  | [] => none
  | '^' :: rest => some (⟨.start, 0⟩, rest)
  | '$' :: rest => some (⟨.finish, 0⟩, rest)
  | '.' :: rest => some (⟨.ofSet (CharSet.ofChar '\n').complement, 0⟩, rest)
  | '[' :: rest => readSet? rest
  | '\\' :: c :: rest => (escaped? c).map fun set => (⟨.ofSet set, 0⟩, rest)
  | c :: rest =>
    if ['*', '+', '?', '\x7b', '\\', '(', ')', '|'].contains c then none
    else some (⟨.text [c], 0⟩, rest)

def readCount? (cs : List Char) : Option Nat :=
  let digits := Text.trim cs
  if digits.isEmpty || !digits.all Char.isDigit then none
  else
    let n := Decimal.natOfDigits digits
    if n < 4294967296 then some n else none

def readCounts? (counts : List Char) : Option (Nat × Option Nat) :=
  match Text.splitOnce? ',' counts with
  | none => (readCount? counts).map fun n => (n, some n)
  | some (low, []) => (readCount? low).map fun n => (n, none)
  | some (low, high) => do
    let low ← readCount? low
    let high ← readCount? high
    if low ≤ high then some (low, some high) else none

def readMark? : List Char → Option (Option ((Nat × Option Nat) × Nat))
  | '*' :: _ => some (some ((0, none), 1))
  | '+' :: _ => some (some ((1, none), 1))
  | '?' :: _ => some (some ((0, some 1), 1))
  | '\x7b' :: rest => do
    let (counts, _) ← Text.splitOnce? '\x7d' rest
    return some (← readCounts? counts, counts.length + 2)
  | _ => some none

def readLazy : List Char → Bool × List Char
  | '?' :: rest => (true, rest)
  | cs => (false, cs)

theorem length_readLazy_le (cs : List Char) : (readLazy cs).2.length ≤ cs.length := by
  unfold readLazy
  split <;> simp

def readMarks? (d : Draft) (cs : List Char) : Option (Draft × List Char) :=
  match cs with
  | [] => some (d, [])
  | c :: rest =>
    match readMark? (c :: rest) with
    | none => none
    | some none => some (d, c :: rest)
    | some (some ((low, high), n)) =>
      let after := readLazy (rest.drop (n - 1))
      readMarks? ⟨.ofRepetition low high after.1 d.form, d.depth + 1⟩ after.2
termination_by cs.length
decreasing_by
  have := length_readLazy_le (rest.drop (n - 1))
  simp only [List.length_drop, List.length_cons] at *
  omega

mutual

def readAlternatives? (fuel : Nat) (cs : List Char) : Option (List Draft × List Char) :=
  match fuel with
  | 0 => none
  | fuel + 1 => do
    let (items, after) ← readSequence? fuel cs
    let first := Draft.combine Form.ofRow items
    match after with
    | '|' :: rest =>
      let (others, after) ← readAlternatives? fuel rest
      return (first :: others, after)
    | after => return ([first], after)

def readSequence? (fuel : Nat) (cs : List Char) : Option (List Draft × List Char) :=
  match fuel with
  | 0 => none
  | fuel + 1 =>
    match cs with
    | [] => some ([], [])
    | '|' :: rest => some ([], '|' :: rest)
    | ')' :: rest => some ([], ')' :: rest)
    | '(' :: rest => do
      let (choices, after) ← readAlternatives? fuel rest
      match after with
      | ')' :: after =>
        let inner := Draft.combine Form.ofChoice choices
        let (first, after) ← readMarks? ⟨.group inner.form, inner.depth + 1⟩ after
        let (others, after) ← readSequence? fuel after
        return (first :: others, after)
      | _ => none
    | cs => do
      let (item, after) ← readItem? cs
      let (first, after) ← readMarks? item after
      let (others, after) ← readSequence? fuel after
      return (first :: others, after)

end

def parse? (text : String) : Option Pattern := do
  let cs := text.toList
  let (choices, after) ← readAlternatives? (2 * cs.length + 2) cs
  let whole := Draft.combine Form.ofChoice choices
  if after.isEmpty && whole.depth ≤ Draft.maxDepth && whole.form.fits then
    some whole.form.toPattern
  else none

end ChartLint.Pattern
