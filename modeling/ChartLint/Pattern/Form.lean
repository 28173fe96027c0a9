import ChartLint.Pattern.Basic

/-!
# Normal forms of patterns

A form keeps how a pattern is written, with its groups and counts, but each in one way: neighbouring
characters are one text, characters to choose from are one set, a set of one character is a text,
and what several alternatives start with stands in front of them. The size of a pattern is that of
its form.
-/

namespace ChartLint.Pattern

inductive Form where
  | empty
  | start
  | finish
  | text (chars : List Char)
  | set (s : CharSet)
  /-- At least `low` and at most `high` repetitions, as few as possible if `lazy`. -/
  | repeated (low : Nat) (high : Option Nat) (lazy : Bool) (inner : Form)
  | group (inner : Form)
  | row (items : List Form)
  | choice (items : List Form)

namespace Form

mutual

def same : Form → Form → Bool
  | .empty, .empty | .start, .start | .finish, .finish => true
  | .text a, .text b => a == b
  | .set a, .set b => a == b
  | .repeated low high lazy a, .repeated low' high' lazy' b =>
    low == low' && high == high' && lazy == lazy' && same a b
  | .row as, .row bs => sameAll as bs
  | .choice as, .choice bs => sameAll as bs
  | _, _ => false

def sameAll : List Form → List Form → Bool
  | [], [] => true
  | a :: as, b :: bs => same a b && sameAll as bs
  | _, _ => false

end

mutual

def readsNothing : Form → Bool
  | .empty | .start | .finish => true
  | .text _ | .set _ => false
  | .repeated _ _ _ inner | .group inner => inner.readsNothing
  | .row items | .choice items => allReadNothing items

def allReadNothing : List Form → Bool
  | [] => true
  | f :: fs => f.readsNothing && allReadNothing fs

end

mutual

def readsAlways : Form → Bool
  | .empty | .start | .finish => false
  | .text _ => true
  | .set s => !s.ranges.isEmpty
  | .repeated low _ _ inner => low != 0 && inner.readsAlways
  | .group inner => inner.readsAlways
  | .row items => someReadsAlways items
  | .choice items => allReadAlways items

def someReadsAlways : List Form → Bool
  | [] => false
  | f :: fs => f.readsAlways || someReadsAlways fs

def allReadAlways : List Form → Bool
  | [] => true
  | f :: fs => f.readsAlways && allReadAlways fs

end

def ofSet (s : CharSet) : Form :=
  match s.single? with
  | some c => .text [c]
  | none => .set s

def ofRepetition (low : Nat) (high : Option Nat) (lazy : Bool) (inner : Form) : Form :=
  let (low, high) :=
    if inner.readsNothing then (min low 1, some (min (high.getD 1) 1)) else (low, high)
  if high = some 0 then .empty
  else if low = 1 ∧ high = some 1 then inner
  else .repeated low high lazy inner

def joinTexts : List Form → List Form
  | [] => []
  | .empty :: rest => joinTexts rest
  | .text cs :: rest =>
    match joinTexts rest with
    | .text ds :: more => .text (cs ++ ds) :: more
    | more => .text cs :: more
  | f :: rest => f :: joinTexts rest

def ofRow (items : List Form) : Form :=
  match joinTexts items with
  | [] => .empty
  | [f] => f
  | fs => .row fs

def char? : Form → Option Char
  | .text [c] => some c
  | _ => none

def set? : Form → Option CharSet
  | .set s => some s
  | _ => none

def items? : Form → Option (List Form)
  | .row items => some items
  | _ => none

/-- The form of alternatives without anything in front of them. Characters only, or sets only, are
one set. -/
def ofOptions (options : List Form) : Form :=
  match options.mapM char?, options.mapM set? with
  | some cs, _ => ofSet (.ofRanges (cs.map CodeRange.ofChar))
  | none, some sets => ofSet (.ofRanges (sets.flatMap CharSet.ranges))
  | none, none => .choice options

def commonLength : List Form → List Form → Nat
  | a :: as, b :: bs => if same a b then commonLength as bs + 1 else 0
  | _, _ => 0

/-- The form of alternatives. If all are rows, what they have in common at their start stands in
front. -/
def ofChoice (options : List Form) : Form :=
  match options with
  | [] => .empty
  | [f] => f
  | options =>
    match ofOptions options, options.mapM items? with
    | .choice options, some (first :: others) =>
      let n := others.foldl (fun n items => min n (commonLength first items)) first.length
      if n = 0 then .choice options
      else
        let rests := (first :: others).map fun items => ofRow (items.drop n)
        ofRow (first.take n ++ [ofOptions rests])
    | f, _ => f

def ofPatterns (join : Pattern → Pattern → Pattern) : List Pattern → Pattern
  | [] => .empty
  | p :: ps => connect join p ps

mutual

def toPattern : Form → Pattern
  | .empty => .empty
  | .start => .start
  | .finish => .finish
  | .text cs => ofPatterns .seq (cs.map fun c => .char ⟨[.ofChar c]⟩)
  | .set s => .char s
  | .repeated low high _ inner => inner.toPattern.repeated low high
  | .group inner => inner.toPattern
  | .row items => ofPatterns .seq (toPatterns items)
  | .choice items => ofPatterns .alt (toPatterns items)

def toPatterns : List Form → List Pattern
  | [] => []
  | f :: fs => f.toPattern :: toPatterns fs

end

end Form
end ChartLint.Pattern
