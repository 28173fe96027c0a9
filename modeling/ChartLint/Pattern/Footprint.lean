import ChartLint.Pattern.Encoding
import ChartLint.Pattern.Form
import ChartLint.Text.Basic

/-!
# How large a pattern is

A pattern is as large as an automaton on bytes for its form, built piece by piece: each piece has a
first and a last state, and is linked to the next one by an edge. There is an automaton that reads a
text from its start and one that reads it from its end; a pattern is refused if one of them is too
large.
-/

namespace ChartLint.Pattern

inductive Direction where
  | forward
  | backward
  deriving DecidableEq, Repr

namespace Footprint

/-- The bytes of a state. -/
def state : Nat := 32

/-- The bytes of an edge for a range of bytes, in a state that has several. -/
def edge : Nat := 8

/-- The bytes of an edge to one of several states to go on with. -/
def branch : Nat := 4

def limit : Nat := 10485760

end Footprint

open Footprint

/-- The bytes of a piece, and whether its last state may have several edges. -/
structure Footprint where
  bytes : Nat
  isOpen : Bool := false
  deriving DecidableEq, Repr

def Footprint.linked (f : Footprint) : Nat :=
  if f.isOpen then f.bytes + branch else f.bytes

/-- The bytes of a set. Forwards, the tree of its byte sequences shares what is equal below its
nodes; backwards, it shares nothing. -/
def CharSet.footprint (direction : Direction) (set : CharSet) : Footprint :=
  if set.isAscii then ⟨2 * state + set.ranges.length * edge, false⟩
  else
    let sequences := set.sequences
    let nodes := ByteSequence.nodes 4 sequences
    let degree (node : List ByteSequence) := (ByteSequence.branches node).length
    match direction with
    | .forward =>
      ⟨nodes.eraseDups.foldl (fun n node => n + state + degree node * edge) state, false⟩
    | .backward =>
      ⟨nodes.foldl (fun n node => n + degree node * state)
        (2 * state + sequences.length * branch), false⟩

namespace Footprint

def repeated (piece : Footprint) (readsAlways : Bool) (low : Nat) : Option Nat → Footprint
  | none =>
    match low with
    | 0 =>
      if readsAlways then ⟨piece.linked + state + branch, true⟩
      else ⟨piece.linked + 3 * state + 4 * branch, false⟩
    | low => ⟨low * piece.linked + state + branch, true⟩
  | some high =>
    if low = high then ⟨(low - 1) * piece.linked + piece.bytes, piece.isOpen⟩
    else if low = 0 ∧ high = 1 then ⟨piece.linked + 2 * state + 2 * branch, false⟩
    else
      let lead := if low = 0 then state else low * piece.linked
      ⟨lead + state + (high - low) * (piece.linked + state + 2 * branch), false⟩

def row : List Footprint → Footprint
  | [] => ⟨state, false⟩
  | [piece] => piece
  | piece :: rest =>
    let others := row rest
    ⟨piece.linked + others.bytes, others.isOpen⟩

def choice (pieces : List Footprint) : Footprint :=
  ⟨pieces.foldl (fun n piece => n + piece.linked + branch) (2 * state), false⟩

def children : List (List Nat) → List (Nat × List (List Nat))
  | [] => []
  | [] :: rest => children rest
  | (b :: bs) :: rest =>
    let others := children rest
    (b, bs :: (others.lookup b).getD []) :: others.filter fun child => child.1 != b

/-- The runs of words before, between and after the places where a word ends. `ends` and `reads` say
whether a word has ended before and whether one has gone on. -/
def runs (ends reads : Bool) (run : List (List Nat)) : List (List Nat) → List (List (List Nat))
  | [] => [run.reverse]
  | [] :: rest =>
    if ends && !reads then runs ends reads run rest else run.reverse :: runs true reads [] rest
  | word :: rest => runs ends true (word :: run) rest

/-- The bytes of a tree of words below a node: a state to choose a run of words, and one for the
first bytes of each run. The first argument bounds the depth. -/
def tree : Nat → List (List Nat) → Nat
  | 0, _ => 0
  | depth + 1, words =>
    if words.all List.isEmpty then 0
    else
      let all := runs false false [] words
      let filled := (all.filter fun run => !run.isEmpty).map children
      let choices := state + (filled.length + all.length - 1) * branch
      filled.foldl (fun n found =>
        found.foldl (fun n child => n + tree depth child.2)
          (n + if found.length = 1 then state else state + found.length * edge)) choices

def words (words : List (List Nat)) : Footprint :=
  ⟨state + tree (words.foldl (fun n word => max n word.length) 0 + 1) words, false⟩

end Footprint

def Direction.order {α : Type} (direction : Direction) (items : List α) : List α :=
  match direction with
  | .forward => items
  | .backward => items.reverse

namespace Form

def word? : Form → Option (List Nat)
  | .text cs => some (cs.flatMap fun c => CodeRange.encode c.utf8Size c.toNat)
  | _ => none

mutual

/-- The bytes that a form takes. Groups are kept track of only when reading forwards. -/
def footprint (direction : Direction) : Form → Footprint
  | .empty | .start | .finish => ⟨state, false⟩
  | .text cs => ⟨Text.byteLength cs * state, false⟩
  | .set s => s.footprint direction
  | .repeated low high _ inner =>
    (inner.footprint direction).repeated inner.readsAlways low high
  | .group inner =>
    let piece := inner.footprint direction
    match direction with
    | .forward => ⟨piece.linked + 2 * state, false⟩
    | .backward => piece
  | .row items => .row (direction.order (footprints direction items))
  | .choice items =>
    match items.mapM word? with
    | some words => .words (words.map direction.order)
    | none => .choice (footprints direction items)

def footprints (direction : Direction) : List Form → List Footprint
  | [] => []
  | f :: fs => f.footprint direction :: footprints direction fs

end

/-- Whether there is an anchor among items in reading order, before anything is read. An item is
given by whether it has one and whether it reads nothing. -/
def meetsAnchor : List (Bool × Bool) → Bool
  | [] => false
  | (anchored, readsNothing) :: rest => anchored || (readsNothing && meetsAnchor rest)

mutual

def isAnchored (direction : Direction) : Form → Bool
  | .empty | .text _ | .set _ => false
  | .start => direction = .forward
  | .finish => direction = .backward
  | .repeated low _ _ inner => low != 0 && inner.isAnchored direction
  | .group inner => inner.isAnchored direction
  | .row items => meetsAnchor (direction.order (anchors direction items))
  | .choice items => (anchors direction items).all Prod.fst

def anchors (direction : Direction) : List Form → List (Bool × Bool)
  | [] => []
  | f :: fs => (f.isAnchored direction, f.readsNothing) :: anchors direction fs

end

def size (direction : Direction) (f : Form) : Nat :=
  let skip := if f.isAnchored direction then state else 3 * state + edge + 2 * branch
  let frame := match direction with
    | .forward => 3 * state
    | .backward => state
  skip + frame + (f.footprint direction).linked

def isWordList : Form → Bool
  | .choice items => 3000 ≤ items.length && (items.mapM word?).isSome
  | _ => false

def fits (f : Form) : Bool :=
  f.isWordList || (f.size .forward ≤ limit && f.size .backward ≤ limit)

end Form
end ChartLint.Pattern
