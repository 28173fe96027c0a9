/-!
# Similarity of words

Two measures. The similarity, from zero to one, counts characters that two words share at about the
same place, and favours a common beginning. The distance is the number of edits that turn one word
into the other, where an edit inserts, removes or replaces a character or swaps two characters, also
with edits between them.
-/

namespace ChartLint.Text

def matchWindow (a b : List Char) : Nat :=
  max a.length b.length / 2 - 1

/-- Goes through a word from place `i` on and pairs each character with the first character of `b`
in its window that is equal and not in `used`. Gives the paired characters and the places taken. -/
def pairUp (b : List (Char × Nat)) (window : Nat) (used : List Nat) (i : Nat) :
    List Char → List Char × List Nat
  | [] => ([], used)
  | c :: cs =>
    match b.find? fun (d, j) =>
        d == c && i ≤ j + window && j ≤ i + window && !used.contains j with
    | some (_, j) =>
      let (paired, taken) := pairUp b window (j :: used) (i + 1) cs
      (c :: paired, taken)
    | none => pairUp b window used (i + 1) cs

/-- The share of characters in common, less the pairs that are out of order. -/
def overlap (a b : List Char) : Float :=
  let (paired, taken) := pairUp b.zipIdx (matchWindow a b) [] 0 a
  let others := (b.zipIdx.filter fun (_, j) => taken.contains j).map Prod.fst
  let swaps := ((paired.zip others).filter fun (c, d) => c != d).length / 2
  let shared := Float.ofNat paired.length
  if paired.isEmpty then 0
  else
    (shared / Float.ofNat a.length + shared / Float.ofNat b.length +
      (shared - Float.ofNat swaps) / shared) / 3

def commonStart (a b : List Char) : Nat :=
  (((a.zip b).takeWhile fun (c, d) => c == d).take 4).length

def similarity (a b : List Char) : Float :=
  let share := overlap a b
  if share > 0.7 then share + 0.1 * Float.ofNat (commonStart a b) * (1 - share) else share

def lastPlace (c : Char) (cs : List Char) : Nat :=
  cs.zipIdx.foldl (fun last (d, i) => if d = c then i + 1 else last) 0

/-- One row of the table of distances. `rows` are the rows before it, in order, for the characters
`earlier`; `last` is one plus the last place in `b` so far where `c` stood, and `left` the distance
just found. -/
def distanceRow (rows : List (List Nat)) (earlier : List Char) (c : Char) (above : List Nat)
    (last left j : Nat) : List Char → List Nat
  | [] => []
  | d :: ds =>
    let at? (row : List Nat) (k : Nat) : Nat := row.getD k 0
    let change := at? above j + if c = d then 0 else 1
    let plain := min change (min (left + 1) (at? above (j + 1) + 1))
    let seen := lastPlace d earlier
    let best :=
      if seen = 0 ∨ last = 0 then plain
      else
        min plain
          (at? (rows.getD (seen - 1) []) (last - 1) + (earlier.length - seen) + 1 + (j - last))
    best :: distanceRow rows earlier c above (if c = d then j + 1 else last) best (j + 1) ds

def distanceRows (b : List Char) (rows : List (List Nat)) (earlier : List Char) :
    List Char → List (List Nat)
  | [] => rows
  | c :: cs =>
    let above := rows.getLastD []
    let start := earlier.length + 1
    let row := start :: distanceRow rows earlier c above 0 start 0 b
    distanceRows b (rows ++ [row]) (earlier ++ [c]) cs

def editDistance (a b : List Char) : Nat :=
  ((distanceRows b [List.range (b.length + 1)] [] a).getLastD []).getLastD 0

end ChartLint.Text
