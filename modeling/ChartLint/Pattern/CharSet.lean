import ChartLint.Text.Digit

/-!
# Sets of characters

A set is a list of ranges of character codes that are in order and neither touch nor overlap, so
each set has one list.
-/

namespace ChartLint.Pattern

structure CodeRange where
  low : Nat
  high : Nat
  deriving DecidableEq, Repr

def CodeRange.ofChar (c : Char) : CodeRange :=
  ⟨c.toNat, c.toNat⟩

structure CharSet where
  ranges : List CodeRange
  deriving DecidableEq, Repr

namespace CharSet

def holds (set : CharSet) (c : Char) : Bool :=
  set.ranges.any fun r => r.low ≤ c.toNat && c.toNat ≤ r.high

def join (r : CodeRange) : List CodeRange → List CodeRange
  | [] => [r]
  | s :: rest => if s.low ≤ r.high + 1 then join ⟨r.low, max r.high s.high⟩ rest else r :: s :: rest

def ofRanges (ranges : List CodeRange) : CharSet :=
  ⟨(ranges.mergeSort fun r s => r.low ≤ s.low).foldr join []⟩

def maxCode : Nat := 0x10ffff

/-- The code after a code. Those from `0xd800` to `0xdfff` belong to no character. -/
def nextCode (n : Nat) : Nat :=
  if n = 0xd7ff then 0xe000 else n + 1

def previousCode (n : Nat) : Nat :=
  if n = 0xe000 then 0xd7ff else n - 1

def gaps (first : Nat) : List CodeRange → List CodeRange
  | [] => if first ≤ maxCode then [⟨first, maxCode⟩] else []
  | r :: rest =>
    (if first < r.low then [⟨first, previousCode r.low⟩] else []) ++ gaps (nextCode r.high) rest

def complement (set : CharSet) : CharSet :=
  ⟨gaps 0 set.ranges⟩

def digits : CharSet :=
  ofRanges (Text.zeros.map fun first => ⟨first, first + 9⟩)

def blanks : CharSet :=
  ⟨[⟨9, 13⟩, ⟨0x20, 0x20⟩, ⟨0x85, 0x85⟩, ⟨0xa0, 0xa0⟩, ⟨0x1680, 0x1680⟩, ⟨0x2000, 0x200a⟩,
    ⟨0x2028, 0x2029⟩, ⟨0x202f, 0x202f⟩, ⟨0x205f, 0x205f⟩, ⟨0x3000, 0x3000⟩]⟩

def single? (set : CharSet) : Option Char :=
  match set.ranges with
  | [r] => if r.low = r.high then some (Char.ofNat r.low) else none
  | _ => none

end CharSet
end ChartLint.Pattern
