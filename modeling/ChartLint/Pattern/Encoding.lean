import ChartLint.Pattern.CharSet

/-!
# Sets of characters as sequences of bytes

In UTF-8 a character takes one to four bytes. A range of characters is a list of sequences of byte
ranges, such that any choice of a byte from each range of a sequence is a character of the range.
-/

namespace ChartLint.Pattern

structure ByteRange where
  low : Nat
  high : Nat
  deriving DecidableEq, Repr

abbrev ByteSequence := List ByteRange

namespace CodeRange

/-- The codes that take one, two, three and four bytes; those of three bytes lie on both sides of
the codes that belong to no character. -/
def lengthClasses : List (Nat × CodeRange) :=
  [(1, ⟨0, 0x7f⟩), (2, ⟨0x80, 0x7ff⟩), (3, ⟨0x800, 0xd7ff⟩), (3, ⟨0xe000, 0xffff⟩),
   (4, ⟨0x10000, 0x10ffff⟩)]

/-- Cuts a range so that each piece is in one block of a size or consists of whole blocks, for each
of some sizes. -/
def cut (r : CodeRange) : List Nat → List CodeRange
  | [] => [r]
  | block :: blocks =>
    if r.low / block = r.high / block then [r]
    else
      let first := (r.low + block - 1) / block * block
      let past := (r.high + 1) / block * block
      (if r.low < first then [⟨r.low, first - 1⟩] else []) ++
        (if first < past then cut ⟨first, past - 1⟩ blocks else []) ++
        (if past ≤ r.high then [⟨past, r.high⟩] else [])

/-- The bytes after the first that a code has. Each holds six bits, from the place that a power of
64 gives. -/
def tailBytes (code : Nat) (places : List Nat) : List Nat :=
  places.map fun place => 0x80 + code / place % 64

def encode (length code : Nat) : List Nat :=
  match length with
  | 2 => (0xc0 + code / 64) :: tailBytes code [1]
  | 3 => (0xe0 + code / 4096) :: tailBytes code [64, 1]
  | 4 => (0xf0 + code / 262144) :: tailBytes code [4096, 64, 1]
  | _ => [code]

def sequences (r : CodeRange) : List ByteSequence :=
  lengthClasses.flatMap fun (length, all) =>
    let low := max r.low all.low
    let high := min r.high all.high
    if high < low then []
    else if length = 1 then [[⟨low, high⟩]]
    else (cut ⟨low, high⟩ [64, 4096, 262144]).map fun piece =>
      List.zipWith ByteRange.mk (encode length piece.low) (encode length piece.high)

end CodeRange

namespace CharSet

def isAscii (set : CharSet) : Bool :=
  set.ranges.all fun r => r.high < 128

def sequences (set : CharSet) : List ByteSequence :=
  set.ranges.flatMap CodeRange.sequences

end CharSet

namespace ByteSequence

def branches : List ByteSequence → List (ByteRange × List ByteSequence)
  | [] => []
  | [] :: rest => branches rest
  | (b :: bs) :: rest =>
    match branches rest with
    | (b', others) :: more =>
      if b = b' then (b, bs :: others) :: more else (b, [bs]) :: (b', others) :: more
    | [] => [(b, [bs])]

/-- The inner nodes of the tree of sequences, each as the sequences below it. The first argument
bounds the depth. -/
def nodes : Nat → List ByteSequence → List (List ByteSequence)
  | 0, _ => []
  | depth + 1, sequences =>
    match branches sequences with
    | [] => []
    | found => sequences :: found.flatMap fun (_, rest) => nodes depth rest

end ByteSequence
end ChartLint.Pattern
