/-!
# Blank characters

The characters that count as white space between words, and trimming them off the ends of a text.
-/

namespace ChartLint.Text

/-- The characters with the Unicode property White_Space. -/
def isBlank (c : Char) : Bool :=
  let n := c.toNat
  (9 ≤ n && n ≤ 13) || n == 0x20 || n == 0x85 || n == 0xA0 || n == 0x1680 ||
    (0x2000 ≤ n && n ≤ 0x200A) || n == 0x2028 || n == 0x2029 || n == 0x202F || n == 0x205F ||
    n == 0x3000

/-- The blanks that may stand between two tokens: space and tab. -/
def isGap (c : Char) : Bool :=
  c == ' ' || c == '\t'

theorem isBlank_of_isGap {c : Char} (h : isGap c = true) : isBlank c = true := by
  simp only [isGap, Bool.or_eq_true, beq_iff_eq] at h
  rcases h with rfl | rfl <;> decide

def trimStart (cs : List Char) : List Char :=
  cs.dropWhile isBlank

def trimEnd (cs : List Char) : List Char :=
  (cs.reverse.dropWhile isBlank).reverse

def trim (cs : List Char) : List Char :=
  trimEnd (trimStart cs)

def words (cs : List Char) : List (List Char) :=
  go [] cs
where
  go : List Char → List Char → List (List Char)
    | acc, [] => if acc.isEmpty then [] else [acc.reverse]
    | acc, c :: cs =>
      if isBlank c then
        if acc.isEmpty then go [] cs else acc.reverse :: go [] cs
      else go (c :: acc) cs

def trimmed (s : String) : String :=
  String.ofList (trim s.toList)

end ChartLint.Text
