import ChartLint.Text.Basic

/-!
# Tables

The lines of a `csv` block: a header, which goes on after a line that ends in a comma, and then
rows.
-/

namespace ChartLint.Block

def cellsFrom (quoted : Bool) : List Char → Nat
  | [] => 1
  | c :: cs =>
    if c = '\x22' then cellsFrom (!quoted) cs
    else if c = ',' ∧ !quoted then cellsFrom quoted cs + 1
    else cellsFrom quoted cs

def cells (row : List Char) : Nat :=
  cellsFrom false row

def headerColumns (header : List Char) : Nat :=
  if header.isEmpty then 0
  else if Text.endsWith header ',' then cells header - 1
  else cells header

structure Table where
  columns : Nat
  headerOpen : Bool
  deriving DecidableEq, Repr

namespace Table

def start (header : List Char) : Table where
  columns := headerColumns header
  headerOpen := header.isEmpty || Text.endsWith header ','

def extend (t : Table) (header : List Char) : Table where
  columns := t.columns + headerColumns header
  headerOpen := Text.endsWith header ','

end Table
end ChartLint.Block
