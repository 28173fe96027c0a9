import ChartLint.Rule.Basic

/-!
# The grid of a group

The widgets of a group fill rows from left to right. A grid has a width and a height, each of which
counts only if it is declared. Sizes are taken from the text of a setting, whether it is valid or
not.
-/

namespace ChartLint.Layout

structure Box where
  header : Span
  width : Float
  height : Float

structure Grid where
  width : Option Float
  height : Option Float
  perRow : Option Nat

def number? (s : Setting) : Option Float :=
  if isComputed s.value.text then none else Decimal.read? s.value.text

/-- The larger of two numbers; what is no number does not count. -/
def larger (x y : Float) : Float :=
  if x < y then y else x

def rowsOf {α : Type} (n : Nat) : List α → List (List α)
  | [] => []
  | a :: as => (a :: as.take (n - 1)) :: rowsOf n (as.drop (n - 1))
termination_by as => as.length
decreasing_by simp only [List.length_drop, List.length_cons]; omega

def Grid.rows (g : Grid) (boxes : List Box) : List (List Box) :=
  match g.perRow with
  | some n => rowsOf n boxes
  | none => if boxes.isEmpty then [] else [boxes]

def firstOverflow? (limit used : Float) : List Box → Option (Box × Float)
  | [] => none
  | b :: bs =>
    let used := used + b.width
    if limit < used then some (b, used) else firstOverflow? limit used bs

def rowHeight (row : List Box) : Float :=
  row.foldl (fun h b => larger h b.height) 0

def Grid.checkRow (g : Grid) (row : List Box) : List Diagnostic :=
  match g.width with
  | none => []
  | some limit =>
    (firstOverflow? limit 0 row).elim [] fun (b, needed) =>
      [.ofProblem (.rowOverflow needed limit) b.header]

/-- Reports rows that are too wide, up to the row where the grid is too low. `used` is the height of
the rows before. -/
def Grid.checkRows (g : Grid) (used : Float) : List (List Box) → List Diagnostic
  | [] => []
  | row :: rows =>
    let used := used + rowHeight row
    g.checkRow row ++
      match g.height, row.getLast? with
      | some limit, some b =>
        if limit < used then [.ofProblem (.groupOverflow used limit) b.header]
        else g.checkRows used rows
      | _, _ => g.checkRows used rows

def wholeCount? (x : Float) : Option Nat :=
  if 1 ≤ x then
    match Binary.ofFloat x with
    | .finite _ m e => some (Binary.flooredMagnitude m e)
    | _ => none
  else none

def gridOf (t : SectionTree) (id : Nat) : Grid where
  width := (t.find? id "width-units").bind number?
  height := (t.find? id "height-units").bind number?
  perRow := ((t.find? id "widgets-per-row").bind number?).bind wholeCount?

def boxOf (n : SectionNode) : Box where
  header := n.header
  width := ((n.local? "width-units").bind number?).getD 1
  height := ((n.local? "height-units").bind number?).getD 1

def boxesOf (t : SectionTree) (id : Nat) : List Box :=
  (((t.children id).filterMap t.node?).filter fun n => n.kind == .widget).map boxOf

def check (t : SectionTree) (id : Nat) : List Diagnostic :=
  let grid := gridOf t id
  if grid.width.isNone && grid.height.isNone then []
  else grid.checkRows 0 (grid.rows (boxesOf t id))

end ChartLint.Layout
