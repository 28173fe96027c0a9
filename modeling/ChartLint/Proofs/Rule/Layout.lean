import ChartLint.Proofs.Decimal.Order
import ChartLint.Rule.Layout

/-!
# Widgets in the grid of a group

The widgets of a group are cut into rows, and the reports are about the first sums that do not fit:
in each row the first widget up to which the widths exceed the grid, and in the group the first row
up to which the heights do. No row after that one is looked at. All of this holds of sizes of any
kind, also of negative and infinite ones and of what is no number: `check_first_overflows`.
-/

namespace ChartLint.Layout

/-! ## Rows -/

/-- Rows of `n`, of which only the last may be shorter. -/
structure Wrapped {α : Type} (n : Nat) (rows : List (List α)) : Prop where
  bounds : ∀ row ∈ rows, 1 ≤ row.length ∧ row.length ≤ n
  full : ∀ row ∈ rows.dropLast, row.length = n

theorem flatten_rowsOf {α : Type} (n : Nat) (as : List α) : (rowsOf n as).flatten = as := by
  induction as using rowsOf.induct n with
  | case1 => simp [rowsOf]
  | case2 a as ih =>
      rw [rowsOf, List.flatten_cons, ih, List.cons_append, List.take_append_drop]

theorem rowsOf_eq_nil_iff {α : Type} {n : Nat} {as : List α} : rowsOf n as = [] ↔ as = [] := by
  cases as <;> simp [rowsOf]

theorem wrapped_rowsOf {α : Type} {n : Nat} (pos : 1 ≤ n) (as : List α) :
    Wrapped n (rowsOf n as) := by
  induction as using rowsOf.induct n with
  | case1 => exact ⟨by simp [rowsOf], by simp [rowsOf]⟩
  | case2 a as ih =>
      have first : (a :: as.take (n - 1)).length = min n (as.length + 1) := by
        rw [List.length_cons, List.length_take]
        omega
      rw [rowsOf]
      constructor
      · rw [List.forall_mem_cons]
        exact ⟨by omega, ih.bounds⟩
      · -- a row with another one after it is full, or there would be nothing left for that one
        by_cases last : rowsOf n (as.drop (n - 1)) = []
        · simp [last]
        · have left : 0 < (as.drop (n - 1)).length :=
            List.length_pos_iff.mpr (mt rowsOf_eq_nil_iff.mpr last)
          rw [List.length_drop] at left
          rw [List.dropLast_cons_of_ne_nil last, List.forall_mem_cons]
          exact ⟨by omega, ih.full⟩

theorem wholeCount?_eq_some_iff {x : Float} {n : Nat} :
    wholeCount? x = some n ↔ ∃ q ∈ (Binary.ofFloat x).value?, 1 ≤ q ∧ n = ⌊q⌋₊ := by
  constructor
  · intro found
    unfold wholeCount? at found
    split at found
    · next large =>
        rw [Binary.one_le_iff] at large
        split at found
        · next negative m e shown =>
            rw [shown] at large ⊢
            obtain ⟨q, value, large⟩ := large.resolve_left (by simp)
            exact ⟨q, value, large,
              (Option.some.inj found).symm.trans (Binary.flooredMagnitude_of_value value large)⟩
        · cases found
    · cases found
  · rintro ⟨q, value, large, rfl⟩
    rw [wholeCount?, if_pos (Binary.one_le_iff.mpr (.inr ⟨q, value, large⟩))]
    cases shown : Binary.ofFloat x with
    | nan => simp [shown, Binary.value?] at value
    | infinite negative => simp [shown, Binary.value?] at value
    | finite negative m e =>
        rw [shown] at value
        exact congrArg some (Binary.flooredMagnitude_of_value value large)

theorem wholeCount?_eq_none_iff {x : Float} :
    wholeCount? x = none ↔ ∀ q ∈ (Binary.ofFloat x).value?, q < 1 := by
  rw [Option.eq_none_iff_forall_ne_some]
  simp only [ne_eq, wholeCount?_eq_some_iff]
  constructor
  · intro none_ q value
    by_contra large
    exact none_ _ ⟨q, value, not_lt.mp large, rfl⟩
  · rintro small n ⟨q, value, large, -⟩
    exact absurd large (not_le.mpr (small q value))

/-! ## Sums -/

section Sums

variable {α : Type} {start limit : Float} {size : α → Float} {a : α} {as : List α} {k : Nat}

def total (start : Float) (size : α → Float) (as : List α) : Float :=
  as.foldl (fun sum a => sum + size a) start

def Fits (start limit : Float) (size : α → Float) (as : List α) : Prop :=
  ∀ k < as.length, ¬ limit < total start size (as.take (k + 1))

structure FirstOver (start limit : Float) (size : α → Float) (as : List α) (k : Nat) : Prop where
  within : k < as.length
  exceeds : limit < total start size (as.take (k + 1))
  before : ∀ j < k, ¬ limit < total start size (as.take (j + 1))

theorem Fits.cons (fits : ¬ limit < start + size a) (rest : Fits (start + size a) limit size as) :
    Fits start limit size (a :: as) := by
  intro k within
  cases k with
  | zero => exact fits
  | succ k => exact rest k (Nat.lt_of_succ_lt_succ within)

theorem FirstOver.head (exceeds : limit < start + size a) :
    FirstOver start limit size (a :: as) 0 where
  within := Nat.succ_pos _
  exceeds := exceeds
  before j earlier := absurd earlier (Nat.not_lt_zero j)

theorem FirstOver.tail (fits : ¬ limit < start + size a)
    (rest : FirstOver (start + size a) limit size as k) :
    FirstOver start limit size (a :: as) (k + 1) where
  within := Nat.succ_lt_succ rest.within
  exceeds := rest.exceeds
  before j earlier := by
    cases j with
    | zero => exact fits
    | succ j => exact rest.before j (Nat.lt_of_succ_lt_succ earlier)

end Sums

/-! ## The reports on a row -/

/-- The reports on a row: one at the first widget up to which the widths exceed that of the grid, if
there is such a widget. -/
def RowReports (grid : Grid) (row : List Box) (ds : List Diagnostic) : Prop :=
  (∃ limit k b, grid.width = some limit ∧ FirstOver 0 limit Box.width row k ∧ row[k]? = some b ∧
    ds = [.ofProblem (.rowOverflow (total 0 Box.width (row.take (k + 1))) limit) b.header]) ∨
  (∀ limit ∈ grid.width, Fits 0 limit Box.width row) ∧ ds = []

theorem firstOverflow?_cases (limit used : Float) (row : List Box) :
    (∃ k b, FirstOver used limit Box.width row k ∧ row[k]? = some b ∧
      firstOverflow? limit used row = some (b, total used Box.width (row.take (k + 1)))) ∨
    Fits used limit Box.width row ∧ firstOverflow? limit used row = none := by
  induction row generalizing used with
  | nil => exact .inr ⟨by simp [Fits], rfl⟩
  | cons b row ih =>
      rw [firstOverflow?]
      by_cases exceeds : limit < used + b.width
      · rw [if_pos exceeds]
        exact .inl ⟨0, b, .head exceeds, rfl, rfl⟩
      · rw [if_neg exceeds]
        rcases ih (used + b.width) with ⟨k, c, first, found, same⟩ | ⟨fits, same⟩
        · exact .inl ⟨k + 1, c, .tail exceeds first, found, same⟩
        · exact .inr ⟨.cons exceeds fits, same⟩

theorem checkRow_reports_first (grid : Grid) (row : List Box) :
    RowReports grid row (grid.checkRow row) := by
  unfold RowReports Grid.checkRow
  cases grid.width with
  | none => exact .inr ⟨by simp, rfl⟩
  | some limit =>
      dsimp only
      rcases firstOverflow?_cases limit 0 row with ⟨k, b, first, found, same⟩ | ⟨fits, same⟩
      · rw [same]
        exact .inl ⟨limit, k, b, rfl, first, found, rfl⟩
      · rw [same]
        exact .inr ⟨by simpa using fits, rfl⟩

/-! ## The reports on a group -/

/-- The reports on the rows of a group: those on each row, up to the first row up to which the
heights exceed that of the grid, and one at the last widget of that row. -/
def GroupReports (grid : Grid) (start : Float) (rows : List (List Box)) (ds : List Diagnostic) :
    Prop :=
  (∃ limit k row b, grid.height = some limit ∧ FirstOver start limit rowHeight rows k ∧
    rows[k]? = some row ∧ row.getLast? = some b ∧
    ds = (rows.take (k + 1)).flatMap grid.checkRow ++
      [.ofProblem (.groupOverflow (total start rowHeight (rows.take (k + 1))) limit) b.header]) ∨
  (∀ limit ∈ grid.height, Fits start limit rowHeight rows) ∧ ds = rows.flatMap grid.checkRow

theorem GroupReports.cons {grid : Grid} {start : Float} {row : List Box} {rows : List (List Box)}
    {ds : List Diagnostic} (fits : ∀ limit ∈ grid.height, ¬ limit < start + rowHeight row)
    (rest : GroupReports grid (start + rowHeight row) rows ds) :
    GroupReports grid start (row :: rows) (grid.checkRow row ++ ds) := by
  rcases rest with ⟨limit, k, last, b, height, first, found, ends, rfl⟩ | ⟨all, rfl⟩
  · refine .inl ⟨limit, k + 1, last, b, height, .tail (fits limit height) first, found, ends, ?_⟩
    rw [List.take_succ_cons, List.flatMap_cons, List.append_assoc]
    rfl
  · refine .inr ⟨?_, List.flatMap_cons.symm⟩
    intro limit height
    exact .cons (fits limit height) (all limit height)

theorem checkRows_reports_first (grid : Grid) (used : Float) {rows : List (List Box)}
    (filled : ∀ row ∈ rows, row ≠ []) : GroupReports grid used rows (grid.checkRows used rows) := by
  induction rows generalizing used with
  | nil => exact .inr ⟨by simp [Fits], rfl⟩
  | cons row rows ih =>
      obtain ⟨full, filled⟩ := List.forall_mem_cons.mp filled
      rw [Grid.checkRows]
      have last : row.getLast? = some (row.getLast full) := List.getLast?_eq_some_getLast full
      cases height : grid.height with
      | none =>
          simp only
          exact .cons (by simp [height]) (ih _ filled)
      | some limit =>
          rw [last]
          dsimp only
          by_cases exceeds : limit < used + rowHeight row
          · rw [if_pos exceeds]
            exact .inl ⟨limit, 0, row, _, height, .head exceeds, rfl, last, by simp [total]⟩
          · rw [if_neg exceeds]
            exact .cons (by simpa [height] using exceeds) (ih _ filled)

/-! ## Groups -/

theorem perRow_pos {t : SectionTree} {id n : Nat} (count : (gridOf t id).perRow = some n) :
    1 ≤ n := by
  obtain ⟨x, -, whole⟩ := Option.bind_eq_some_iff.mp count
  obtain ⟨q, -, large, rfl⟩ := wholeCount?_eq_some_iff.mp whole
  exact Nat.le_floor (by simpa using large)

theorem rows_spec {grid : Grid} (pos : ∀ n ∈ grid.perRow, 1 ≤ n) (boxes : List Box) :
    (grid.rows boxes).flatten = boxes ∧ ∀ row ∈ grid.rows boxes, row ≠ [] := by
  unfold Grid.rows
  cases count : grid.perRow with
  | some n =>
      refine ⟨flatten_rowsOf n boxes, ?_⟩
      intro row member
      exact List.length_pos_iff.mp ((wrapped_rowsOf (pos n count) boxes).bounds row member).1
  | none => cases boxes <;> simp

theorem check_reports_first (t : SectionTree) (id : Nat) :
    GroupReports (gridOf t id) 0 ((gridOf t id).rows (boxesOf t id)) (check t id) := by
  unfold check
  dsimp only
  split
  · next unlimited =>
      simp only [Bool.and_eq_true, Option.isNone_iff_eq_none] at unlimited
      refine .inr ⟨by simp [unlimited.2], ?_⟩
      simp [Grid.checkRow, unlimited.1]
  · exact checkRows_reports_first _ 0 (rows_spec (fun _ count => perRow_pos count) _).2

/-- Whatever the settings of a group hold, its widgets are cut into rows of at least one widget: as
many as the whole part of `widgets-per-row` says, if that is at least one, and else a single row.
Each row that is looked at is reported at most once, at the first widget up to which the widths
exceed that of the grid. The group is reported at most once, at the last widget of the first row up
to which the heights exceed that of the grid, and no row after that one is looked at. -/
theorem check_first_overflows (t : SectionTree) (id : Nat) :
    (∀ n ∈ (gridOf t id).perRow, 1 ≤ n) ∧
    ∃ rows : List (List Box), rows.flatten = boxesOf t id ∧ (∀ row ∈ rows, row ≠ []) ∧
      (∀ x q, (t.find? id "widgets-per-row").bind number? = some x →
        (Binary.ofFloat x).value? = some q → 1 ≤ q → Wrapped ⌊q⌋₊ rows) ∧
      ((∀ x q, (t.find? id "widgets-per-row").bind number? = some x →
        (Binary.ofFloat x).value? = some q → q < 1) → rows.length ≤ 1) ∧
      (∀ row ∈ rows, RowReports (gridOf t id) row ((gridOf t id).checkRow row)) ∧
      GroupReports (gridOf t id) 0 rows (check t id) := by
  have pos : ∀ n ∈ (gridOf t id).perRow, 1 ≤ n := fun _ count => perRow_pos count
  obtain ⟨cut, filled⟩ := rows_spec pos (boxesOf t id)
  refine ⟨pos, (gridOf t id).rows (boxesOf t id), cut, filled, ?_, ?_,
    fun row _ => checkRow_reports_first _ row, check_reports_first t id⟩
  · intro x q count value large
    have whole : (gridOf t id).perRow = some ⌊q⌋₊ :=
      Option.bind_eq_some_iff.mpr ⟨x, count, wholeCount?_eq_some_iff.mpr ⟨q, value, large, rfl⟩⟩
    rw [Grid.rows, whole]
    exact wrapped_rowsOf (pos _ whole) _
  · intro small
    have single : (gridOf t id).perRow = none := by
      apply Option.bind_eq_none_iff.mpr
      intro x count
      exact wholeCount?_eq_none_iff.mpr fun q value => small x q count value
    rw [Grid.rows, single]
    cases boxesOf t id <;> simp

def sizeSetting (name value : String) : Setting where
  descriptor := { name, type := .number }
  name := .place name.toList 0 0
  value := .place value.toList 0 (name.length + 3)

/-- A group with two and a half widgets in a row. The first widget is too wide and the second makes
up for it. The third has no width to speak of, but is too high. -/
def crowdedTree : SectionTree where
  nodes := #[
    { header := .place "group".toList 0 1, kind := .group, parent := none, children := [1, 2, 3],
      settings := [sizeSetting "width-units" "3", sizeSetting "height-units" "2",
        sizeSetting "widgets-per-row" "2.5"] },
    { header := .place "widget".toList 4 1, kind := .widget, parent := some 0,
      settings := [sizeSetting "width-units" "4"] },
    { header := .place "widget".toList 6 1, kind := .widget, parent := some 0,
      settings := [sizeSetting "width-units" "-2"] },
    { header := .place "widget".toList 8 1, kind := .widget, parent := some 0,
      settings := [sizeSetting "width-units" "nan", sizeSetting "height-units" "2"] }]

theorem check_first_overflows_crowded :
    (crowdedTree.find? 0 "widgets-per-row").bind number? = some 2.5 ∧
    (Binary.ofFloat 2.5).value? = some (5 / 2) ∧ (boxesOf crowdedTree 0).length = 3 ∧
    (∃ rows, rows.flatten = boxesOf crowdedTree 0 ∧ Wrapped 2 rows ∧
      GroupReports (gridOf crowdedTree 0) 0 rows (check crowdedTree 0)) ∧
    check crowdedTree 0 =
      [.ofProblem (.rowOverflow 4 3) (.place "widget".toList 4 1),
        .ofProblem (.groupOverflow 3 2) (.place "widget".toList 8 1)] := by
  have count : (crowdedTree.find? 0 "widgets-per-row").bind number? = some 2.5 := rfl
  have value : (Binary.ofFloat 2.5).value? = some (5 / 2) := by decide +kernel
  have whole : ⌊(5 / 2 : ℚ)⌋₊ = 2 := by norm_num
  have grid : gridOf crowdedTree 0 = ⟨some 3, some 2, some 2⟩ := rfl
  have boxes : boxesOf crowdedTree 0 =
      [⟨.place "widget".toList 4 1, 4, 1⟩, ⟨.place "widget".toList 6 1, -2, 1⟩,
        ⟨.place "widget".toList 8 1, 0 / 0, 2⟩] := rfl
  obtain ⟨-, rows, cut, -, wrapped, -, -, reports⟩ := check_first_overflows crowdedTree 0
  refine ⟨count, value, by rw [boxes]; rfl,
    ⟨rows, cut, whole ▸ wrapped _ _ count value (by norm_num), reports⟩, ?_⟩
  -- Rows do not reduce by themselves, so they are cut by the equations of `rowsOf`.
  rw [check]
  simp only [grid, boxes, Grid.rows, rowsOf]
  decide +kernel

end ChartLint.Layout
