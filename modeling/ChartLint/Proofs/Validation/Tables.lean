import ChartLint.Proofs.Block.MissingEnd
import ChartLint.Proofs.Diagnostic.Exchange
import ChartLint.Proofs.Validation.Names
import ChartLint.Proofs.Validation.Places

/-!
# Columns of tables

A table has as many columns as its header has cells, however the header is broken into lines. What
is counted of a line that ends in a comma leaves out the empty cell after the comma, which is the
start of the first cell of the next line. So while the header goes on, one column less is counted
than there are cells: `Block.Table.Under`.

* `Block.cells_eq`: the cells of a line are one more than its commas outside of double quotes.
* `Block.Table.foldl_next`: the columns after a header.
* `row_reports`: what is reported on a row.
-/

namespace ChartLint

namespace Block

/-! ## Cells -/

def separators (cs : List Char) : Nat :=
  (List.range cs.length).countP fun i => cs[i]? = some ',' ∧ (cs.take i).count '\x22' % 2 = 0

theorem cellsFrom_eq (quoted : Bool) (cs : List Char) :
    cellsFrom quoted cs = (List.range cs.length).countP (fun i =>
      cs[i]? = some ',' ∧ ((cs.take i).count '\x22' + quoted.toNat) % 2 = 0) + 1 := by
  induction cs generalizing quoted with
  | nil => rfl
  | cons c cs ih =>
      rw [cellsFrom, List.length_cons, List.range_succ_eq_map, List.countP_cons, List.countP_map]
      by_cases quote : c = '\x22'
      · subst quote
        have flips (n : Nat) : (n + 1 + quoted.toNat) % 2 = 0 ↔ (n + (!quoted).toNat) % 2 = 0 := by
          have sum : quoted.toNat + (!quoted).toNat = 1 := by cases quoted <;> rfl
          omega
        simp [ih, Function.comp_def, flips]
      · by_cases comma : c = ',' <;> cases quoted <;> simp [ih, Function.comp_def, quote, comma]

theorem cells_eq (cs : List Char) : cells cs = separators cs + 1 :=
  cellsFrom_eq false cs

theorem cellsFrom_append (quoted : Bool) (front back : List Char) :
    cellsFrom quoted (front ++ back) + 1 =
      cellsFrom quoted front + cellsFrom (quoted ^^ decide (front.count '\x22' % 2 = 1)) back := by
  induction front generalizing quoted with
  | nil => simp [cellsFrom, Nat.add_comm]
  | cons c front ih =>
      rw [List.cons_append, cellsFrom, cellsFrom]
      by_cases quote : c = '\x22'
      · subst quote
        have flips : (quoted ^^ decide (('\x22' :: front).count '\x22' % 2 = 1)) =
            ((!quoted) ^^ decide (front.count '\x22' % 2 = 1)) := by
          rw [List.count_cons_self]
          rcases Nat.mod_two_eq_zero_or_one (front.count '\x22') with even | odd
          · simp [Nat.add_mod, even]
          · simp [Nat.add_mod, odd]
        rw [if_pos rfl, if_pos rfl, ih, flips]
      · rw [if_neg quote, if_neg quote, List.count_cons_of_ne quote]
        have next := ih quoted
        split <;> omega

theorem cells_append {front : List Char} (even : front.count '\x22' % 2 = 0) (back : List Char) :
    cells (front ++ back) + 1 = cells front + cells back := by
  have meet := cellsFrom_append false front back
  rwa [even] at meet

theorem cellsFrom_blank (quoted : Bool) {cs : List Char} (blank : ∀ c ∈ cs, Text.isBlank c = true) :
    cellsFrom quoted cs = 1 := by
  induction cs with
  | nil => rfl
  | cons c cs ih =>
      obtain ⟨first, others⟩ := List.forall_mem_cons.mp blank
      have plain : c ≠ '\x22' ∧ c ≠ ',' := by
        constructor <;> rintro rfl <;> exact absurd first (by decide)
      rw [cellsFrom, if_neg plain.1, if_neg (by simp [plain.2]), ih others]

theorem cells_trim (cs : List Char) : cells (Text.trim cs) = cells cs := by
  have split := Text.trim_split cs
  have lead : ∀ c ∈ cs.takeWhile Text.isBlank, Text.isBlank c = true :=
    fun c => List.mem_takeWhile_imp
  have trail : ∀ c ∈ (cs.dropWhile Text.isBlank).rtakeWhile Text.isBlank, Text.isBlank c = true :=
    fun c => List.mem_rtakeWhile_imp
  generalize cs.takeWhile Text.isBlank = before at *
  generalize (cs.dropWhile Text.isBlank).rtakeWhile Text.isBlank = after at *
  have unquoted : before.count '\x22' = 0 :=
    List.count_eq_zero.mpr fun member => absurd (lead _ member) (by decide)
  have even : before.count '\x22' % 2 = 0 := by rw [unquoted]
  have front := cells_append even (Text.trim cs ++ after)
  have back := cellsFrom_append false (Text.trim cs) after
  rw [← List.append_assoc, ← split] at front
  rw [cellsFrom_blank _ trail] at back
  have one : cells before = 1 := cellsFrom_blank false lead
  unfold cells at *
  omega

/-! ## Headers -/

namespace Table

def next (t : Table) (row : List Char) : Table :=
  if row.isEmpty || !t.headerOpen then t else t.extend row

theorem start_eq (header : List Char) : start header = next ⟨0, true⟩ header := by
  cases header with
  | nil => rfl
  | cons c header => simp [start, next, extend]

structure Under (header : List Char) (t : Table) : Prop where
  unfinished : t.headerOpen = true
  even : header.count '\x22' % 2 = 0
  columns : t.columns + 1 = cells header

/-- A header that is broken into lines. All but the last are empty or end in a comma. -/
def Wrapped (lines : List (List Char)) : Prop :=
  ∃ opening last, lines = opening ++ [last] ∧
    (∀ h ∈ opening, h.count '\x22' % 2 = 0 ∧ (h = [] ∨ h.getLast? = some ',')) ∧
    last ≠ [] ∧ last.getLast? ≠ some ','

variable {t : Table} {header : List Char}

theorem cells_pos (row : List Char) : 0 < cells row := by
  rw [cells_eq]
  exact Nat.succ_pos _

theorem under_empty : Under [] ⟨0, true⟩ :=
  ⟨rfl, rfl, rfl⟩

theorem Under.next (under : Under header t) {row : List Char} (even : row.count '\x22' % 2 = 0)
    (open_ : row = [] ∨ row.getLast? = some ',') : Under (header ++ row) (t.next row) := by
  rcases open_ with rfl | comma
  · simpa [Table.next] using under
  · have filled : row ≠ [] := by
      rintro rfl
      cases comma
    have evenHeader := under.even
    have wider := cells_append evenHeader row
    have counted := under.columns
    have positive := cells_pos row
    have extended : t.next row = ⟨t.columns + (cells row - 1), true⟩ := by
      simp [Table.next, extend, headerColumns, Text.endsWith, under.unfinished, comma, filled]
    rw [extended]
    refine ⟨rfl, ?_, ?_⟩
    · rw [List.count_append]
      omega
    · dsimp only
      omega

theorem Under.foldl_next {lines : List (List Char)} (under : Under header t)
    (opening : ∀ h ∈ lines, h.count '\x22' % 2 = 0 ∧ (h = [] ∨ h.getLast? = some ',')) :
    Under (header ++ lines.flatten) (lines.foldl Table.next t) := by
  induction lines generalizing header t with
  | nil => simpa using under
  | cons h lines ih =>
      obtain ⟨⟨even, open_⟩, others⟩ := List.forall_mem_cons.mp opening
      rw [List.flatten_cons, ← List.append_assoc]
      exact ih (under.next even open_) others

theorem Under.next_last (under : Under header t) {row : List Char} (filled : row ≠ [])
    (ends : row.getLast? ≠ some ',') : t.next row = ⟨cells (header ++ row), false⟩ := by
  have wider := cells_append under.even row
  have counted := under.columns
  have closed : Text.endsWith row ',' = false := by simpa [Text.endsWith] using ends
  have columns : t.columns + cells row = cells (header ++ row) := by omega
  simp [Table.next, extend, headerColumns, closed, under.unfinished, filled, columns]

theorem foldl_next {lines : List (List Char)} (wrapped : Wrapped lines) :
    lines.foldl next ⟨0, true⟩ = ⟨cells lines.flatten, false⟩ := by
  obtain ⟨opening, last, rfl, open_, filled, ends⟩ := wrapped
  have under := under_empty.foldl_next open_
  rw [List.foldl_append, List.flatten_append]
  simpa using under.next_last filled ends

theorem foldl_next_rows (columns : Nat) (rows : List (List Char)) :
    rows.foldl next ⟨columns, false⟩ = ⟨columns, false⟩ := by
  induction rows with
  | nil => rfl
  | cons row rows ih => simpa [next] using ih

end Table

/-! ## The lines of a table -/

def headerLines (lead : List Char) (header : List String) : List (List Char) :=
  Text.trim lead :: header.map fun line => Text.trim line.toList

namespace Stack

variable {s : Stack} {t : Table}

theorem tableLine_eq (t : Table) (no : Nat) (line : List Char) :
    tableLine t no line = (t.next (Text.trim line),
      if Text.trim line = [] ∨ t.headerOpen = true ∨ cells line = t.columns then []
      else [.ofProblem (.columnCount t.columns (cells line)) (.trimmed line no 0)]) := by
  unfold tableLine Table.next
  simp only [Line.toList_trimmed, cells_trim, List.isEmpty_iff]
  by_cases empty : Text.trim line = []
  · simp [empty]
  · by_cases unfinished : t.headerOpen = true
    · simp [empty, unfinished]
    · by_cases same : cells line = t.columns <;> simp [empty, unfinished, same]

def Tabulates (t : Table) (s : Stack) : Prop :=
  ∃ frame below, s.frames = frame :: below ∧ frame.keyword = .csv ∧ frame.table = some t

theorem Tabulates.inText (table : s.Tabulates t) : s.inText = true := by
  obtain ⟨frame, below, frames, keyword, -⟩ := table
  simp [Stack.inText, innermost?, frames, keyword, Keyword.isOpaque]

theorem Tabulates.step (table : s.Tabulates t) {line : Line} (body : line.closes .csv = false)
    (no : Nat) (text : List Char) :
    (s.step no text line).1.Tabulates (tableLine t no text).1 ∧
      (s.step no text line).2 = (tableLine t no text).2 ∧
      ∀ places, s.Keeps places → (s.step no text line).1.Keeps places := by
  have read : s.step no text line = s.textLine no text := by
    rw [Stack.step.eq_def, if_pos table.inText]
    cases line with
    | closer kw head tail =>
        obtain ⟨frame, below, frames, keyword, -⟩ := table
        have other : s.innermost? ≠ some kw := by
          rintro innermost
          simp_all [innermost?, Line.closes]
        exact if_neg other
    | _ => rfl
  obtain ⟨frame, below, frames, keyword, holds⟩ := table
  have result : s.textLine no text =
      ({ s with frames := { frame with table := some (tableLine t no text).1 } :: below },
        (tableLine t no text).2) := by
    simp only [textLine, frames, holds]
  rw [read, result]
  refine ⟨⟨_, below, rfl, keyword, rfl⟩, rfl, fun places kept f member => ?_⟩
  rcases List.mem_cons.mp member with rfl | member
  · exact kept frame (by simp [frames])
  · exact kept f (by simp [frames, member])

theorem tabulates_after {before lines : List String} (table : (after before).Tabulates t)
    (body : ∀ line ∈ Line.classifyFrom before.length lines, line.closes .csv = false) :
    (after (before ++ lines)).Tabulates
      ((lines.map fun text => Text.trim text.toList).foldl Table.next t) := by
  induction lines generalizing before t with
  | nil => simpa using table
  | cons text lines ih =>
      obtain ⟨first, others⟩ := List.forall_mem_cons.mp body
      obtain ⟨next, -, -⟩ := table.step first before.length text.toList
      rw [tableLine_eq, ← after_concat] at next
      have rest := ih next (by simpa using others)
      rwa [List.append_assoc] at rest

theorem tabulates_opener {before : List String} {first : String} {head tail : Span}
    {name lead : List Char} (outside : (surroundingsAfter before).inText = false)
    (opens : Line.classify before.length first = .opener .csv false head tail)
    (declares : Declaration tail.text.toList name lead) :
    (after (before ++ [first])).Tabulates (.start (Text.trim lead)) := by
  have own : (after before).inText = false := (scoped_after before).inText_eq.trans outside
  rw [after_concat, opens, Stack.step.eq_def, own]
  simp only [enter, openFrame, declaration_iff.mp declares]
  exact ⟨_, _, rfl, rfl, rfl⟩

theorem tabulates_header {before header : List String} {first : String} {head tail : Span}
    {name lead : List Char} (outside : (surroundingsAfter before).inText = false)
    (opens : Line.classify before.length first = .opener .csv false head tail)
    (declares : Declaration tail.text.toList name lead)
    (body : ∀ line ∈ Line.classifyFrom (before.length + 1) header, line.closes .csv = false)
    (wrapped : Table.Wrapped (headerLines lead header)) :
    (after (before ++ first :: header)).Tabulates
      ⟨cells (headerLines lead header).flatten, false⟩ := by
  have opened := tabulates_opener outside opens declares
  rw [← List.length_singleton (a := first), ← List.length_append] at body
  have table := tabulates_after opened body
  have columns := Table.foldl_next wrapped
  rw [headerLines, List.foldl_cons, ← Table.start_eq] at columns
  rwa [columns, List.append_assoc] at table

theorem tabulates_rows {before rows : List String} {columns : Nat}
    (table : (after before).Tabulates ⟨columns, false⟩)
    (body : ∀ line ∈ Line.classifyFrom before.length rows, line.closes .csv = false) :
    (after (before ++ rows)).Tabulates ⟨columns, false⟩ := by
  have rows := tabulates_after table body
  rwa [Table.foldl_next_rows] at rows

end Stack
end Block

open Block

theorem filter_onLine {no : Nat} {ds : List Diagnostic}
    (elsewhere : ∀ d ∈ ds, d.At fun place => place.line ≠ no) :
    ds.filter (Diagnostic.onLine no) = [] := by
  rw [List.filter_eq_nil_iff]
  intro d member same
  obtain ⟨place, other, range⟩ := (elsewhere d member).range
  rw [Diagnostic.onLine, range] at same
  exact other (eq_of_beq same)

theorem Block.Stack.filter_tableLine (t : Table) (no : Nat) (cs : List Char) :
    (tableLine t no cs).2.filter (Diagnostic.onLine no) = (tableLine t no cs).2 := by
  have placed : ∀ place : Span, place.OnLine no cs → place.line = no := fun place on => on.slices.1
  rw [List.filter_eq_self]
  intro d member
  obtain ⟨place, line, range⟩ := (tableLine_reports t placed d member).at_place.range
  rw [Diagnostic.onLine, range]
  exact beq_iff_eq.mpr line

namespace Pass

variable (env : Environment) {p : Pass} {t : Table} {no : Nat} {text : String}

theorem step_of_table (table : p.blocks.Tabulates t)
    (body : (Line.classify no text).closes .csv = false) :
    ∃ blocks, p.step env no text = ({ p with blocks }, (Stack.tableLine t no text.toList).2) ∧
      ∀ places, p.blocks.Keeps places → blocks.Keeps places := by
  obtain ⟨-, read, keeps⟩ := table.step body no text.toList
  refine ⟨_, ?_, keeps⟩
  unfold step
  dsimp only
  rw [if_pos table.inText, read]

theorem filter_run_of_table (table : p.blocks.Tabulates t)
    (body : (Line.classify no text).closes .csv = false)
    (kept : p.Keeps fun place => place.line ≠ no)
    (blocks : p.blocks.Keeps fun place => place.line ≠ no)
    (rest : List String) :
    ((p.run env no (text :: rest)).2 ++ (p.run env no (text :: rest)).1.finish env).filter
      (Diagnostic.onLine no) =
      (Stack.tableLine t no text.toList).2 := by
  obtain ⟨next, step, keeps⟩ := step_of_table env table body
  have entered : Keeps (fun place => place.line ≠ no) { p with blocks := next } :=
    ⟨kept.path, kept.tree, kept.pending⟩
  have others : ∀ i line, rest[i]? = some line → ∀ place : Span,
      place.OnLine (no + 1 + i) line.toList → place.line ≠ no := by
    intro i line _ place on
    have number := on.slices.1
    omega
  obtain ⟨last, open_, later⟩ := run_at env entered (keeps _ blocks) (no + 1) rest others
  rw [run, step]
  dsimp only
  rw [List.filter_append, List.filter_append, Stack.filter_tableLine, filter_onLine later,
    filter_onLine (finish_at env last open_), List.append_nil, List.append_nil]

end Pass

theorem filter_reports_of_table (env : Environment) {before : List String} {text : String}
    {t : Table}
    (table : (Stack.after before).Tabulates t)
    (body : (Line.classify before.length text).closes .csv = false) (rest : List String) :
    (reports env (before ++ text :: rest)).filter (Diagnostic.onLine before.length) =
      (Stack.tableLine t before.length text.toList).2 := by
  have empty : Pass.Keeps (fun place => place.line ≠ before.length) {} := Pass.keeps_empty
  have others : ∀ i line, before[i]? = some line → ∀ place : Span,
      place.OnLine (0 + i) line.toList → place.line ≠ before.length := by
    intro i line found place on
    obtain ⟨bound, -⟩ := List.getElem?_eq_some_iff.mp found
    have number := on.slices.1
    omega
  obtain ⟨kept, blocks, earlier⟩ := Pass.run_at env empty (by simp [Stack.Keeps]) 0 before others
  rw [← Pass.blocks_run env] at table
  have later := Pass.filter_run_of_table env table body kept blocks rest
  unfold reports
  rw [Pass.run_append, Nat.zero_add]
  dsimp only
  rw [List.append_assoc, List.filter_append, filter_onLine earlier, later, List.nil_append]

/-- A table has as many columns as there are cells in its header, however the header is broken into
lines. A row is reported if it has more cells or fewer. -/
theorem row_reports (env : Environment) {before header rows : List String} {first row : String}
    (rest : List String) {head tail : Span} {name lead : List Char}
    (outside : (surroundingsAfter before).inText = false)
    (opens : Line.classify before.length first = .opener .csv false head tail)
    (declares : Block.Declaration tail.text.toList name lead)
    (body : ∀ line ∈ Line.classifyFrom (before.length + 1) (header ++ rows ++ [row]),
      line.closes .csv = false)
    (wrapped : Table.Wrapped (headerLines lead header)) :
    ∃ columns found no, columns = cells (headerLines lead header).flatten ∧
      columns = separators (headerLines lead header).flatten + 1 ∧
      found = separators row.toList + 1 ∧ no = before.length + 1 + header.length + rows.length ∧
      (Pass.run env {} 0 (before ++ first :: header)).1.blocks.Tabulates ⟨columns, false⟩ ∧
      (reports env (before ++ first :: (header ++ rows ++ row :: rest))).filter
        (Diagnostic.onLine no) =
        if Text.trim row.toList = [] ∨ found = columns then []
        else
          [{ code := .invalidValue
             range := (Span.trimmed row.toList no 0).range
             message := s!"expected {columns} columns, found {found}"
             source := Diagnostic.defaultSource }] := by
  rw [Line.classifyFrom_append, Line.classifyFrom_append] at body
  simp only [List.forall_mem_append] at body
  obtain ⟨⟨headerBody, rowsBody⟩, rowBody⟩ := body
  have length : (before ++ first :: header).length = before.length + 1 + header.length := by
    rw [List.length_append, List.length_cons]
    omega
  have complete := Stack.tabulates_header outside opens declares headerBody wrapped
  rw [← length] at rowsBody
  have table := Stack.tabulates_rows complete rowsBody
  have number : (before ++ first :: header ++ rows).length =
      before.length + 1 + header.length + rows.length := by
    rw [List.length_append, length]
  have lines : before ++ first :: (header ++ rows ++ row :: rest) =
      before ++ first :: header ++ rows ++ row :: rest := by simp
  rw [List.length_append, ← Nat.add_assoc, ← number] at rowBody
  have found := filter_reports_of_table env table (rowBody _ List.mem_cons_self) rest
  rw [Stack.tableLine_eq, number, ← lines, cells_eq row.toList] at found
  refine ⟨_, _, _, rfl, cells_eq _, rfl, rfl, ?_, ?_⟩
  · rw [Pass.blocks_run]
    exact complete
  · rw [found]
    exact if_congr (by simp) rfl rfl

theorem row_reports_wrapped :
    (surroundingsAfter ["[group]"]).inText = false ∧
      Table.Wrapped (headerLines " a,".toList ["", " \"x,y\",", "c"]) ∧
      (reports seriesEnvironment (["[group]"] ++ "csv t = a," ::
        (["", " \"x,y\",", "c"] ++ ["1,2,3", ""] ++ "\t1,2" :: ["endcsv"]))).filter
          (Diagnostic.onLine 7) =
        [.ofProblem (.columnCount 3 2) ⟨"1,2", 7, 1, 4⟩] := by
  have outside : (surroundingsAfter ["[group]"]).inText = false := by decide
  have opens : Line.classify 1 "csv t = a," =
      .opener .csv false ⟨"csv", 1, 0, 3⟩ ⟨"t = a,", 1, 4, 10⟩ := by decide
  have declares : Block.Declaration "t = a,".toList "t".toList " a,".toList :=
    declaration_iff.mpr (by decide)
  have wrapped : Table.Wrapped (headerLines " a,".toList ["", " \"x,y\",", "c"]) :=
    ⟨["a,".toList, [], "\"x,y\",".toList], ['c'], by decide, by decide, by decide, by decide⟩
  have body : ∀ line ∈ Line.classifyFrom 2 (["", " \"x,y\",", "c"] ++ ["1,2,3", ""] ++ ["\t1,2"]),
      line.closes .csv = false := by decide
  obtain ⟨columns, found, no, three, -, two, seven, -, reported⟩ :=
    row_reports seriesEnvironment ["endcsv"] outside opens declares body wrapped
  obtain rfl : columns = 3 := three.trans (by decide)
  obtain rfl : found = 2 := two.trans (by decide)
  obtain rfl : no = 7 := seven
  exact ⟨outside, wrapped, reported.trans (by decide)⟩

end ChartLint
