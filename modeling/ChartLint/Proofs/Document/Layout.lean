import ChartLint.Document.Lines
import ChartLint.Proofs.Document.Comment
import ChartLint.Proofs.Span

/-!
# No character moves

The lines that are checked differ from the lines as they are written, but only in what they show
in the place of each character. The text is followed with its marks: `rows` are the lines of marked
characters, and both kinds of lines come from them, character by character.
-/

namespace ChartLint

namespace Text

theorem splitOn_eq (sep : Char) (cs : List Char) : splitOn sep cs = cs.splitOn sep := by
  induction cs with
  | nil => rfl
  | cons c cs ih =>
      rw [splitOn, ih, List.splitOn_cons_eq_if_modifyHead]
      by_cases here : c = sep
      · simp [here]
      · cases pieces : cs.splitOn sep with
        | nil => exact absurd pieces (List.splitOn_ne_nil _ _)
        | cons piece pieces => simp [here]

theorem length_splitOn (sep : Char) (cs : List Char) :
    (cs.splitOn sep).length = cs.count sep + 1 := by
  induction cs with
  | nil => rfl
  | cons c cs ih =>
      rw [List.splitOn_cons_eq_if_modifyHead, List.count_cons]
      split <;> simp [ih]

theorem splitOn_append {sep : α} [BEq α] [LawfulBEq α] {front : List α} (free : sep ∉ front)
    (rest : List α) :
    (front ++ rest).splitOn sep = (rest.splitOn sep).modifyHead (front ++ ·) := by
  induction front with
  | nil => cases pieces : rest.splitOn sep <;> simp [pieces]
  | cons a front ih =>
      rw [List.mem_cons, not_or] at free
      have other : (a == sep) = false := beq_false_of_ne (Ne.symm free.1)
      rw [List.cons_append, List.splitOn_cons_eq_if_modifyHead, ih free.2, other]
      simp [List.modifyHead_modifyHead, Function.comp_def]

theorem splitOn_flatMap [BEq α] [LawfulBEq α] [BEq β] [LawfulBEq β] {f : α → List β} {a : α} {b : β}
    (kept : f a = [b]) {xs : List α} (inside : ∀ x ∈ xs, x ≠ a → b ∉ f x) :
    (xs.flatMap f).splitOn b = (xs.splitOn a).map (List.flatMap f) := by
  induction xs with
  | nil => rfl
  | cons x xs ih =>
      have rest := ih fun y member => inside y (List.mem_cons_of_mem _ member)
      rw [List.flatMap_cons, List.splitOn_cons_eq_if_modifyHead]
      by_cases here : x = a
      · rw [here, kept, List.singleton_append, List.splitOn_cons_eq_if_modifyHead, rest]
        simp
      · rw [splitOn_append (inside x (by simp) here), rest]
        cases xs.splitOn a <;> simp [here]

theorem intercalate_eq_append (sep : α) (above : List (List α)) (piece : List α)
    (below : List (List α)) :
    ∃ rest, [sep].intercalate (above ++ piece :: below) =
      above.flatMap (· ++ [sep]) ++ (piece ++ rest) := by
  induction above with
  | nil =>
      cases below with
      | nil => exact ⟨[], by simp⟩
      | cons next below =>
          exact ⟨sep :: [sep].intercalate (next :: below), by
            rw [List.nil_append, List.intercalate_cons_cons]
            simp⟩
  | cons first above ih =>
      obtain ⟨rest, whole⟩ := ih
      refine ⟨rest, ?_⟩
      rw [List.cons_append, List.intercalate_cons_of_ne_nil (by simp), whole]
      simp

theorem eq_append_of_splitOn [BEq α] [LawfulBEq α] {sep : α} {xs piece : List α} {no : Nat}
    (found : (xs.splitOn sep)[no]? = some piece) :
    ∃ above rest, xs = above ++ (piece ++ rest) ∧
      above = ((xs.splitOn sep).take no).flatMap (· ++ [sep]) := by
  obtain ⟨bound, here⟩ := List.getElem?_eq_some_iff.mp found
  have pieces : (xs.splitOn sep).take no ++ piece :: (xs.splitOn sep).drop (no + 1) =
      xs.splitOn sep := by
    rw [← here, List.getElem_cons_drop, List.take_append_drop]
  obtain ⟨rest, whole⟩ := intercalate_eq_append sep ((xs.splitOn sep).take no) piece
    ((xs.splitOn sep).drop (no + 1))
  rw [pieces, List.intercalate_splitOn] at whole
  exact ⟨_, rest, whole, rfl⟩

theorem byteLength_spaces (n : Nat) : byteLength (List.replicate n ' ') = n := by
  induction n with
  | zero => rfl
  | succ n ih =>
      rw [List.replicate_succ, byteLength_cons, ih, Nat.add_comm]
      rfl

theorem utf8Size_toLower (c : Char) : c.toLower.utf8Size = c.utf8Size := by
  delta Char.toLower
  split
  · rename_i upper
    have one : c.utf8Size = 1 := Char.utf8Size_eq_one_iff.mpr (by grind)
    rw [one, Char.utf8Size_eq_one_iff]
    grind
  · rfl

end Text

namespace Comment

theorem Mode.hides_newline (m : Mode) (next : Option Char) : m.hides '\n' next = false := by
  cases m <;> simp [Mode.hides]

theorem fst_marks (m : Mode) (cs : List Char) : (marks m cs).map Prod.fst = cs := by
  induction cs generalizing m with
  | nil => rfl
  | cons c cs ih => rw [marks, List.map_cons, ih]

theorem newline_of_mem_marks {m : Mode} {cs : List Char} {inComment : Bool}
    (member : ('\n', inComment) ∈ marks m cs) : inComment = false := by
  induction cs generalizing m with
  | nil => simp [marks] at member
  | cons c cs ih =>
      rw [marks, List.mem_cons] at member
      rcases member with here | later
      · obtain ⟨rfl, rfl⟩ := Prod.mk.inj here
        exact Mode.hides_newline _ _
      · exact ih later

theorem shown_ne_nil (mark : Char × Bool) : shown mark ≠ [] := by
  have width : mark.1.utf8Size ≠ 0 := Nat.ne_of_gt mark.1.utf8Size_pos
  rw [shown, blanks]
  split
  · split <;> simp [width]
  · simp

theorem eq_or_space_of_mem_shown {mark : Char × Bool} {c : Char} (member : c ∈ shown mark) :
    c = mark.1 ∨ c = ' ' := by
  rw [shown, blanks] at member
  split at member
  · split at member
    · exact .inl (List.mem_singleton.mp member)
    · exact .inr (List.eq_of_mem_replicate member)
  · exact .inl (List.mem_singleton.mp member)

/-- What stands in a normalized line for a character: the character in lower case or, in a comment,
as many spaces as it has bytes. Tabs and returns stay. -/
inductive Shows : Char × Bool → List Char → Prop where
  | code (c : Char) : Shows (c, false) [c.toLower]
  | kept {c : Char} (layout : c = '\t' ∨ c = '\r') : Shows (c, true) [c]
  | blanked {c : Char} (other : ¬ (c = '\t' ∨ c = '\r')) :
      Shows (c, true) (List.replicate c.utf8Size ' ')

theorem shows_shown (mark : Char × Bool) : Shows mark (Text.lower (shown mark)) := by
  obtain ⟨c, inComment⟩ := mark
  cases inComment with
  | false => exact .code c
  | true =>
      by_cases layout : c = '\t' ∨ c = '\r'
      · have same : Text.lower (shown (c, true)) = [c] := by
          rcases layout with rfl | rfl <;> rfl
        exact same ▸ .kept layout
      · have same : Text.lower (shown (c, true)) = List.replicate c.utf8Size ' ' := by
          rw [shown, if_pos rfl, blanks, if_neg fun h => layout h.symm, Text.lower,
            List.map_replicate]
          rfl
        exact same ▸ .blanked layout

theorem Shows.byteLength {mark : Char × Bool} {image : List Char} (shows_ : Shows mark image) :
    Text.byteLength image = mark.1.utf8Size := by
  cases shows_ with
  | code c => simp [Text.utf8Size_toLower]
  | kept => simp
  | @blanked c => exact Text.byteLength_spaces _

theorem Shows.eq_singleton {mark : Char × Bool} {image : List Char} {c : Char}
    (shows_ : Shows mark image) (member : c ∈ image) (visible : Text.isBlank c = false) :
    image = [c] := by
  cases shows_ with
  | code => rw [List.mem_singleton.mp member]
  | kept => rw [List.mem_singleton.mp member]
  | blanked =>
      rw [List.eq_of_mem_replicate member] at visible
      exact absurd visible (by decide)

end Comment

namespace Document

def rawLines (text : String) : List String :=
  ((text.toList.splitOn '\n').map dropReturn).map String.ofList

def lineStart (text : String) (no : Nat) : Nat :=
  (((text.toList.splitOn '\n').take no).flatMap (· ++ ['\n'])).length

def dropMarkedReturn (row : List (Char × Bool)) : List (Char × Bool) :=
  if (row.map Prod.fst).getLast? = some '\r' then row.dropLast else row

def rows (text : String) : List (List (Char × Bool)) :=
  ((Comment.marks .start text.toList).splitOn ('\n', false)).map dropMarkedReturn

def normalized (row : List (Char × Bool)) : List Char :=
  row.flatMap fun mark => Text.lower (Comment.shown mark)

/-- What is put in the place of characters keeps the ends of lines: neither a line break nor a
carriage return at the end of a line comes or goes. -/
structure KeepsLineEnds (f : Char × Bool → List Char) : Prop where
  newline : f ('\n', false) = ['\n']
  inner : ∀ mark, mark.1 ≠ '\n' → '\n' ∉ f mark
  carriageReturn : ∀ mark, mark.1 = '\r' → f mark = ['\r']
  last : ∀ mark, mark.1 ≠ '\r' → ∃ front c, f mark = front ++ [c] ∧ c ≠ '\r'

theorem dropReturn_append (front : List Char) (c : Char) :
    dropReturn (front ++ [c]) = if c = '\r' then front else front ++ [c] := by
  by_cases ends : c = '\r' <;> simp [dropReturn, Text.dropLast?, ends]

theorem dropMarkedReturn_append (front : List (Char × Bool)) (mark : Char × Bool) :
    dropMarkedReturn (front ++ [mark]) = if mark.1 = '\r' then front else front ++ [mark] := by
  by_cases ends : mark.1 = '\r' <;> simp [dropMarkedReturn, ends]

theorem exists_dropMarkedReturn (row : List (Char × Bool)) :
    ∃ ending, row = dropMarkedReturn row ++ ending := by
  rcases List.eq_nil_or_concat' row with rfl | ⟨front, mark, rfl⟩
  · exact ⟨[], rfl⟩
  · rw [dropMarkedReturn_append]
    split
    · exact ⟨[mark], rfl⟩
    · exact ⟨[], by simp⟩

theorem KeepsLineEnds.dropReturn {f : Char × Bool → List Char} (keeps : KeepsLineEnds f)
    (row : List (Char × Bool)) :
    dropReturn (row.flatMap f) = (dropMarkedReturn row).flatMap f := by
  rcases List.eq_nil_or_concat' row with rfl | ⟨front, mark, rfl⟩
  · rfl
  · rw [List.flatMap_append, List.flatMap_singleton, dropMarkedReturn_append]
    by_cases ends : mark.1 = '\r'
    · rw [keeps.carriageReturn mark ends, dropReturn_append, if_pos rfl, if_pos ends]
    · obtain ⟨inner, c, image, other⟩ := keeps.last mark ends
      rw [image, ← List.append_assoc, dropReturn_append, if_neg other, if_neg ends,
        List.flatMap_append, List.flatMap_singleton, image, List.append_assoc]

theorem KeepsLineEnds.splitOn {f : Char × Bool → List Char} (keeps : KeepsLineEnds f)
    (text : List Char) :
    ((Comment.marks .start text).flatMap f).splitOn '\n' =
      ((Comment.marks .start text).splitOn ('\n', false)).map (List.flatMap f) := by
  refine Text.splitOn_flatMap keeps.newline ?_
  rintro ⟨c, inComment⟩ member other
  refine keeps.inner _ ?_
  rintro rfl
  exact other (by rw [Comment.newline_of_mem_marks member])

theorem KeepsLineEnds.lines {f : Char × Bool → List Char} (keeps : KeepsLineEnds f)
    (text : String) :
    (((Comment.marks .start text.toList).flatMap f).splitOn '\n').map Document.dropReturn =
      (rows text).map (List.flatMap f) := by
  rw [keeps.splitOn, rows, List.map_map, List.map_map]
  exact List.map_congr_left fun row _ => keeps.dropReturn row

theorem keepsLineEnds_fst : KeepsLineEnds fun mark => [mark.1] where
  newline := rfl
  inner mark other := by simpa using Ne.symm other
  carriageReturn mark same := by rw [same]
  last mark other := ⟨[], mark.1, rfl, other⟩

theorem keepsLineEnds_shown : KeepsLineEnds Comment.shown where
  newline := rfl
  inner mark other := by
    intro member
    rcases Comment.eq_or_space_of_mem_shown member with same | space
    · exact other same.symm
    · exact absurd space (by decide)
  carriageReturn mark same := by
    obtain ⟨c, inComment⟩ := mark
    obtain rfl : c = '\r' := same
    cases inComment <;> rfl
  last mark other := by
    obtain ⟨front, c, image⟩ := (List.eq_nil_or_concat' _).resolve_left (Comment.shown_ne_nil mark)
    refine ⟨front, c, image, ?_⟩
    rintro rfl
    have member : '\r' ∈ Comment.shown mark := by simp [image]
    rcases Comment.eq_or_space_of_mem_shown member with same | space
    · exact other same.symm
    · exact absurd space (by decide)

/-! ## Both kinds of lines from the rows -/

theorem rawLines_eq (text : String) :
    rawLines text = (rows text).map fun row => String.ofList (row.map Prod.fst) := by
  have cut := keepsLineEnds_fst.lines text
  rw [← List.map_eq_flatMap, Comment.fst_marks] at cut
  rw [rawLines, cut, List.map_map]
  exact List.map_congr_left fun row _ => by rw [Function.comp, ← List.map_eq_flatMap]

theorem lines_eq (text : String) :
    lines text = (rows text).map fun row => String.ofList (normalized row) := by
  have cut := keepsLineEnds_shown.lines text
  rw [← Comment.blank_eq_marks, ← Text.splitOn_eq] at cut
  have lowered : charLines text.toList =
      ((rows text).map (List.flatMap Comment.shown)).map Text.lower := by
    rw [← cut, charLines, List.map_map]
    rfl
  rw [lines, lowered, List.map_map, List.map_map]
  exact List.map_congr_left fun row _ => by
    simp only [Function.comp, normalized, Text.lower, List.map_flatMap]

theorem normalized_cons (mark : Char × Bool) (row : List (Char × Bool)) :
    normalized (mark :: row) = Text.lower (Comment.shown mark) ++ normalized row :=
  List.flatMap_cons

theorem byteLength_normalized (row : List (Char × Bool)) :
    Text.byteLength (normalized row) = Text.byteLength (row.map Prod.fst) := by
  induction row with
  | nil => rfl
  | cons mark row ih =>
      rw [normalized_cons, Text.byteLength_append, (Comment.shows_shown mark).byteLength, ih]
      rfl

theorem lineStart_eq (text : String) (no : Nat) :
    lineStart text no =
      ((((Comment.marks .start text.toList).splitOn ('\n', false)).take no).flatMap
      (· ++ [('\n', false)])).length := by
  have cut := keepsLineEnds_fst.splitOn text.toList
  rw [← List.map_eq_flatMap, Comment.fst_marks] at cut
  rw [lineStart, cut, ← List.map_take, List.length_flatMap, List.length_flatMap, List.map_map]
  simp [Function.comp_def]

theorem marks_of_rows {text : String} {no : Nat} {before after : List (Char × Bool)}
    {mark : Char × Bool} (row : (rows text)[no]? = some (before ++ mark :: after)) :
    (Comment.marks .start text.toList)[lineStart text no + before.length]? = some mark := by
  rw [rows, List.getElem?_map] at row
  obtain ⟨line, found, same⟩ := Option.map_eq_some_iff.mp row
  obtain ⟨above, rest, whole, start⟩ := Text.eq_append_of_splitOn found
  obtain ⟨ending, split⟩ := exists_dropMarkedReturn line
  rw [lineStart_eq, ← start, whole, split, same]
  simp

theorem exists_mark_of_normalized {row : List (Char × Bool)} {before after : List Char} {c : Char}
    (shown : normalized row = before ++ c :: after) (visible : Text.isBlank c = false) :
    ∃ front mark back, row = front ++ mark :: back ∧ normalized front = before ∧
      Text.lower (Comment.shown mark) = [c] := by
  induction row generalizing before with
  | nil => simp [normalized] at shown
  | cons mark row ih =>
      have later (rest : List Char) (split : normalized row = rest ++ c :: after) :
          ∃ front mark' back, mark :: row = front ++ mark' :: back ∧
            normalized front = Text.lower (Comment.shown mark) ++ rest ∧
            Text.lower (Comment.shown mark') = [c] := by
        obtain ⟨front, mark', back, rfl, same, image⟩ := ih split
        exact ⟨mark :: front, mark', back, rfl, by rw [normalized_cons, same], image⟩
      rw [normalized_cons, List.append_eq_append_iff] at shown
      rcases shown with ⟨rest, rfl, split⟩ | ⟨tail, image, split⟩
      · exact later rest split
      · cases tail with
        | nil =>
            rw [List.append_nil] at image
            rw [List.nil_append] at split
            rw [← image]
            simpa using later [] split.symm
        | cons d tail =>
            obtain rfl : c = d := (List.cons.inj split).1
            -- a visible character is all that is shown in its place
            have single :=
                (Comment.shows_shown mark).eq_singleton (c := c) (by simp [image]) visible
            have front : before = [] := by
              rw [single] at image
              cases before with
              | nil => rfl
              | cons e before => simp at image
            exact ⟨[], mark, row, rfl, by rw [front]; rfl, single⟩

/-- Normalizing keeps the layout. There is one line more than line breaks. A normalized line is as
long in UTF-8 as the line that is written, and at the column of each character it shows that
character in lower case or, if and only if the character is part of a comment, blanks of its
width. -/
theorem lines_layout (text : String) :
    (lines text).length = text.toList.count '\n' + 1 ∧
    (rawLines text).length = (lines text).length ∧
    ∃ marks, Comment.Marked true marks ∧ marks.map Prod.fst = text.toList ∧
      ∀ (no : Nat) (raw line : String), (rawLines text)[no]? = some raw →
        (lines text)[no]? = some line →
        line.utf8ByteSize = raw.utf8ByteSize ∧
        ∀ (before : List Char) (c : Char) (after : List Char), raw.toList = before ++ c :: after →
          ∃ left image right inComment, line.toList = left ++ image ++ right ∧
            Text.byteLength left = Text.byteLength before ∧
            marks[lineStart text no + before.length]? = some (c, inComment) ∧
            Comment.Shows (c, inComment) image := by
  obtain ⟨marks, marked, whole⟩ := Comment.exists_marked true text.toList
  have scanned : Comment.marks .start text.toList = marks := by
    rw [← whole]
    exact Comment.marks_of_marked marked
  have lengths : (rawLines text).length = (lines text).length := by
    rw [rawLines_eq, lines_eq, List.length_map, List.length_map]
  refine ⟨?_, lengths, marks, marked, whole, ?_⟩
  · rw [← lengths, rawLines, List.length_map, List.length_map, Text.length_splitOn]
  intro no raw line rawAt lineAt
  rw [rawLines_eq, List.getElem?_map] at rawAt
  rw [lines_eq, List.getElem?_map] at lineAt
  obtain ⟨row, found, rfl⟩ := Option.map_eq_some_iff.mp rawAt
  rw [found, Option.map_some, Option.some.injEq] at lineAt
  subst lineAt
  refine ⟨?_, ?_⟩
  · rw [Text.utf8ByteSize_ofList, Text.utf8ByteSize_ofList, byteLength_normalized]
  · intro before c after split
    rw [String.toList_ofList] at split
    obtain ⟨front, _, rfl, rfl, tail⟩ := List.map_eq_append_iff.mp split
    obtain ⟨⟨_, inComment⟩, back, rfl, rfl, rfl⟩ := List.map_eq_cons_iff.mp tail
    refine ⟨normalized front, _, normalized back, inComment, ?_, byteLength_normalized front, ?_,
      Comment.shows_shown _⟩
    · rw [String.toList_ofList, normalized, List.flatMap_append, List.flatMap_cons,
        List.append_assoc]
      rfl
    · rw [← scanned, List.length_map]
      exact marks_of_rows found

theorem lines_layout_comment_over_lines :
    (lines "N/*é\r\n\t*/ # Y").length = 2 ∧
    (rawLines "N/*é\r\n\t*/ # Y")[0]? = some "N/*é" ∧
    (lines "N/*é\r\n\t*/ # Y")[0]? = some "n    " ∧
    ∃ marks, Comment.Marked true marks ∧ marks.map Prod.fst = "N/*é\r\n\t*/ # Y".toList ∧
      ∃ left image right inComment, "n    ".toList = left ++ image ++ right ∧
        Text.byteLength left = 3 ∧ marks[3]? = some ('é', inComment) ∧
        Comment.Shows ('é', inComment) image := by
  obtain ⟨count, -, marks, marked, whole, each⟩ := lines_layout "N/*é\r\n\t*/ # Y"
  have raw : (rawLines "N/*é\r\n\t*/ # Y")[0]? = some "N/*é" := by decide
  have line : (lines "N/*é\r\n\t*/ # Y")[0]? = some "n    " := by decide
  refine ⟨count.trans (by decide), raw, line, marks, marked, whole, ?_⟩
  exact (each 0 _ _ raw line).2 ['N', '/', '*'] 'é' [] (by decide)

end Document

end ChartLint
