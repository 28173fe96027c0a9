import ChartLint.Proofs.Document.Layout
import ChartLint.Proofs.Text.Case
import ChartLint.Time.Zone.Name
import ChartLint.Validation

/-!
# Letter case and line endings

Comments are found in a text as it is written, before its letters are lowered and before carriage
returns are dropped. Still neither makes a difference. The scan for comments goes on in the same
mode after a capital and after the small letter (`Comment.blank_lower`). A return in front of a line
break may change the mode, but after the line break it is the one that there would be without the
return (`Comment.blank_returned`).
-/

namespace ChartLint

namespace Text

def returned (cs : List Char) : List Char :=
  cs.flatMap fun c => if c = '\n' then ['\r', '\n'] else [c]

theorem returned_append (as bs : List Char) : returned (as ++ bs) = returned as ++ returned bs :=
  List.flatMap_append

theorem returned_of_free {cs : List Char} (free : '\n' ∉ cs) : returned cs = cs := by
  induction cs with
  | nil => rfl
  | cons c cs ih =>
      rw [List.mem_cons, not_or] at free
      have tail := ih free.2
      rw [returned] at tail
      rw [returned, List.flatMap_cons, if_neg (Ne.symm free.1), tail]
      rfl

theorem returned_cons {c : Char} (inLine : c ≠ '\n') (cs : List Char) :
    returned (c :: cs) = c :: returned cs := by
  rw [returned, List.flatMap_cons, if_neg inLine]
  rfl

theorem splitOn_lower (cs : List Char) : splitOn '\n' (lower cs) = (splitOn '\n' cs).map lower := by
  induction cs with
  | nil => rfl
  | cons c cs ih =>
      have lowered : lower (c :: cs) = c.toLower :: lower cs := rfl
      rw [lowered, splitOn, splitOn, ih]
      simp only [(by decide : IsSign '\n').toLower_eq_iff]
      split
      · rfl
      · cases splitOn '\n' cs <;> rfl

end Text

namespace Comment

/-! ## Letter case -/

theorem map_toLower_beq {sign : Char} (is : Text.IsSign sign) (next : Option Char) :
    (next.map Char.toLower == some sign) = (next == some sign) := by
  cases next with
  | none => rfl
  | some c => exact is.toLower_beq c

theorem Mode.hides_toLower (m : Mode) (c : Char) (next : Option Char) :
    m.hides c.toLower (next.map Char.toLower) = m.hides c next := by
  have slash := (by decide : Text.IsSign '/').toLower_beq c
  have hash := (by decide : Text.IsSign '#').toLower_beq c
  have newline := (by decide : Text.IsSign '\n').toLower_beq c
  cases m with
  | code fresh => rw [hides, hides, slash, hash, map_toLower_beq (by decide)]
  | _ => simp only [hides, bne, newline]

theorem Mode.after_toLower (m : Mode) (c : Char) (next : Option Char) :
    m.after c.toLower (next.map Char.toLower) = m.after c next := by
  have slash := (by decide : Text.IsSign '/').toLower_beq c
  have star := (by decide : Text.IsSign '*').toLower_beq c
  have hash := (by decide : Text.IsSign '#').toLower_beq c
  have newline := (by decide : Text.IsSign '\n').toLower_eq_iff c
  simp only [after, newline, slash, star, hash, map_toLower_beq (by decide : Text.IsSign '*'),
    map_toLower_beq (by decide : Text.IsSign '/'), Text.isBlank_toLower]

theorem lower_blanks (c : Char) : Text.lower (blanks c) = blanks c.toLower := by
  have returned := (by decide : Text.IsSign '\r').toLower_eq_iff c
  have tab := (by decide : Text.IsSign '\t').toLower_eq_iff c
  simp only [blanks, returned, tab, Text.utf8Size_toLower]
  split
  · rfl
  · rw [Text.lower, List.map_replicate]
    rfl

theorem blank_lower (m : Mode) (cs : List Char) :
    blank m (Text.lower cs) = Text.lower (blank m cs) := by
  induction cs generalizing m with
  | nil => rfl
  | cons c cs ih =>
      have lowered : Text.lower (c :: cs) = c.toLower :: Text.lower cs := rfl
      have next : (Text.lower cs).head? = cs.head?.map Char.toLower := List.head?_map
      rw [lowered, blank, blank, next, m.hides_toLower, m.after_toLower, ih, Text.lower_append]
      split
      · rw [lower_blanks]
      · rfl

/-! ## Line endings -/

def Mode.Awaits (m : Mode) (cs : List Char) : Prop :=
  m = .opening → cs.head? = some '*'

theorem Mode.awaits_after (m : Mode) (c : Char) (cs : List Char) :
    (m.after c cs.head?).Awaits cs := by
  intro opening
  unfold after at opening
  split at opening
  · cases m <;> cases opening
  · cases m with
    | code fresh =>
        dsimp only at opening
        split at opening
        · rename_i starts
          simp only [Bool.and_eq_true, beq_iff_eq] at starts
          exact starts.2
        · split at opening <;> cases opening
    | block fresh =>
        dsimp only at opening
        split at opening <;> cases opening
    | _ => cases opening

theorem Mode.nextLine_after_return {m : Mode} (inside : m ≠ .opening) (next : Option Char) :
    (m.after '\r' next).nextLine = m.nextLine := by
  cases m with
  | opening => exact absurd rfl inside
  | code fresh => simp [after, nextLine]
  | _ => rfl

theorem head?_returned_beq {sign : Char} (other : sign ≠ '\r' ∧ sign ≠ '\n') (cs : List Char) :
    ((Text.returned cs).head? == some sign) = (cs.head? == some sign) := by
  cases cs with
  | nil => rfl
  | cons c cs =>
      by_cases newline : c = '\n'
      · subst newline
        have return_ : (some '\r' == some sign) = false := by simpa using Ne.symm other.1
        have break_ : (some '\n' == some sign) = false := by simpa using Ne.symm other.2
        exact return_.trans break_.symm
      · rw [Text.returned_cons newline]
        rfl

theorem blank_returned {m : Mode} {cs : List Char} (awaits : m.Awaits cs) :
    blank m (Text.returned cs) = Text.returned (blank m cs) := by
  induction cs generalizing m with
  | nil => rfl
  | cons c cs ih =>
      have rest := ih (m.awaits_after c cs)
      by_cases newline : c = '\n'
      · subst newline
        have inside : m ≠ .opening := fun opening => by cases awaits opening
        have next : (m.after '\r' (some '\n')).after '\n' (Text.returned cs).head? =
            m.after '\n' cs.head? := Mode.nextLine_after_return inside _
        have shown_ : (if m.hides '\r' (some '\n') then blanks '\r' else ['\r']) = ['\r'] := by
          split <;> rfl
        show blank m ('\r' :: '\n' :: Text.returned cs) = _
        rw [blank, blank, blank, List.head?_cons, next, rest, shown_, Mode.hides_newline,
          Mode.hides_newline, Text.returned_append]
        rfl
      · have hidden_ : m.hides c (Text.returned cs).head? = m.hides c cs.head? := by
          cases m <;> simp only [Mode.hides,
            head?_returned_beq (by decide : '*' ≠ '\r' ∧ '*' ≠ '\n')]
        have next : m.after c (Text.returned cs).head? = m.after c cs.head? := by
          simp only [Mode.after, head?_returned_beq (by decide : '*' ≠ '\r' ∧ '*' ≠ '\n'),
            head?_returned_beq (by decide : '/' ≠ '\r' ∧ '/' ≠ '\n')]
        have inLine : '\n' ∉ shown (c, m.hides c cs.head?) :=
          Document.keepsLineEnds_shown.inner _ newline
        rw [Text.returned_cons newline, blank, blank, hidden_, next, rest, Text.returned_append]
        rw [← shown, Text.returned_of_free inLine]

end Comment

namespace Document

theorem dropReturn_cons {c : Char} (other : c ≠ '\r') (cs : List Char) :
    dropReturn (c :: cs) = c :: dropReturn cs := by
  rcases List.eq_nil_or_concat' cs with rfl | ⟨front, last, rfl⟩
  · simp [dropReturn, Text.dropLast?, other]
  · rw [← List.cons_append, dropReturn_append, dropReturn_append]
    split <;> rfl

theorem dropReturn_of_free {cs : List Char} (free : '\r' ∉ cs) : dropReturn cs = cs := by
  induction cs with
  | nil => rfl
  | cons c cs ih =>
      rw [List.mem_cons, not_or] at free
      rw [dropReturn_cons (Ne.symm free.1), ih free.2]

theorem splitOn_returned {cs : List Char} (free : '\r' ∉ cs) :
    (Text.splitOn '\n' (Text.returned cs)).map dropReturn = Text.splitOn '\n' cs := by
  induction cs with
  | nil => rfl
  | cons c cs ih =>
      rw [List.mem_cons, not_or] at free
      have rest := ih free.2
      by_cases newline : c = '\n'
      · subst newline
        have cut : Text.splitOn '\n' ('\r' :: '\n' :: Text.returned cs) =
            ['\r'] :: Text.splitOn '\n' (Text.returned cs) := by
          simp [Text.splitOn]
        show (Text.splitOn '\n' ('\r' :: '\n' :: Text.returned cs)).map dropReturn = _
        rw [cut, List.map_cons, rest, Text.splitOn, if_pos rfl]
        rfl
      · rw [Text.returned_cons newline, Text.splitOn, Text.splitOn, if_neg newline, if_neg newline,
          ← rest]
        cases Text.splitOn '\n' (Text.returned cs) with
        | nil => exact congrArg (· :: []) (dropReturn_cons (Ne.symm free.1) [])
        | cons piece pieces =>
            exact congrArg (· :: pieces.map dropReturn) (dropReturn_cons (Ne.symm free.1) piece)

theorem dropReturn_lower (cs : List Char) :
    dropReturn (Text.lower cs) = Text.lower (dropReturn cs) := by
  rcases List.eq_nil_or_concat' cs with rfl | ⟨front, last, rfl⟩
  · rfl
  · have return_ := (by decide : Text.IsSign '\r').toLower_eq_iff last
    have lowered : Text.lower (front ++ [last]) = Text.lower front ++ [last.toLower] :=
      Text.lower_append front [last]
    rw [lowered, dropReturn_append, dropReturn_append]
    simp only [return_]
    split
    · rfl
    · exact lowered.symm

theorem charLines_lower (cs : List Char) : charLines (Text.lower cs) = charLines cs := by
  rw [charLines, charLines, Comment.blank_lower, Text.splitOn_lower, List.map_map]
  apply List.map_congr_left
  intro line _
  rw [Function.comp, dropReturn_lower, Text.lower_lower]

theorem not_mem_blank {c : Char} (other : c ≠ ' ') (m : Comment.Mode) {cs : List Char}
    (free : c ∉ cs) : c ∉ Comment.blank m cs := by
  rw [Comment.blank_eq_marks]
  intro member
  obtain ⟨mark, marked, shown_⟩ := List.mem_flatMap.mp member
  rcases Comment.eq_or_space_of_mem_shown shown_ with same | space
  · rw [← Comment.fst_marks m cs] at free
    exact free (same ▸ List.mem_map_of_mem marked)
  · exact other space

theorem map_dropReturn_splitOn {cs : List Char} (free : '\r' ∉ cs) :
    (Text.splitOn '\n' cs).map dropReturn = Text.splitOn '\n' cs := by
  rw [Text.splitOn_eq]
  conv => rhs; rw [← List.map_id (cs.splitOn '\n')]
  apply List.map_congr_left
  intro piece member
  obtain ⟨no, found⟩ := List.getElem?_of_mem member
  obtain ⟨above, rest, whole, -⟩ := Text.eq_append_of_splitOn found
  apply dropReturn_of_free
  intro inside
  exact free (by rw [whole]; simp [inside])

theorem charLines_returned {cs : List Char} (free : '\r' ∉ cs) :
    charLines (Text.returned cs) = charLines cs := by
  have awaits : Comment.Mode.start.Awaits cs := fun opening => by cases opening
  have left : '\r' ∉ Comment.blank .start cs := not_mem_blank (by decide) _ free
  have lowered (pieces : List (List Char)) :
      (pieces.map fun line => Text.lower (dropReturn line)) =
        (pieces.map dropReturn).map Text.lower := by
    rw [List.map_map]
    rfl
  rw [charLines, charLines, lowered, lowered, Comment.blank_returned awaits, splitOn_returned left,
    map_dropReturn_splitOn left]

end Document

/-- A text without carriage returns has the same lines, and is reported on alike, if any of its
letters change their case and also if its lines end with a carriage return then. -/
theorem validate_spelling (catalog : Catalog) (options : Options) (present : WallClock)
    {text other : String} (free : '\r' ∉ text.toList)
    (same : Text.lower other.toList = Text.lower text.toList) :
    (Document.lines other = Document.lines text ∧
      Document.lines (String.ofList (Text.returned other.toList)) = Document.lines text) ∧
    validate catalog options present other = validate catalog options present text ∧
    validate catalog options present (String.ofList (Text.returned other.toList)) =
      validate catalog options present text := by
  have lines : Document.lines other = Document.lines text := by
    rw [Document.lines, ← Document.charLines_lower, same, Document.charLines_lower]
    rfl
  have left : '\r' ∉ other.toList := by
    intro member
    have lowered : '\r' ∈ Text.lower other.toList := List.mem_map_of_mem member
    rw [same] at lowered
    obtain ⟨c, inside, lowers⟩ := List.mem_map.mp lowered
    rw [(by decide : Text.IsSign '\r').toLower_eq_iff] at lowers
    exact free (lowers ▸ inside)
  have returned : Document.lines (String.ofList (Text.returned other.toList)) =
      Document.lines text := by
    rw [← lines, Document.lines, String.toList_ofList, Document.charLines_returned left]
    rfl
  refine ⟨⟨lines, returned⟩, ?_, ?_⟩
  · rw [validate, lines]
    rfl
  · rw [validate, returned]
    rfl

/-- Line endings within comments and between the signs of one. -/
theorem validate_spelling_comments :
    validate {} {} ⟨0, by decide, by decide⟩
        "[WIDGET] /\r\n* /* A\r\n*\r\n/ */ # b\r\n # C\r\nType = É" =
      validate {} {} ⟨0, by decide, by decide⟩
        "[widget] /\n* /* a\n*\n/ */ # B\n # c\ntype = É" :=
  (@validate_spelling {} {} ⟨0, by decide, by decide⟩
    "[widget] /\n* /* a\n*\n/ */ # B\n # c\ntype = É"
    "[WIDGET] /\n* /* A\n*\n/ */ # b\n # C\nType = É" (by decide) (by decide)).2.2

end ChartLint
