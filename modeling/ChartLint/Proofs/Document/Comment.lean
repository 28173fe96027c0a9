import ChartLint.Document.Comment
import Mathlib.Data.List.Infix

/-!
# What is a comment

`Comment.Marked` says which characters of a text belong to comments, comment by comment. Each text
has one such marking, and it is what the scan hides:

* `exists_marked`: each text has a marking.
* `marks_of_marked`: the scan gives each marking, so that there is only one.
-/

namespace ChartLint.Comment

def hidden (cs : List Char) : List (Char × Bool) :=
  cs.map fun c => (c, c != '\n')

/-- A text in which the characters of comments are marked. `fresh` says whether the line has shown
nothing so far but blanks and the rest of a block comment from a line before.

A block comment ends at the first `*/` after its start or goes on to the end of the text, a `#` that
comes first in its line makes a comment of the rest of the line, and all else is code. -/
inductive Marked : Bool → List (Char × Bool) → Prop where
  | done {fresh : Bool} : Marked fresh []
  | lineBreak {fresh : Bool} {rest : List (Char × Bool)} (marked : Marked true rest) :
      Marked fresh (('\n', false) :: rest)
  | code {fresh : Bool} {c : Char} {rest : List (Char × Bool)} (inLine : c ≠ '\n')
      (noBlock : ¬ (c = '/' ∧ (rest.map Prod.fst).head? = some '*'))
      (noNote : ¬ (fresh = true ∧ c = '#')) (marked : Marked (fresh && Text.isBlank c) rest) :
      Marked fresh ((c, false) :: rest)
  | note {body : List Char} {rest : List (Char × Bool)} (inLine : '\n' ∉ body)
      (ends : ∀ c ∈ (rest.map Prod.fst).head?, c = '\n') (marked : Marked true rest) :
      Marked true (hidden ('#' :: body) ++ rest)
  | block {fresh : Bool} {body : List Char} {rest : List (Char × Bool)}
      (first : ¬ ['*', '/'] <:+: body) (marked : Marked (decide ('\n' ∈ body)) rest) :
      Marked fresh (hidden ('/' :: '*' :: (body ++ ['*', '/'])) ++ rest)
  | unclosed {fresh : Bool} {body : List Char} (goesOn : ¬ ['*', '/'] <:+: body) :
      Marked fresh (hidden ('/' :: '*' :: body))

@[simp] theorem fst_hidden (cs : List Char) : (hidden cs).map Prod.fst = cs := by
  simp [hidden, Function.comp_def]

/-! ## Each text has a marking -/

theorem find_end (cs : List Char) :
    (∃ body rest, cs = body ++ '*' :: '/' :: rest ∧ ¬ ['*', '/'] <:+: body) ∨
      ¬ ['*', '/'] <:+: cs := by
  induction cs with
  | nil => exact .inr (by simp)
  | cons c cs ih =>
      by_cases here : ['*', '/'] <+: c :: cs
      · obtain ⟨rest, whole⟩ := here
        exact .inl ⟨[], rest, by simpa using whole.symm, by simp⟩
      · rcases ih with ⟨body, rest, rfl, first⟩ | none_
        · refine .inl ⟨c :: body, rest, rfl, ?_⟩
          rw [List.infix_cons_iff]
          rintro (starts | inside)
          · exact here (starts.trans (by simp))
          · exact first inside
        · refine .inr ?_
          rw [List.infix_cons_iff]
          exact not_or.mpr ⟨here, none_⟩

theorem exists_marked (fresh : Bool) (text : List Char) :
    ∃ marks, Marked fresh marks ∧ marks.map Prod.fst = text := by
  -- a comment is taken off the text as a whole, so the induction is on the length
  induction length : text.length using Nat.strong_induction_on generalizing fresh text with
  | _ n ih =>
  subst length
  cases text with
  | nil => exact ⟨[], .done, rfl⟩
  | cons c cs =>
      by_cases newline : c = '\n'
      · obtain ⟨marks, marked, rfl⟩ := ih cs.length (by simp) true cs rfl
        exact ⟨_, .lineBreak marked, by simp [newline]⟩
      by_cases note : fresh = true ∧ c = '#'
      · obtain ⟨rfl, rfl⟩ := note
        obtain ⟨marks, marked, rest⟩ := ih (cs.dropWhile (· != '\n')).length
          (Nat.lt_succ_of_le (List.dropWhile_sublist _).length_le) true _ rfl
        have inLine : '\n' ∉ cs.takeWhile (· != '\n') := by
          intro member
          simpa using List.all_eq_true.mp List.all_takeWhile _ member
        refine ⟨_, .note inLine ?_ marked, ?_⟩
        · rw [rest]
          intro c member
          have first := List.head?_dropWhile_not (· != '\n') cs
          rw [Option.mem_def.mp member] at first
          simpa using first
        · rw [List.map_append, fst_hidden, rest, List.cons_append, List.takeWhile_append_dropWhile]
      by_cases opens : c = '/' ∧ cs.head? = some '*'
      · obtain ⟨rfl, second⟩ := opens
        obtain ⟨inner, rfl⟩ := List.head?_eq_some_iff.mp second
        rcases find_end inner with ⟨body, rest, rfl, first⟩ | goesOn
        · have shorter : rest.length < ('/' :: '*' :: (body ++ '*' :: '/' :: rest)).length := by
            simp only [List.length_cons, List.length_append]
            omega
          obtain ⟨marks, marked, rfl⟩ := ih _ shorter (decide ('\n' ∈ body)) rest rfl
          exact ⟨_, .block first marked, by simp⟩
        · exact ⟨_, .unclosed goesOn, fst_hidden _⟩
      · obtain ⟨marks, marked, rfl⟩ := ih cs.length (by simp) (fresh && Text.isBlank c) cs rfl
        exact ⟨_, .code newline opens note marked, rfl⟩

/-! ## The scan marks as the grammar does -/

def marks : Mode → List Char → List (Char × Bool)
  | _, [] => []
  | m, c :: cs => (c, m.hides c cs.head?) :: marks (m.after c cs.head?) cs

def shown : Char × Bool → List Char
  | (c, inComment) => if inComment then blanks c else [c]

theorem blank_eq_marks (m : Mode) (cs : List Char) : blank m cs = (marks m cs).flatMap shown := by
  induction cs generalizing m with
  | nil => rfl
  | cons c cs ih => rw [blank, marks, List.flatMap_cons, ih, shown]

theorem Mode.hides_code {fresh : Bool} {c : Char} {next : Option Char}
    (noBlock : ¬ (c = '/' ∧ next = some '*')) (noNote : ¬ (fresh = true ∧ c = '#')) :
    (Mode.code fresh).hides c next = false := by
  simpa [Mode.hides] using And.intro noBlock noNote

theorem Mode.after_code {fresh : Bool} {c : Char} {next : Option Char} (inLine : c ≠ '\n')
    (noBlock : ¬ (c = '/' ∧ next = some '*')) (noNote : ¬ (fresh = true ∧ c = '#')) :
    (Mode.code fresh).after c next = .code (fresh && Text.isBlank c) := by
  simp [Mode.after, inLine, noBlock, noNote]

theorem Mode.after_block (fresh : Bool) {c : Char} {next : Option Char}
    (goesOn : ¬ (c = '*' ∧ next = some '/')) :
    (Mode.block fresh).after c next = .block (fresh || decide ('\n' = c)) := by
  by_cases newline : c = '\n'
  · simp [Mode.after, Mode.nextLine, newline]
  · simp [Mode.after, newline, Ne.symm newline, goesOn]

theorem marks_line {body : List Char} (inLine : '\n' ∉ body) (rest : List Char) :
    marks .line (body ++ rest) = hidden body ++ marks .line rest := by
  induction body with
  | nil => rfl
  | cons c body ih =>
      rw [List.mem_cons, not_or] at inLine
      have other : c ≠ '\n' := Ne.symm inLine.1
      have step : marks .line (c :: (body ++ rest)) =
          (c, c != '\n') :: marks .line (body ++ rest) := by
        simp [marks, Mode.hides, Mode.after, other]
      rw [List.cons_append, step, ih inLine.2]
      rfl

theorem marks_line_end {rest : List Char} (ends : ∀ c ∈ rest.head?, c = '\n') :
    marks .line rest = marks (.code true) rest := by
  cases rest with
  | nil => rfl
  | cons c rest =>
      obtain rfl := ends c rfl
      simp [marks, Mode.hides, Mode.after, Mode.nextLine]

theorem marks_block {body : List Char} (rest : List Char) (fresh : Bool)
    (goesOn : ¬ ['*', '/'] <:+: body)
    (noSlash : rest.head? ≠ some '/') :
    marks (.block fresh) (body ++ rest) =
      hidden body ++ marks (.block (fresh || decide ('\n' ∈ body))) rest := by
  induction body generalizing fresh with
  | nil => simp [hidden]
  | cons c body ih =>
      rw [List.infix_cons_iff, not_or] at goesOn
      have notEnd : ¬ (c = '*' ∧ (body ++ rest).head? = some '/') := by
        rintro ⟨rfl, slash⟩
        cases body with
        | nil => exact noSlash slash
        | cons d body =>
            obtain rfl : d = '/' := by simpa using slash
            exact goesOn.1 (by simp)
      rw [List.cons_append, marks, Mode.after_block fresh notEnd, ih _ goesOn.2]
      simp [hidden, Mode.hides, Bool.or_assoc]

theorem marks_opening (fresh : Bool) (inner : List Char) :
    marks (.code fresh) ('/' :: '*' :: inner) =
      ('/', true) :: ('*', true) :: marks (.block false) inner := by
  simp [marks, Mode.hides, Mode.after]

theorem marks_closing (fresh : Bool) (rest : List Char) :
    marks (.block fresh) ('*' :: '/' :: rest) =
      ('*', true) :: ('/', true) :: marks (.code fresh) rest := by
  simp [marks, Mode.hides, Mode.after]

theorem marks_of_marked {fresh : Bool} {marked : List (Char × Bool)} (rule : Marked fresh marked) :
    marks (.code fresh) (marked.map Prod.fst) = marked := by
  induction rule with
  | done => rfl
  | lineBreak _ ih => simp [marks, Mode.hides, Mode.after, Mode.nextLine, ih]
  | @code fresh c rest inLine noBlock noNote _ ih =>
      rw [List.map_cons, marks, Mode.hides_code noBlock noNote,
        Mode.after_code inLine noBlock noNote, ih]
  | @note body rest inLine ends _ ih =>
      have start : marks (.code true) ('#' :: (body ++ rest.map Prod.fst)) =
          ('#', true) :: marks .line (body ++ rest.map Prod.fst) := by
        simp [marks, Mode.hides, Mode.after]
      rw [List.map_append, fst_hidden, List.cons_append, start, marks_line inLine,
        marks_line_end ends, ih]
      rfl
  | @block fresh body rest first _ ih =>
      rw [List.map_append, fst_hidden]
      simp only [List.cons_append, List.append_assoc, List.nil_append]
      rw [marks_opening, marks_block _ false first (by simp), Bool.false_or, marks_closing, ih]
      simp [hidden]
  | @unclosed fresh body goesOn =>
      have run := marks_block [] false goesOn (by simp)
      rw [fst_hidden, marks_opening]
      simpa [hidden, marks] using run

end ChartLint.Comment
