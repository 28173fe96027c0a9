import ChartLint.Proofs.Block.Reports
import ChartLint.Proofs.Diagnostic.Firsts
import ChartLint.Proofs.Document.Layout
import ChartLint.Proofs.Validation.Reports
import ChartLint.Time.Zone.Name

/-!
# Where diagnostics point

All that is reported points at pieces of lines. Columns are counted on normalized lines, and as
nothing moves there, they are columns of the document too: `validate_within`.

The invariant is that of the reports on sections and on blocks, with one property for both: a span
stands on its line. A step brings in the spans of its line only.
-/

namespace ChartLint

variable {places : Span → Prop}

theorem Line.keeps_of_pieces {no : Nat} {text : List Char} {line : Line}
    (here : ∀ s : Span, s.OnLine no text → places s) (pieces : line.Pieces no text) :
    line.Keeps places := by
  cases line with
  | header name => exact here name pieces
  | setting name value =>
      obtain ⟨onLine, slices, solid⟩ := pieces
      exact ⟨here name onLine, fun filled => here value ⟨slices, by simpa using filled, solid⟩⟩
  | _ => trivial

namespace Pass

variable (env : Environment)

theorem step_at {p : Pass} (kept : p.Keeps places) (blocks : p.blocks.Keeps places) {no : Nat}
    {text : String} (here : ∀ s : Span, s.OnLine no text.toList → places s) :
    (p.step env no text).1.Keeps places ∧ (p.step env no text).1.blocks.Keeps places ∧
      ∀ d ∈ (p.step env no text).2, d.At places := by
  have pieces := Line.pieces_classify no text
  have blockStep := Block.Stack.step_at blocks here pieces
  unfold step
  dsimp only
  generalize p.blocks.step no text.toList (Line.classify no text) = after at blockStep ⊢
  obtain ⟨keeps, found⟩ := blockStep
  split
  · exact ⟨⟨kept.path, kept.tree, kept.pending⟩, keeps, found⟩
  · have entered : Keeps places { p with blocks := after.1 } := ⟨kept.path, kept.tree, kept.pending⟩
    have sections := sectionStep_reports env entered (Line.keeps_of_pieces here pieces)
    refine ⟨sections.1, ?_, List.forall_mem_append.mpr ⟨found, ?_⟩⟩
    · rw [blocks_sectionStep]
      exact keeps
    · exact fun d member => (sections.2 d member).at_place

theorem run_at {p : Pass} (kept : p.Keeps places) (blocks : p.blocks.Keeps places) (no : Nat)
    (lines : List String)
    (here : ∀ i text, lines[i]? = some text → ∀ s : Span, s.OnLine (no + i) text.toList →
      places s) :
    (p.run env no lines).1.Keeps places ∧ (p.run env no lines).1.blocks.Keeps places ∧
      ∀ d ∈ (p.run env no lines).2, d.At places := by
  induction lines generalizing p no with
  | nil => exact ⟨kept, blocks, by simp [run]⟩
  | cons text lines ih =>
      obtain ⟨keeps, opened, found⟩ := step_at env kept blocks (here 0 text rfl)
      have later : ∀ i text', lines[i]? = some text' →
          ∀ s : Span, s.OnLine (no + 1 + i) text'.toList → places s := by
        intro i text' at_ s onLine
        refine here (i + 1) text' (by simpa using at_) s ?_
        rwa [Nat.add_assoc, Nat.add_comm 1 i] at onLine
      obtain ⟨keeps, opened, others⟩ := ih keeps opened (no + 1) later
      exact ⟨keeps, opened, List.forall_mem_append.mpr ⟨found, others⟩⟩

theorem finish_at {p : Pass} (kept : p.Keeps places) (blocks : p.blocks.Keeps places) :
    ∀ d ∈ p.finish env, d.At places := by
  unfold finish
  dsimp only
  rw [List.forall_mem_append, List.forall_mem_append]
  refine ⟨⟨?_, Block.Stack.finish_at blocks⟩, ?_⟩
  · exact fun d member => (OpenPath.finish_reports env.catalog p.path kept.path d member).at_place
  · exact fun d member => (Rule.run_reports (keeps_flush kept).tree _ _ d member).at_place

end Pass

def Span.OnLines (lines : List String) (s : Span) : Prop :=
  ∃ text, lines[s.line]? = some text ∧ s.OnLine s.line text.toList

theorem reports_at (env : Environment) (lines : List String) :
    ∀ d ∈ reports env lines, d.At (Span.OnLines lines) := by
  have here : ∀ i text, lines[i]? = some text →
      ∀ s : Span, s.OnLine (0 + i) text.toList → s.OnLines lines := by
    intro i text at_ s onLine
    obtain rfl : s.line = i := onLine.slices.1.trans (Nat.zero_add i)
    exact ⟨text, at_, by rwa [Nat.zero_add] at onLine⟩
  obtain ⟨kept, blocks, found⟩ :=
    Pass.run_at env Pass.keeps_empty (by simp [Block.Stack.Keeps]) 0 lines here
  exact List.forall_mem_append.mpr ⟨found, Pass.finish_at env kept blocks⟩

/-! ## Columns of the document -/

theorem isValid_byteLength {line : List Char} (front back : List Char)
    (split : line = front ++ back) :
    String.Pos.Raw.IsValid (String.ofList line) ⟨Text.byteLength front⟩ := by
  rw [String.Pos.Raw.isValid_iff_exists_append]
  refine ⟨String.ofList front, String.ofList back, ?_, ?_⟩
  · rw [split, String.ofList_append]
  · rw [← Text.utf8ByteSize_ofList]
    rfl

namespace Span

theorem Slices.isValid {no : Nat} {line : List Char} {s : Span} (slices : s.Slices no line) :
    s.start ≤ s.stop ∧ String.Pos.Raw.IsValid (String.ofList line) ⟨s.start⟩ ∧
      String.Pos.Raw.IsValid (String.ofList line) ⟨s.stop⟩ := by
  obtain ⟨-, before, after, split, start, stop⟩ := slices
  rw [start, stop]
  refine ⟨?_, isValid_byteLength before (s.text.toList ++ after) (by simpa using split),
    isValid_byteLength _ after split⟩
  rw [Text.byteLength_append]
  exact Nat.le_add_right _ _

/-- They lie between characters of the written line as well: the span neither starts nor ends with a
blank, and only blanks stand for a part of a character. -/
theorem OnLine.isValid_written {no : Nat} {row : List (Char × Bool)} {s : Span}
    (onLine : s.OnLine no (Document.normalized row)) :
    String.Pos.Raw.IsValid (String.ofList (row.map Prod.fst)) ⟨s.start⟩ ∧
      String.Pos.Raw.IsValid (String.ofList (row.map Prod.fst)) ⟨s.stop⟩ := by
  obtain ⟨⟨-, before, after, split, start, stop⟩, filled, solid⟩ := onLine
  constructor
  · obtain ⟨c, cs, text⟩ := List.exists_cons_of_ne_nil filled
    have visible : Text.isBlank c = false := solid.1 c (by simp [text])
    have shown : Document.normalized row = before ++ c :: (cs ++ after) := by
      simpa [text] using split
    obtain ⟨front, mark, back, rfl, same, -⟩ := Document.exists_mark_of_normalized shown visible
    rw [start, ← same, Document.byteLength_normalized]
    exact isValid_byteLength _ _ (List.map_append ..)
  · obtain ⟨inner, c, text⟩ := (List.eq_nil_or_concat' _).resolve_left filled
    have visible : Text.isBlank c = false := solid.2 c (by simp [text])
    have shown : Document.normalized row = before ++ inner ++ c :: after := by
      simpa [text] using split
    obtain ⟨front, mark, back, rfl, same, image⟩ := Document.exists_mark_of_normalized shown visible
    have ends : s.stop = Text.byteLength ((front ++ [mark]).map Prod.fst) := by
      rw [← Document.byteLength_normalized, stop, text, ← List.append_assoc, ← same, ← image]
      simp [Document.normalized]
    rw [ends]
    exact isValid_byteLength _ (back.map Prod.fst) (by simp)

end Span

/-- A range within one line of a document, with its columns at positions of the line, both as it is
written and as it is checked. -/
def Range.Within (text : String) (r : Range) : Prop :=
  r.stop.line = r.start.line ∧
    ∃ raw line, (Document.rawLines text)[r.start.line]? = some raw ∧
      (Document.lines text)[r.start.line]? = some line ∧
      r.start.column ≤ r.stop.column ∧ r.stop.column ≤ raw.utf8ByteSize ∧
      ∀ column ∈ [r.start.column, r.stop.column],
        String.Pos.Raw.IsValid line ⟨column⟩ ∧ String.Pos.Raw.IsValid raw ⟨column⟩

theorem Span.OnLines.within {text : String} {s : Span} (onLines : s.OnLines (Document.lines text)) :
    s.range.Within text := by
  obtain ⟨line, found, onLine⟩ := onLines
  rw [Document.lines_eq, List.getElem?_map] at found
  obtain ⟨row, rowAt, rfl⟩ := Option.map_eq_some_iff.mp found
  rw [String.toList_ofList] at onLine
  obtain ⟨order, start, stop⟩ := onLine.slices.isValid
  obtain ⟨startWritten, stopWritten⟩ := onLine.isValid_written
  refine ⟨rfl, String.ofList (row.map Prod.fst), String.ofList (Document.normalized row),
    ?_, ?_, order, stopWritten.le_rawEndPos, ?_⟩
  · rw [Document.rawLines_eq, List.getElem?_map]
    exact congrArg _ rowAt
  · rw [Document.lines_eq, List.getElem?_map]
    exact congrArg _ rowAt
  · simpa using ⟨⟨start, startWritten⟩, stop, stopWritten⟩

/-- Each range of a diagnostic, those of related places among them, lies within one line of the
document. -/
theorem validate_within (catalog : Catalog) (options : Options) (present : WallClock)
    (text : String) :
    ∀ d ∈ validate catalog options present text,
      d.range.Within text ∧ ∀ r ∈ d.related, r.range.Within text := by
  intro d member
  obtain ⟨e, first, rfl⟩ := List.mem_map.mp member
  obtain ⟨⟨s, onLines, range⟩, related⟩ := reports_at _ _ e (Diagnostic.mem_of_mem_firsts first)
  refine ⟨range ▸ onLines.within, ?_⟩
  intro r inRelated
  obtain ⟨s', onLines', range'⟩ := related r inRelated
  exact range' ▸ onLines'.within

/-- A setting that is declared twice, after a comment over two lines. -/
theorem validate_within_repeated_setting :
    ∃ d ∈ validate { descriptors := [{ name := "title", type := .string }] } {}
        ⟨0, by decide, by decide⟩ "/* é\r\n*/ [Group]\nTitle = é\n\tTitle = ü",
      d.range = .onLine 3 1 6 ∧ d.related = [⟨.onLine 2 0 5, "first declared here"⟩] ∧
      d.range.Within "/* é\r\n*/ [Group]\nTitle = é\n\tTitle = ü" ∧
      (Range.onLine 2 0 5).Within "/* é\r\n*/ [Group]\nTitle = é\n\tTitle = ü" := by
  have found : ∃ d ∈ validate { descriptors := [{ name := "title", type := .string }] } {}
        ⟨0, by decide, by decide⟩ "/* é\r\n*/ [Group]\nTitle = é\n\tTitle = ü",
      d.range = .onLine 3 1 6 ∧ d.related = [⟨.onLine 2 0 5, "first declared here"⟩] := by decide
  obtain ⟨d, member, range, related⟩ := found
  obtain ⟨within, relatedWithin⟩ := validate_within _ _ _ _ d member
  exact ⟨d, member, range, related, within,
    relatedWithin _ (by rw [related]; exact List.mem_singleton_self _)⟩

end ChartLint
