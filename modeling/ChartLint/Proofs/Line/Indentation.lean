import ChartLint.Line.Basic
import ChartLint.Proofs.Span

/-!
# Indentation

Spaces and tabs before a line move its spans to the right and change nothing else:
`classify_margin`. The reader of a line skips its margin, and each of its parts is placed by what
stands before it, so that the parts move one by one.

* `ofChars_margin`: what a line is.
* `settingParts?_margin`: the name and the value of a setting. The margin is blank text before the
  name here and is trimmed off with it.
-/

namespace ChartLint

def Span.indent (n : Nat) (s : Span) : Span :=
  { s with start := s.start + n, stop := s.stop + n }

def Line.indent (n : Nat) : Line → Line
  | .blank => .blank
  | .header name => .header (name.indent n)
  | .opener kw inline head tail => .opener kw inline (head.indent n) (tail.indent n)
  | .arm which head tail => .arm which (head.indent n) (tail.indent n)
  | .closer kw head tail => .closer kw (head.indent n) (tail.indent n)
  | .setting name value => .setting (name.indent n) (value.indent n)
  | .text => .text

namespace Span

theorem place_add (text : List Char) (no start n : Nat) :
    place text no (start + n) = (place text no start).indent n := by
  simp [place, indent, Nat.add_right_comm]

theorem trimmed_add (text : List Char) (no start n : Nat) :
    trimmed text no (start + n) = (trimmed text no start).indent n := by
  rw [trimmed, trimmed, Nat.add_right_comm, place_add]

end Span

namespace Line

variable {margin : List Char} (gaps : ∀ c ∈ margin, Text.isGap c = true)

include gaps

theorem byteLength_margin (line : List Char) :
    Text.byteLength (margin ++ line) = Text.byteLength line + margin.length := by
  induction margin with
  | nil => rfl
  | cons c margin ih =>
      obtain ⟨first, others⟩ := List.forall_mem_cons.mp gaps
      have size : c.utf8Size = 1 := by
        simp only [Text.isGap, Bool.or_eq_true, beq_iff_eq] at first
        rcases first with rfl | rfl <;> rfl
      rw [List.cons_append, Text.byteLength_cons, ih others, size, List.length_cons]
      omega

theorem blank_margin : ∀ c ∈ margin, Text.isBlank c = true :=
  fun c member => Text.isBlank_of_isGap (gaps c member)

theorem trimmed_margin (text : List Char) (no : Nat) :
    Span.trimmed (margin ++ text) no 0 = (Span.trimmed text no 0).indent margin.length := by
  have blank := blank_margin gaps
  rw [Span.trimmed, Text.trim, Text.trimStart, List.dropWhile_append_of_pos blank,
    List.takeWhile_append_of_pos blank, byteLength_margin gaps, ← Nat.add_assoc, Span.place_add]
  rfl

theorem splitOnce?_margin {sep : Char} (other : Text.isGap sep = false) (text : List Char) :
    Text.splitOnce? sep (margin ++ text) =
      (Text.splitOnce? sep text).map fun parts => (margin ++ parts.1, parts.2) := by
  induction margin with
  | nil => simp
  | cons c margin ih =>
      obtain ⟨first, others⟩ := List.forall_mem_cons.mp gaps
      have apart : c ≠ sep := by
        rintro rfl
        rw [first] at other
        cases other
      rw [List.cons_append, Text.splitOnce?, if_neg apart, ih others, Option.map_map]
      rfl

theorem settingParts?_margin (no : Nat) (line : List Char) :
    settingParts? no (margin ++ line) = (settingParts? no line).map fun parts =>
      (parts.1.indent margin.length, parts.2.indent margin.length) := by
  unfold settingParts?
  rw [splitOnce?_margin gaps rfl]
  cases Text.splitOnce? '=' line with
  | none => rfl
  | some parts =>
      obtain ⟨before, after⟩ := parts
      have name : Text.trim (margin ++ before) = Text.trim before := by
        rw [Text.trim, Text.trimStart, List.dropWhile_append_of_pos (blank_margin gaps)]
        rfl
      simp only [Option.map_some, name, trimmed_margin gaps, byteLength_margin gaps,
        Nat.add_right_comm _ margin.length, Span.trimmed_add]
      split
      · rfl
      · split <;> rfl

omit gaps in
theorem sectionName?_add (no column n : Nat) (rest : List Char) :
    sectionName? no (column + n) rest = (sectionName? no column rest).map (Span.indent n) := by
  unfold sectionName?
  split
  · rfl
  · rw [Span.trimmed_add]
    split <;> rfl

theorem ofChars_margin (no : Nat) (line : List Char) :
    ofChars no (margin ++ line) = (ofChars no line).indent margin.length := by
  have blank : (margin ++ line).all Text.isBlank = line.all Text.isBlank := by
    rw [List.all_append, List.all_eq_true.mpr (blank_margin gaps), Bool.true_and]
  unfold ofChars
  rw [blank, List.takeWhile_append_of_pos gaps, List.dropWhile_append_of_pos gaps]
  split
  · rfl
  · -- the first token is the same, and the columns after it follow from where it stands
    dsimp only
    rw [byteLength_margin gaps, settingParts?_margin gaps]
    generalize Text.byteLength (line.takeWhile Text.isGap) = column
    generalize line.dropWhile Text.isGap = body
    cases Head.read body with
    | none => rfl
    | some found =>
        obtain ⟨head, n⟩ := found
        have stop : (Span.place (body.take n) no (column + margin.length)).stop =
            (Span.place (body.take n) no column).stop + margin.length := by
          rw [Span.place_add]
          rfl
        dsimp only
        rw [stop, sectionName?_add, Span.trimmed_add, Span.place_add]
        cases head with
        | bracket => cases sectionName? no _ (body.drop n) <;> rfl
        | word | equals => cases settingParts? no line <;> rfl
        | _ => rfl

end Line

/-- A line with spaces and tabs before it is what the line is by itself, with every column moved by
their number. The same holds of the parts of a setting, and there are none where there were none. -/
theorem Line.classify_margin (no : Nat) (margin line : String)
    (gaps : ∀ c ∈ margin.toList, c = ' ' ∨ c = '\t') :
    classify no (margin ++ line) = (classify no line).indent margin.length ∧
      settingParts? no (margin ++ line).toList = (settingParts? no line.toList).map fun parts =>
        (parts.1.indent margin.length, parts.2.indent margin.length) := by
  have gaps : ∀ c ∈ margin.toList, Text.isGap c = true := by
    simpa [Text.isGap] using gaps
  rw [classify, String.toList_append, ← String.length_toList]
  exact ⟨ofChars_margin gaps no line.toList, settingParts?_margin gaps no line.toList⟩

/-- A tab and a space before a line that starts with a space itself. -/
theorem Line.classify_margin_opener :
    classify 3 ("\t " ++ " var é =") = .opener .var false ⟨"var", 3, 3, 6⟩ ⟨"é =", 3, 7, 11⟩ ∧
      settingParts? 3 ("\t " ++ " a b = ").toList = some (⟨"a b", 3, 3, 6⟩, ⟨"", 3, 9, 9⟩) := by
  have gaps : ∀ c ∈ "\t ".toList, c = ' ' ∨ c = '\t' := by simp
  have opener := (classify_margin 3 "\t " " var é =" gaps).1
  have setting := (classify_margin 3 "\t " " a b = " gaps).2
  exact ⟨opener.trans (by decide), setting.trans (by decide)⟩

end ChartLint
