import ChartLint.Span
import Mathlib.Data.List.DropRight

/-!
# Pieces of a line

What it means that a span is a piece of a line, and what trimming leaves of a piece. Both are said
on characters: the columns are the lengths in UTF-8 of what stands before.

* `Span.Slices`: the text of the span stands in the line between its columns. `Slices.extract` is
  the same on bytes.
* `Span.Trims`: the span is what is left of a piece without its outer blanks. `trims_iff` says that
  `Span.trimmed` gives this span and that there is no other.
-/

namespace ChartLint

namespace Text

theorem byteLength_eq_size (cs : List Char) : byteLength cs = cs.utf8Encode.size := by
  induction cs with
  | nil => rfl
  | cons c cs ih =>
      rw [byteLength_cons, ih, ← List.singleton_append, List.utf8Encode_append,
        ByteArray.size_append, List.utf8Encode_singleton]
      simp

theorem utf8ByteSize_ofList (cs : List Char) : (String.ofList cs).utf8ByteSize = byteLength cs := by
  rw [byteLength_eq_size]
  rfl

theorem isBlank_of_between {c : Char} (low : '!' ≤ c) (high : c ≤ '~') : isBlank c = false := by
  have range : 33 ≤ c.toNat ∧ c.toNat ≤ 126 := by
    simpa [Char.le_def, UInt32.le_iff_toNat_le] using And.intro low high
  simp only [isBlank, Bool.or_eq_false_iff, Bool.and_eq_false_iff, decide_eq_false_iff_not,
    beq_eq_false_iff_ne]
  omega

def Solid (cs : List Char) : Prop :=
  (∀ c ∈ cs.head?, isBlank c = false) ∧ ∀ c ∈ cs.getLast?, isBlank c = false

theorem solid_of_forall {cs : List Char} (filled : ∀ c ∈ cs, isBlank c = false) : Solid cs :=
  ⟨fun c member => filled c (List.mem_of_head? member),
    fun c member => filled c (List.mem_of_getLast? member)⟩

theorem trimEnd_eq (cs : List Char) : trimEnd cs = cs.rdropWhile isBlank := rfl

theorem solid_trim (cs : List Char) : Solid (trim cs) := by
  rw [trim, trimEnd_eq, trimStart]
  constructor
  · intro c member
    -- what is left starts as the text does after its leading blanks
    obtain ⟨rest, whole⟩ := List.rdropWhile_prefix isBlank (l := cs.dropWhile isBlank)
    have first : (cs.dropWhile isBlank).head? = some c := by
      rw [← whole, List.head?_append, Option.mem_def.mp member]
      rfl
    have := List.head?_dropWhile_not isBlank cs
    rw [first] at this
    simpa using this
  · intro c member
    have filled : (cs.dropWhile isBlank).rdropWhile isBlank ≠ [] := by
      intro empty
      simp [empty] at member
    have last := List.rdropWhile_last_not isBlank (cs.dropWhile isBlank) filled
    rw [List.getLast?_eq_some_getLast filled, Option.mem_some] at member
    rw [member] at last
    simpa using last

theorem trim_split (cs : List Char) :
    cs = cs.takeWhile isBlank ++ trim cs ++ (cs.dropWhile isBlank).rtakeWhile isBlank := by
  rw [List.append_assoc, trim, trimEnd_eq, trimStart, List.rdropWhile_append_rtakeWhile,
    List.takeWhile_append_dropWhile]

theorem trim_eq_nil_iff (cs : List Char) : trim cs = [] ↔ ∀ c ∈ cs, isBlank c = true := by
  rw [trim, trimEnd_eq, trimStart, List.rdropWhile_eq_nil_iff]
  constructor
  · intro blank c member
    rw [← List.takeWhile_append_dropWhile (p := isBlank) (l := cs)] at member
    rcases List.mem_append.mp member with member | member
    · exact List.mem_takeWhile_imp member
    · exact blank c member
  · intro blank c member
    exact blank c ((List.dropWhile_sublist isBlank).subset member)

theorem trim_of_split {lead core trail : List Char} (before : ∀ c ∈ lead, isBlank c = true)
    (solid : Solid core) (after : ∀ c ∈ trail, isBlank c = true) :
    trim (lead ++ core ++ trail) = core := by
  have start : trimStart (lead ++ core ++ trail) = (core ++ trail).dropWhile isBlank := by
    rw [trimStart, List.append_assoc, List.dropWhile_append_of_pos before]
  rw [trim, start, trimEnd_eq]
  cases core with
  | nil =>
      have none_ : (List.dropWhile isBlank ([] ++ trail)) = [] := by
        rw [List.nil_append, List.dropWhile_eq_nil_iff]
        exact after
      rw [none_]
      rfl
  | cons c cs =>
      have first : isBlank c = false := solid.1 c rfl
      have rest : (c :: cs ++ trail).rdropWhile isBlank = (c :: cs).rdropWhile isBlank := by
        rw [List.rdropWhile, List.reverse_append,
          List.dropWhile_append_of_pos (by simpa using after), List.rdropWhile]
      rw [List.cons_append, List.dropWhile_cons_of_neg (by simp [first]), ← List.cons_append, rest,
        List.rdropWhile_eq_self_iff]
      intro filled
      rw [Bool.not_eq_true]
      exact solid.2 _ (List.getLast?_eq_some_getLast filled)

end Text

namespace Span

/-- A span is a piece of a line: its text stands there between its columns. -/
def Slices (no : Nat) (line : List Char) (s : Span) : Prop :=
  s.line = no ∧ ∃ before after, line = before ++ s.text.toList ++ after ∧
    s.start = Text.byteLength before ∧ s.stop = Text.byteLength (before ++ s.text.toList)

/-- A span is what is left of `piece` without its outer blanks. What stands before the piece in its
line is `before`. If nothing is left, the span stands at the end of the piece. -/
def Trims (no : Nat) (before piece : List Char) (s : Span) : Prop :=
  ∃ lead core trail, piece = lead ++ core ++ trail ∧ (∀ c ∈ lead, Text.isBlank c = true) ∧
    Text.Solid core ∧ (∀ c ∈ trail, Text.isBlank c = true) ∧ (core = [] → trail = []) ∧
    s = place core no (Text.byteLength (before ++ lead))

/-- A span stands on a line: it is a piece of the line that neither starts nor ends with a blank. -/
structure OnLine (no : Nat) (line : List Char) (s : Span) : Prop where
  slices : s.Slices no line
  filled : s.text.toList ≠ []
  solid : Text.Solid s.text.toList

@[simp] theorem text_place (text : List Char) (no start : Nat) :
    (place text no start).text = String.ofList text := rfl

theorem slices_place (no : Nat) (before text after : List Char) :
    (place text no (Text.byteLength before)).Slices no (before ++ text ++ after) := by
  refine ⟨rfl, before, after, ?_, rfl, ?_⟩
  · simp
  · simp [place]

theorem trims_trimmed (no : Nat) (before piece : List Char) :
    (trimmed piece no (Text.byteLength before)).Trims no before piece := by
  refine ⟨piece.takeWhile Text.isBlank, Text.trim piece,
    (piece.dropWhile Text.isBlank).rtakeWhile Text.isBlank, Text.trim_split piece, ?_,
    Text.solid_trim piece, ?_, ?_, ?_⟩
  · exact fun c member => List.mem_takeWhile_imp member
  · exact fun c member => List.mem_rtakeWhile_imp member
  · intro empty
    have blank := (Text.trim_eq_nil_iff piece).mp empty
    rw [List.dropWhile_eq_nil_iff.mpr blank]
    rfl
  · simp [trimmed]

theorem trims_iff {no : Nat} {before piece : List Char} {s : Span} :
    s.Trims no before piece ↔ s = trimmed piece no (Text.byteLength before) := by
  constructor
  · rintro ⟨lead, core, trail, rfl, blank, solid, after, atEnd, rfl⟩
    have leading : (lead ++ core ++ trail).takeWhile Text.isBlank = lead := by
      rw [List.append_assoc, List.takeWhile_append_of_pos blank]
      cases core with
      | nil => simp [atEnd rfl]
      | cons c cs =>
          have first : Text.isBlank c = false := solid.1 c rfl
          simp [first]
    rw [trimmed, Text.trim_of_split blank solid after, leading, Text.byteLength_append]
  · rintro rfl
    exact trims_trimmed no before piece

theorem Trims.slices {no : Nat} {before piece : List Char} {s : Span}
    (trims : s.Trims no before piece) (after : List Char) :
    s.Slices no (before ++ piece ++ after) := by
  obtain ⟨lead, core, trail, rfl, -, -, -, -, rfl⟩ := trims
  have := slices_place no (before ++ lead) core (trail ++ after)
  simpa using this

theorem Trims.solid {no : Nat} {before piece : List Char} {s : Span}
    (trims : s.Trims no before piece) : Text.Solid s.text.toList := by
  obtain ⟨lead, core, trail, -, -, solid, -, -, rfl⟩ := trims
  simpa using solid

theorem solid_trimmed (piece : List Char) (no start : Nat) :
    Text.Solid (trimmed piece no start).text.toList := by
  simpa [trimmed] using Text.solid_trim piece

theorem Slices.place {no : Nat} {line : List Char} {s : Span} (slices : s.Slices no line)
    (front : List Char) {piece : List Char} (back : List Char)
    (split : s.text.toList = front ++ piece ++ back) :
    (Span.place piece s.line (s.start + Text.byteLength front)).Slices no line := by
  obtain ⟨rfl, before, after, rfl, start, -⟩ := slices
  rw [start, ← Text.byteLength_append, split]
  simpa using slices_place s.line (before ++ front) piece (back ++ after)

theorem Slices.trimmed {no : Nat} {line : List Char} {s : Span} (slices : s.Slices no line)
    (front : List Char) {piece : List Char} (back : List Char)
    (split : s.text.toList = front ++ piece ++ back) :
    (Span.trimmed piece s.line (s.start + Text.byteLength front)).Slices no line := by
  rw [Span.trimmed, Nat.add_assoc, ← Text.byteLength_append]
  refine slices.place _ ((piece.dropWhile Text.isBlank).rtakeWhile Text.isBlank ++ back) ?_
  conv => lhs; rw [split, Text.trim_split piece]
  simp only [List.append_assoc]

theorem Slices.extract {no : Nat} {line : List Char} {s : Span} (slices : s.Slices no line) :
    (String.ofList line).toUTF8.extract s.start s.stop = s.text.toUTF8 := by
  obtain ⟨-, before, after, rfl, start, stop⟩ := slices
  rw [start, stop, Text.byteLength_eq_size, Text.byteLength_eq_size, List.utf8Encode_append,
    ByteArray.size_append]
  simp only [String.toUTF8_eq_toByteArray, String.toByteArray_ofList, List.utf8Encode_append,
    String.utf8Encode_toList, ByteArray.append_assoc]
  exact (ByteArray.extract_append_size_add (i := 0)).trans (ByteArray.extract_append_eq_left rfl)

end Span
end ChartLint
