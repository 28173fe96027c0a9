import ChartLint.Line.Basic
import ChartLint.Proofs.Span

/-!
# The grammar of a line

What a line can be is stated here without a reader: `Line.Form no line kind` says that the
characters of a line have the form of a kind of line, with the spans of its parts. The main
statement, `classify_grammar`, is that a line is classified as what it has the form of, and as a
text if it has no form at all, and that the spans are pieces of the line.

Three readers have to agree on this. The first word is the longest one (`leadWord_iff`), the parts
of a setting are divided by the first `=` and trimmed (`settingParts?_eq_some_iff`), and the name of
a section ends at the first bracket (`sectionName?_eq_some_iff`).
-/

namespace ChartLint.Line

/-! ## Forms -/

def Letter (c : Char) : Prop := 'a' ≤ c ∧ c ≤ 'z'

def Digit (c : Char) : Prop := '0' ≤ c ∧ c ≤ '9'

/-- `[a-z_][a-z0-9_-]*` -/
def Word (w : List Char) : Prop :=
  ∃ c cs, w = c :: cs ∧ (Letter c ∨ c = '_') ∧ ∀ d ∈ cs, Letter d ∨ Digit d ∨ d = '_' ∨ d = '-'

/-- `[a-z][a-z0-9_\- \t]*` -/
def SettingName (w : List Char) : Prop :=
  ∃ c cs, w = c :: cs ∧ Letter c ∧
    ∀ d ∈ cs, Letter d ∨ Digit d ∨ d = '_' ∨ d = '-' ∨ d = ' ' ∨ d = '\t'

/-- `[a-z-]+` -/
def SectionName (w : List Char) : Prop :=
  w ≠ [] ∧ ∀ d ∈ w, Letter d ∨ d = '-'

/-- The longest word that a text starts with, or nothing if it starts with none. -/
structure LeadWord (text w : List Char) : Prop where
  starts : w <+: text
  word : w = [] ∨ Word w
  longest : ∀ u, u <+: text → Word u → u.length ≤ w.length

def NoKeyword (w : List Char) : Prop :=
  (∀ kw : Block.Keyword, w ≠ kw.spelling.toList ∧ w ≠ kw.closer.toList) ∧
    ∀ arm : Block.Arm, w ≠ arm.spelling.toList

/-- A line that starts with a word, spaces and tabs left out. The tail is what follows the word,
trimmed. -/
structure StartsWith (no : Nat) (line : List Char) (word : String) (head tail : Span) : Prop where
  lead : LeadWord (line.dropWhile Text.isGap) word.toList
  head : head = .place word.toList no (Text.byteLength (line.takeWhile Text.isGap))
  tail : tail.Trims no (line.takeWhile Text.isGap ++ word.toList)
    ((line.dropWhile Text.isGap).drop word.toList.length)

inductive Form (no : Nat) (line : List Char) : Line → Prop where
  | blank (all : ∀ c ∈ line, Text.isBlank c = true) : Form no line .blank
  | opener {kw : Block.Keyword} {head tail : Span}
      (starts : StartsWith no line kw.spelling head tail) :
      Form no line (.opener kw (Block.isInline kw tail.text.toList) head tail)
  | arm {which : Block.Arm} {head tail : Span}
      (starts : StartsWith no line which.spelling head tail) : Form no line (.arm which head tail)
  | closer {kw : Block.Keyword} {head tail : Span}
      (starts : StartsWith no line kw.closer head tail) : Form no line (.closer kw head tail)
  | header {name : Span} {margin inner rest : List Char}
      (split : line = margin ++ '[' :: (inner ++ ']' :: rest))
      (gaps : ∀ c ∈ margin, Text.isGap c = true) (first : ']' ∉ inner)
      (trims : name.Trims no (margin ++ ['[']) inner) (named : SectionName name.text.toList) :
      Form no line (.header name)
  | setting {name value : Span} {w before after : List Char}
      (lead : LeadWord (line.dropWhile Text.isGap) w) (filled : w ≠ []) (free : NoKeyword w)
      (split : line = before ++ '=' :: after) (first : '=' ∉ before)
      (single : after.head? ≠ some '=') (trims : name.Trims no [] before)
      (named : SettingName name.text.toList) (valued : value.Trims no (before ++ ['=']) after) :
      Form no line (.setting name value)

def spans : Line → List Span
  | .blank | .text => []
  | .header name => [name]
  | .opener _ _ head tail | .arm _ head tail | .closer _ head tail => [head, tail]
  | .setting name value => [name, value]

/-! ## Classes of characters -/

theorem letter_iff (c : Char) : Letter c ↔ c.isLower = true := by
  delta Char.isLower
  simp [Letter, Char.le_def]

theorem digit_iff (c : Char) : Digit c ↔ c.isDigit = true := by
  simp [Digit, Char.isDigit, Char.le_def]

theorem isBlank_of_wordChar {c : Char} (inWord : Letter c ∨ Digit c ∨ c = '_' ∨ c = '-') :
    Text.isBlank c = false := by
  rcases inWord with letter | digit | rfl | rfl
  · exact Text.isBlank_of_between (Char.le_trans (by decide) letter.1)
      (Char.le_trans letter.2 (by decide))
  · exact Text.isBlank_of_between (Char.le_trans (by decide) digit.1)
      (Char.le_trans digit.2 (by decide))
  · decide
  · decide

theorem Word.solid {w : List Char} (word : Word w) : Text.Solid w := by
  obtain ⟨c, cs, rfl, first, others⟩ := word
  refine Text.solid_of_forall ?_
  intro d member
  rcases List.mem_cons.mp member with rfl | member
  · exact isBlank_of_wordChar (by tauto)
  · exact isBlank_of_wordChar (others d member)

theorem word_iff (w : List Char) :
    Word w ↔ ∃ c cs, w = c :: cs ∧ Head.startsWord c = true ∧ ∀ d ∈ cs, Head.inWord d = true := by
  simp only [Word, letter_iff, digit_iff, Head.startsWord, Head.inWord, Bool.or_eq_true, beq_iff_eq,
    or_assoc]

theorem settingName_iff (w : List Char) : SettingName w ↔ isSettingName w = true := by
  cases w with
  | nil => simp [SettingName, isSettingName]
  | cons c cs =>
      simp only [SettingName, List.cons.injEq, letter_iff, digit_iff, isSettingName, inSettingName,
        Bool.and_eq_true, List.all_eq_true, Bool.or_eq_true, beq_iff_eq]
      constructor
      · rintro ⟨_, _, ⟨rfl, rfl⟩, first, others⟩
        refine ⟨first, fun d member => ?_⟩
        have := others d member
        tauto
      · rintro ⟨first, others⟩
        refine ⟨c, cs, ⟨rfl, rfl⟩, first, fun d member => ?_⟩
        have := others d member
        tauto

theorem sectionName_iff (w : List Char) : SectionName w ↔ isSectionName w = true := by
  simp [SectionName, isSectionName, letter_iff]

/-! ## The first word -/

def leadWord : List Char → List Char
  | [] => []
  | c :: cs => if Head.startsWord c then c :: cs.takeWhile Head.inWord else []

theorem leadWord_starts (text : List Char) : leadWord text <+: text := by
  cases text with
  | nil => exact List.prefix_refl []
  | cons c cs =>
      rw [leadWord]
      split
      · exact (List.prefix_cons_inj c).mpr (List.takeWhile_prefix Head.inWord)
      · exact List.nil_prefix

theorem leadWord_word (text : List Char) : leadWord text = [] ∨ Word (leadWord text) := by
  cases text with
  | nil => exact .inl rfl
  | cons c cs =>
      rw [leadWord]
      split
      · rename_i starts
        exact .inr ((word_iff _).mpr ⟨c, _, rfl, starts,
          fun d member => List.mem_takeWhile_imp member⟩)
      · exact .inl rfl

theorem leadWord_longest {text u : List Char} (starts : u <+: text) (word : Word u) :
    u.length ≤ (leadWord text).length := by
  obtain ⟨c, cs, rfl, first, others⟩ := (word_iff u).mp word
  obtain ⟨rest, rfl⟩ := starts
  simp only [leadWord, List.cons_append, first, if_true, List.length_cons, Nat.add_le_add_iff_right]
  rw [List.takeWhile_append_of_pos others, List.length_append]
  exact Nat.le_add_right _ _

theorem leadWord_iff {text w : List Char} : LeadWord text w ↔ w = leadWord text := by
  constructor
  · intro lead
    -- both start the text, and neither is longer than the other
    have le : w.length ≤ (leadWord text).length := by
      rcases lead.word with rfl | word
      · exact Nat.zero_le _
      · exact leadWord_longest lead.starts word
    have ge : (leadWord text).length ≤ w.length := by
      rcases leadWord_word text with empty | word
      · simp [empty]
      · exact lead.longest _ (leadWord_starts text) word
    exact (List.prefix_of_prefix_length_le lead.starts (leadWord_starts text) le).eq_of_length_le ge
  · rintro rfl
    exact ⟨leadWord_starts text, leadWord_word text, fun u => leadWord_longest⟩

theorem ofWord_spelling (kw : Block.Keyword) : Head.ofWord kw.spelling = .opener kw := by
  cases kw <;> decide

theorem ofWord_closer (kw : Block.Keyword) : Head.ofWord kw.closer = .closer kw := by
  cases kw <;> decide

theorem ofWord_arm (which : Block.Arm) : Head.ofWord which.spelling = .arm which := by
  cases which <;> decide

theorem ofWord_cases (w : String) :
    (∃ kw : Block.Keyword, w = kw.spelling) ∨ (∃ kw : Block.Keyword, w = kw.closer) ∨
      (∃ which : Block.Arm, w = which.spelling) ∨
      NoKeyword w.toList ∧ Head.ofWord w = .word := by
  by_cases opens : ∃ kw : Block.Keyword, w = kw.spelling
  · exact .inl opens
  by_cases closes : ∃ kw : Block.Keyword, w = kw.closer
  · exact .inr (.inl closes)
  by_cases divides : ∃ which : Block.Arm, w = which.spelling
  · exact .inr (.inr (.inl divides))
  simp only [not_exists] at opens closes divides
  refine .inr (.inr (.inr ⟨⟨fun kw => ⟨?_, ?_⟩, fun which => ?_⟩, ?_⟩))
  · exact fun equal => opens kw (String.toList_injective equal)
  · exact fun equal => closes kw (String.toList_injective equal)
  · exact fun equal => divides which (String.toList_injective equal)
  · have noOpener : (Block.Keyword.all.find? fun kw => kw.spelling == w) = none := by
      rw [List.find?_eq_none]
      intro kw _
      simpa using fun equal => opens kw equal.symm
    have noCloser : (Block.Keyword.all.find? fun kw => kw.closer == w) = none := by
      rw [List.find?_eq_none]
      intro kw _
      simpa using fun equal => closes kw equal.symm
    have noArm : ([Block.Arm.elseif, .else].find? fun a => a.spelling == w) = none := by
      rw [List.find?_eq_none]
      intro which _
      simpa using fun equal => divides which equal.symm
    simp only [Head.ofWord, noOpener, noCloser, noArm]

theorem ofWord_of_noKeyword {w : String} (free : NoKeyword w.toList) : Head.ofWord w = .word := by
  rcases ofWord_cases w with ⟨kw, rfl⟩ | ⟨kw, rfl⟩ | ⟨which, rfl⟩ | ⟨-, plain⟩
  · exact absurd rfl (free.1 kw).1
  · exact absurd rfl (free.1 kw).2
  · exact absurd rfl (free.2 which)
  · exact plain

/-! ## The parts of settings and headers -/

theorem splitOnce?_eq_some_iff {sep : Char} {text before after : List Char} :
    Text.splitOnce? sep text = some (before, after) ↔
      text = before ++ sep :: after ∧ sep ∉ before := by
  induction text generalizing before with
  | nil => simp [Text.splitOnce?]
  | cons c cs ih =>
      rw [Text.splitOnce?]
      split
      · rename_i found
        subst found
        cases before with
        | nil => simp [eq_comm]
        | cons d ds =>
            simp only [Option.some.injEq, Prod.mk.injEq, reduceCtorEq, false_and, List.cons_append,
              List.cons.injEq, List.mem_cons, not_or, false_iff]
            rintro ⟨⟨rfl, -⟩, other, -⟩
            exact other rfl
      · rename_i other
        cases before with
        | nil => simp [other]
        | cons d ds =>
            simp only [Option.map_eq_some_iff, Prod.exists, Prod.mk.injEq, List.cons.injEq,
              List.cons_append, List.mem_cons, not_or]
            constructor
            · rintro ⟨_, _, found, ⟨rfl, rfl⟩, rfl⟩
              obtain ⟨split, first⟩ := ih.mp found
              exact ⟨⟨rfl, split⟩, fun equal => other equal.symm, first⟩
            · rintro ⟨⟨rfl, split⟩, -, first⟩
              exact ⟨ds, after, ih.mpr ⟨split, first⟩, ⟨rfl, rfl⟩, rfl⟩

theorem toList_trimmed (piece : List Char) (no start : Nat) :
    (Span.trimmed piece no start).text.toList = Text.trim piece := by
  simp [Span.trimmed]

theorem settingParts?_eq_some_iff {no : Nat} {line : List Char} {name value : Span} :
    settingParts? no line = some (name, value) ↔ ∃ before after,
      line = before ++ '=' :: after ∧ '=' ∉ before ∧ after.head? ≠ some '=' ∧
        name.Trims no [] before ∧ SettingName name.text.toList ∧
        value.Trims no (before ++ ['=']) after := by
  unfold settingParts?
  constructor
  · intro found
    split at found
    · cases found
    · rename_i before after divided
      obtain ⟨split, first⟩ := splitOnce?_eq_some_iff.mp divided
      split at found
      · cases found
      · rename_i single
        split at found
        · rename_i named
          cases found
          refine ⟨before, after, split, first, single, Span.trims_trimmed no [] before, ?_, ?_⟩
          · rw [settingName_iff, toList_trimmed]
            exact named
          · rw [Span.trims_iff, Text.byteLength_append]
            rfl
        · cases found
  · rintro ⟨before, after, split, first, single, trims, named, valued⟩
    rw [Span.trims_iff] at trims valued
    subst trims valued
    rw [settingName_iff, toList_trimmed] at named
    rw [splitOnce?_eq_some_iff.mpr ⟨split, first⟩]
    simp only [single, if_false, named, if_true, Text.byteLength_append]
    rfl

theorem sectionName?_eq_some_iff {no : Nat} {before rest : List Char} {name : Span} :
    sectionName? no (Text.byteLength before) rest = some name ↔ ∃ inner after,
      rest = inner ++ ']' :: after ∧ ']' ∉ inner ∧ name.Trims no before inner ∧
        SectionName name.text.toList := by
  unfold sectionName?
  constructor
  · intro found
    split at found
    · cases found
    · rename_i inner after divided
      obtain ⟨split, first⟩ := splitOnce?_eq_some_iff.mp divided
      split at found
      · rename_i named
        cases found
        refine ⟨inner, after, split, first, Span.trims_trimmed no before inner, ?_⟩
        rw [sectionName_iff, toList_trimmed]
        exact named
      · cases found
  · rintro ⟨inner, after, split, first, trims, named⟩
    rw [Span.trims_iff] at trims
    subst trims
    rw [sectionName_iff, toList_trimmed] at named
    rw [splitOnce?_eq_some_iff.mpr ⟨split, first⟩]
    simp only [named, if_true]

/-! ## The parts of a line -/

theorem isBlank_of_startsWord {c : Char} (starts : Head.startsWord c = true) :
    Text.isBlank c = false := by
  simp only [Head.startsWord, Bool.or_eq_true, beq_iff_eq, ← letter_iff] at starts
  exact isBlank_of_wordChar (by tauto)

theorem isGap_of_startsWord {c : Char} (starts : Head.startsWord c = true) :
    Text.isGap c = false := by
  cases gap : Text.isGap c with
  | false => rfl
  | true =>
      have blank := Text.isBlank_of_isGap gap
      rw [isBlank_of_startsWord starts] at blank
      cases blank

theorem not_all_blank {line : List Char} {c : Char} {rest : List Char}
    (body : line.dropWhile Text.isGap = c :: rest) (solid : Text.isBlank c = false) :
    line.all Text.isBlank = false := by
  rw [List.all_eq_false]
  refine ⟨c, (List.dropWhile_sublist Text.isGap).subset ?_, by simp [solid]⟩
  rw [body]
  simp

def ofLeadWord (no : Nat) (line w : List Char) : Line :=
  let head := Span.place w no (Text.byteLength (line.takeWhile Text.isGap))
  let tail := Span.trimmed ((line.dropWhile Text.isGap).drop w.length) no
    (Text.byteLength (line.takeWhile Text.isGap ++ w))
  match Head.ofWord (String.ofList w) with
  | .opener kw => .opener kw (Block.isInline kw tail.text.toList) head tail
  | .arm which => .arm which head tail
  | .closer kw => .closer kw head tail
  | _ => (settingParts? no line).elim .text fun parts => .setting parts.1 parts.2

theorem ofChars_of_word {no : Nat} {line w : List Char}
    (lead : LeadWord (line.dropWhile Text.isGap) w) (filled : w ≠ []) :
    ofChars no line = ofLeadWord no line w := by
  rw [leadWord_iff] at lead
  cases body : line.dropWhile Text.isGap with
  | nil => simp [body, leadWord, filled] at lead
  | cons c cs =>
      rw [body, leadWord] at lead
      split at lead
      · rename_i starts
        have read : Head.read (c :: cs) = some (Head.ofWord (String.ofList w), w.length) := by
          simp [Head.read, isGap_of_startsWord starts, starts, lead]
        have taken : (c :: cs).take w.length = w := by
          have prefix_ := leadWord_starts (c :: cs)
          rw [leadWord, if_pos starts, ← lead] at prefix_
          exact (List.prefix_iff_eq_take.mp prefix_).symm
        rw [ofChars, not_all_blank body (isBlank_of_startsWord starts)]
        simp only [Bool.false_eq_true, if_false, body, read, taken, ofLeadWord,
          Text.byteLength_append]
        rcases ofWord_cases (String.ofList w)
          with ⟨kw, equal⟩ | ⟨kw, equal⟩ | ⟨which, equal⟩ | ⟨-, plain⟩
        · rw [equal, ofWord_spelling]
          rfl
        · rw [equal, ofWord_closer]
          rfl
        · rw [equal, ofWord_arm]
          rfl
        · rw [plain]
      · exact absurd lead filled

theorem ofChars_of_bracket {no : Nat} {line rest : List Char}
    (body : line.dropWhile Text.isGap = '[' :: rest) :
    ofChars no line =
      (sectionName? no (Text.byteLength (line.takeWhile Text.isGap ++ ['['])) rest).elim .text
        .header := by
  have read : Head.read ('[' :: rest) = some (.bracket, 1) := by
    simp [Head.read, Text.isGap, Head.startsWord]
  rw [ofChars, not_all_blank body (by decide)]
  simp only [Bool.false_eq_true, if_false, body, read, List.take_succ_cons, List.take_zero,
    List.drop_succ_cons, List.drop_zero, Span.place, Text.byteLength_append]

theorem settingParts?_of_equals {no : Nat} {line rest : List Char}
    (body : line.dropWhile Text.isGap = '=' :: rest) : settingParts? no line = none := by
  have gaps : ∀ c ∈ line.takeWhile Text.isGap, Text.isGap c = true :=
    fun c member => List.mem_takeWhile_imp member
  have split : line = line.takeWhile Text.isGap ++ '=' :: rest := by
    rw [← body, List.takeWhile_append_dropWhile]
  have first : '=' ∉ line.takeWhile Text.isGap := fun member => absurd (gaps '=' member) (by decide)
  have empty : Text.trim (line.takeWhile Text.isGap) = [] :=
    (Text.trim_eq_nil_iff _).mpr fun c member => Text.isBlank_of_isGap (gaps c member)
  rw [settingParts?, splitOnce?_eq_some_iff.mpr ⟨split, first⟩]
  simp [empty, isSettingName]

theorem ofChars_of_other {no : Nat} {line : List Char} (filled : line.all Text.isBlank = false)
    (noWord : leadWord (line.dropWhile Text.isGap) = [])
    (noBracket : (line.dropWhile Text.isGap).head? ≠ some '[') : ofChars no line = .text := by
  rw [ofChars, filled]
  simp only [Bool.false_eq_true, if_false]
  cases body : line.dropWhile Text.isGap with
  | nil => rfl
  | cons c cs =>
      have noGap : Text.isGap c = false := by
        have first := List.head?_dropWhile_not Text.isGap line
        simpa [body] using first
      have noStart : Head.startsWord c = false := by
        cases starts : Head.startsWord c with
        | false => rfl
        | true => simp [body, leadWord, starts] at noWord
      have other : c ≠ '[' := by simpa [body] using noBracket
      by_cases equals : c = '='
      · subst equals
        have read : Head.read ('=' :: cs) = some (.equals, 1) := by
          simp [Head.read, Text.isGap, Head.startsWord]
        simp only [read, settingParts?_of_equals body, Option.elim_none]
      · have read : Head.read (c :: cs) = none := by
          simp [Head.read, noGap, noStart, other, equals]
        simp only [read]

/-! ## Classification -/

theorem startsWith_iff {no : Nat} {line : List Char} {word : String} {head tail : Span} :
    StartsWith no line word head tail ↔
      leadWord (line.dropWhile Text.isGap) = word.toList ∧
        head = .place word.toList no (Text.byteLength (line.takeWhile Text.isGap)) ∧
        tail = .trimmed ((line.dropWhile Text.isGap).drop word.toList.length) no
          (Text.byteLength (line.takeWhile Text.isGap ++ word.toList)) := by
  constructor
  · rintro ⟨lead, head, tail⟩
    exact ⟨(leadWord_iff.mp lead).symm, head, Span.trims_iff.mp tail⟩
  · rintro ⟨lead, head, tail⟩
    exact ⟨leadWord_iff.mpr lead.symm, head, Span.trims_iff.mpr tail⟩

theorem ofChars_of_startsWith {no : Nat} {line : List Char} {word : String} {head tail : Span}
    (starts : StartsWith no line word head tail) (filled : word.toList ≠ []) :
    ofChars no line = match Head.ofWord word with
      | .opener kw => .opener kw (Block.isInline kw tail.text.toList) head tail
      | .arm which => .arm which head tail
      | .closer kw => .closer kw head tail
      | _ => (settingParts? no line).elim .text fun parts => .setting parts.1 parts.2 := by
  rw [ofChars_of_word starts.lead filled, ofLeadWord, String.ofList_toList, starts.head,
    Span.trims_iff.mp starts.tail]

theorem ofChars_of_form {no : Nat} {line : List Char} {kind : Line} (form : Form no line kind) :
    ofChars no line = kind := by
  cases form with
  | blank all => rw [ofChars, if_pos (List.all_eq_true.mpr all)]
  | @opener kw head tail starts =>
      rw [ofChars_of_startsWith starts (by cases kw <;> decide), ofWord_spelling]
  | @arm which head tail starts =>
      rw [ofChars_of_startsWith starts (by cases which <;> decide), ofWord_arm]
  | @closer kw head tail starts =>
      rw [ofChars_of_startsWith starts (by cases kw <;> decide), ofWord_closer]
  | @header name margin inner rest split gaps first trims named =>
      have body : line.dropWhile Text.isGap = '[' :: (inner ++ ']' :: rest) := by
        rw [split, List.dropWhile_append_of_pos gaps]
        rfl
      have start : line.takeWhile Text.isGap = margin := by
        rw [split, List.takeWhile_append_of_pos gaps]
        simp [Text.isGap]
      rw [ofChars_of_bracket body, start,
        sectionName?_eq_some_iff.mpr ⟨inner, rest, rfl, first, trims, named⟩]
      rfl
  | @setting name value w before after lead filled free split first single trims named valued =>
      have plain : Head.ofWord (String.ofList w) = .word := by
        apply ofWord_of_noKeyword
        rwa [String.toList_ofList]
      rw [ofChars_of_word lead filled, ofLeadWord, plain,
        settingParts?_eq_some_iff.mpr
          ⟨before, after, split, first, single, trims, named, valued⟩]
      rfl

theorem form_ofChars (no : Nat) (line : List Char) (other : ofChars no line ≠ .text) :
    Form no line (ofChars no line) := by
  by_cases blank : line.all Text.isBlank = true
  · rw [ofChars, if_pos blank]
    exact .blank (List.all_eq_true.mp blank)
  rw [Bool.not_eq_true] at blank
  by_cases noWord : leadWord (line.dropWhile Text.isGap) = []
  · cases body : line.dropWhile Text.isGap with
    | nil => exact absurd (ofChars_of_other blank noWord (by simp [body])) other
    | cons c rest =>
        by_cases bracket : c = '['
        · subst bracket
          rw [ofChars_of_bracket body] at other ⊢
          cases found :
            sectionName? no (Text.byteLength (line.takeWhile Text.isGap ++ ['['])) rest with
          | none =>
              rw [found] at other
              exact absurd rfl other
          | some name =>
              obtain ⟨inner, after, rfl, first, trims, named⟩ := sectionName?_eq_some_iff.mp found
              have split : line =
                  line.takeWhile Text.isGap ++ '[' :: (inner ++ ']' :: after) := by
                rw [← body, List.takeWhile_append_dropWhile]
              exact .header split (fun c member => List.mem_takeWhile_imp member) first trims named
        · exact absurd (ofChars_of_other blank noWord (by simpa [body] using bracket)) other
  · have lead : LeadWord _ _ := leadWord_iff.mpr (rfl : leadWord (line.dropWhile Text.isGap) = _)
    rw [ofChars_of_word lead noWord] at other ⊢
    generalize word : leadWord (line.dropWhile Text.isGap) = w at *
    have starts (text : String) (equal : String.ofList w = text) :
        StartsWith no line text (.place w no (Text.byteLength (line.takeWhile Text.isGap)))
          (.trimmed ((line.dropWhile Text.isGap).drop w.length) no
            (Text.byteLength (line.takeWhile Text.isGap ++ w))) := by
      subst equal
      rw [startsWith_iff, String.toList_ofList]
      exact ⟨word, rfl, rfl⟩
    unfold ofLeadWord at other ⊢
    rcases ofWord_cases (String.ofList w)
      with ⟨kw, equal⟩ | ⟨kw, equal⟩ | ⟨which, equal⟩ | ⟨free, plain⟩
    · rw [equal, ofWord_spelling]
      exact .opener (starts _ equal)
    · rw [equal, ofWord_closer]
      exact .closer (starts _ equal)
    · rw [equal, ofWord_arm]
      exact .arm (starts _ equal)
    · rw [plain] at other ⊢
      dsimp only at other ⊢
      cases found : settingParts? no line with
      | none => simp [found] at other
      | some parts =>
          obtain ⟨name, value⟩ := parts
          obtain ⟨before, after, split, first, single, trims, named, valued⟩ :=
            settingParts?_eq_some_iff.mp found
          rw [String.toList_ofList] at free
          exact .setting lead noWord free split first single trims named valued

theorem form_iff {no : Nat} {line : List Char} {kind : Line} :
    Form no line kind ↔ ofChars no line = kind ∧ kind ≠ .text := by
  constructor
  · intro form
    exact ⟨ofChars_of_form form, by cases form <;> simp⟩
  · rintro ⟨rfl, other⟩
    exact form_ofChars no line other

theorem StartsWith.pieces {no : Nat} {line : List Char} {word : String} {head tail : Span}
    (starts : StartsWith no line word head tail) (filled : word.toList ≠ []) :
    head.OnLine no line ∧ tail.Slices no line := by
  obtain ⟨lead, rfl, trims⟩ := starts
  obtain ⟨rest, body⟩ := lead.starts
  have split : line = line.takeWhile Text.isGap ++ word.toList ++ rest := by
    rw [List.append_assoc, body, List.takeWhile_append_dropWhile]
  have tail_ : (line.dropWhile Text.isGap).drop word.toList.length = rest := by
    rw [← body, List.drop_left]
  rw [tail_] at trims
  refine ⟨⟨?_, by simpa using filled, ?_⟩, ?_⟩
  · conv => arg 2; rw [split]
    exact Span.slices_place no _ _ rest
  · simpa using (lead.word.resolve_left filled).solid
  · conv => arg 2; rw [split]
    simpa using trims.slices []

/-- The spans of a line stand on it, but for what follows a word or a sign, which may be empty. -/
def Pieces (no : Nat) (line : List Char) : Line → Prop
  | .blank | .text => True
  | .header name => name.OnLine no line
  | .opener _ _ head tail | .arm _ head tail | .closer _ head tail =>
    head.OnLine no line ∧ tail.Slices no line
  | .setting name value =>
    name.OnLine no line ∧ value.Slices no line ∧ Text.Solid value.text.toList

theorem Form.pieces {no : Nat} {line : List Char} {kind : Line} (form : Form no line kind) :
    kind.Pieces no line := by
  cases form with
  | blank => trivial
  | @opener kw head tail starts => exact starts.pieces (by cases kw <;> decide)
  | @arm which head tail starts => exact starts.pieces (by cases which <;> decide)
  | @closer kw head tail starts => exact starts.pieces (by cases kw <;> decide)
  | @header name margin inner rest split gaps first trims named =>
      subst split
      exact ⟨by simpa using trims.slices (']' :: rest), named.1, trims.solid⟩
  | @setting name value w before after lead filled free split first single trims named valued =>
      subst split
      obtain ⟨c, cs, text, -⟩ := named
      exact ⟨⟨by simpa using trims.slices ('=' :: after), by simp [text], trims.solid⟩,
        by simpa using valued.slices [], valued.solid⟩

theorem pieces_ofChars (no : Nat) (line : List Char) : (ofChars no line).Pieces no line := by
  by_cases text : ofChars no line = .text
  · rw [text]
    trivial
  · exact (form_ofChars no line text).pieces

theorem pieces_classify (no : Nat) (text : String) : (classify no text).Pieces no text.toList :=
  pieces_ofChars no text.toList

theorem line_of_classify {no : Nat} {text : String} {name value : Span}
    (line : classify no text = .setting name value) : name.line = no := by
  have pieces := pieces_classify no text
  rw [line] at pieces
  exact pieces.1.slices.1

theorem Pieces.slices {no : Nat} {line : List Char} {kind : Line} (pieces : kind.Pieces no line) :
    ∀ s ∈ kind.spans, s.Slices no line := by
  cases kind with
  | blank => simp [spans]
  | text => simp [spans]
  | header name => simpa [spans] using Span.OnLine.slices pieces
  | opener kw inline head tail => simpa [spans] using ⟨pieces.1.slices, pieces.2⟩
  | arm which head tail => simpa [spans] using ⟨pieces.1.slices, pieces.2⟩
  | closer kw head tail => simpa [spans] using ⟨pieces.1.slices, pieces.2⟩
  | setting name value => simpa [spans] using ⟨pieces.1.slices, pieces.2.1⟩

/-- A line is classified by its form, as a text if it has none, and its spans are pieces of it. -/
theorem classify_grammar (no : Nat) (line : String) :
    (∀ kind, Form no line.toList kind ↔ classify no line = kind ∧ kind ≠ .text) ∧
      (classify no line = .text ↔ ∀ kind, ¬ Form no line.toList kind) ∧
      ∀ s ∈ (classify no line).spans, s.Slices no line.toList ∧
        line.toUTF8.extract s.start s.stop = s.text.toUTF8 := by
  refine ⟨fun kind => form_iff, ?_, ?_⟩
  · constructor
    · intro text kind form
      exact (form_iff.mp form).2 ((form_iff.mp form).1 ▸ text)
    · intro none_
      by_contra other
      exact none_ _ (form_ofChars no line.toList other)
  · intro s member
    have slices := (pieces_ofChars no line.toList).slices s member
    exact ⟨slices, by simpa using slices.extract⟩

/-- `for2` is no keyword, and a wide blank may follow the name of a setting. -/
theorem classify_grammar_wide_blank :
    (⟨"é", 3, 10, 12⟩ : Span) ∈ (classify 3 " for2\u3000= é").spans ∧
      Form 3 " for2\u3000= é".toList (.setting ⟨"for2", 3, 1, 5⟩ ⟨"é", 3, 10, 12⟩) ∧
      " for2\u3000= é".toUTF8.extract 10 12 = "é".toUTF8 := by
  have member : (⟨"é", 3, 10, 12⟩ : Span) ∈ (classify 3 " for2\u3000= é").spans := by decide
  have grammar := classify_grammar 3 " for2\u3000= é"
  exact ⟨member, (grammar.1 _).mpr (by decide), (grammar.2.2 _ member).2⟩

end ChartLint.Line
