import ChartLint.Proofs.Line.Grammar
import ChartLint.Proofs.Section.Reports

/-!
# What is reported on blocks

Blocks report at the words that open, divide and close them, at the names of collections, at
references and at rows of tables. As for sections, `places` is any property that all spans of the
document have; what each function reports is told once, with the codes it can have.

* `loopParts?_onLine`, `collectionName?_onLine` and `referredNames_onLine` follow the columns of the
  names in blocks.
* `Stack.step_at` is the step of the stack and `Stack.finish_at` the end of a document.
-/

namespace ChartLint

def Code.ofNesting : Code → Bool
  | .unclosedBlock | .unmatchedEnd => true
  | _ => false

def Code.inBlocks : Code → Bool
  | .invalidValue => true
  | c => c.ofBlocks

namespace Block

/-! ## The columns of names -/

theorem isBlank_of_inName {c : Char} (within : inName c = true) : Text.isBlank c = false := by
  simp only [inName, Bool.or_eq_true, beq_iff_eq, ← Line.letter_iff, ← Line.digit_iff] at within
  exact Line.isBlank_of_wordChar (by tauto)

theorem loopParts?_onLine {no : Nat} {line : List Char} {tail collection : Span} {loopVar : String}
    (slices : tail.Slices no line) (found : loopParts? tail = some (loopVar, collection)) :
    collection.OnLine no line := by
  unfold loopParts? at found
  dsimp only at found
  split at found
  · simp at found
  · split at found
    · rename_i rest body
      have trimmed : 'i' :: 'n' :: rest <:+ tail.text.toList.dropWhile fun c =>
          !Text.isBlank c := by
        rw [← body]
        exact List.dropWhile_suffix Text.isBlank
      obtain ⟨front, split⟩ : rest <:+ tail.text.toList :=
        List.IsSuffix.trans ⟨['i', 'n'], rfl⟩ (trimmed.trans (List.dropWhile_suffix _))
      have column : Text.byteLength tail.text.toList - Text.byteLength rest =
          Text.byteLength front := by
        rw [← split, Text.byteLength_append, Nat.add_sub_cancel]
      rw [column] at found
      obtain ⟨filled, same⟩ := Option.ite_none_right_eq_some.mp found
      obtain ⟨-, rfl⟩ := Prod.mk.inj (Option.some.inj same)
      refine ⟨slices.trimmed front [] (by simp [split]), ?_, Span.solid_trimmed _ _ _⟩
      simpa using (Bool.and_eq_true_iff.mp filled).2
    · simp at found

theorem collectionName?_onLine {no : Nat} {line : List Char} {collection name : Span}
    (onLine : collection.OnLine no line) (found : collectionName? collection = some name) :
    name.OnLine no line := by
  unfold collectionName? at found
  obtain ⟨plain, same⟩ := Option.ite_none_left_eq_some.mp found
  obtain rfl := Option.some.inj same
  have letters : ∀ c ∈ collection.text.toList.takeWhile inName, Text.isBlank c = false :=
    fun c member => isBlank_of_inName (List.mem_takeWhile_imp member)
  refine ⟨?_, ?_, ?_⟩
  · exact onLine.slices.place [] (collection.text.toList.dropWhile inName)
      (by simp [List.takeWhile_append_dropWhile])
  · simp only [not_or] at plain
    simpa using plain.2.2.1
  · simpa using Text.solid_of_forall letters

theorem exists_close {body : List Char}
    (closed : (body.takeWhile fun d => d != '\x7d').length < body.length) :
    ∃ after, body = (body.takeWhile fun d => d != '\x7d') ++ '\x7d' :: after := by
  have whole := List.takeWhile_append_dropWhile (p := fun d => d != '\x7d') (l := body)
  have first := List.head?_dropWhile_not (fun d => d != '\x7d') body
  cases rest : body.dropWhile fun d => d != '\x7d' with
  | nil =>
      rw [rest, List.append_nil] at whole
      rw [whole] at closed
      exact absurd closed (Nat.lt_irrefl _)
  | cons d after =>
      rw [rest] at first whole
      obtain rfl : d = '\x7d' := by simpa using first
      exact ⟨after, whole.symm⟩

theorem references_split (before cs : List Char) :
    ∀ reference ∈ references (Text.byteLength before) cs, ∃ front back,
      before ++ cs = front ++ reference.1 ++ back ∧ reference.2 = Text.byteLength front := by
  induction length : cs.length using Nat.strong_induction_on generalizing before cs with
  | _ n ih =>
  subst length
  cases cs with
  | nil => simp [references]
  | cons c rest =>
      rw [references]
      split
      · rename_i opens
        obtain ⟨rfl, brace⟩ := opens
        obtain ⟨body, rfl⟩ := List.head?_eq_some_iff.mp brace
        rw [List.drop_one, List.tail_cons]
        dsimp only
        split
        · rename_i closed
          obtain ⟨after, split⟩ := exists_close closed
          have rest : body.drop ((body.takeWhile fun d => d != '\x7d').length + 1) = after := by
            conv => lhs; arg 2; rw [split]
            simp
          rw [rest]
          generalize (body.takeWhile fun d => d != '\x7d') = inner at split ⊢
          subst split
          have next : Text.byteLength before + 3 + Text.byteLength inner =
              Text.byteLength (before ++ '@' :: '\x7b' :: (inner ++ ['\x7d'])) := by
            have signs : '@'.utf8Size = 1 ∧ '\x7b'.utf8Size = 1 ∧ '\x7d'.utf8Size = 1 := by decide
            simp only [Text.byteLength_append, Text.byteLength_cons, Text.byteLength_nil]
            omega
          intro reference member
          rcases List.mem_cons.mp member with rfl | member
          · exact ⟨before ++ ['@', '\x7b'], '\x7d' :: after, by simp, by simp; rfl⟩
          · rw [next] at member
            obtain ⟨front, back, split, start⟩ :=
              ih after.length (by simp; omega) _ after rfl reference member
            exact ⟨front, back, by simpa using split, start⟩
        · simp
      · intro reference member
        have next : Text.byteLength before + c.utf8Size = Text.byteLength (before ++ [c]) := by simp
        rw [next] at member
        obtain ⟨front, back, split, start⟩ :=
          ih rest.length (by simp) (before ++ [c]) rest rfl reference member
        exact ⟨front, back, by simpa using split, start⟩

theorem referredNames_onLine (no : Nat) (line : List Char) :
    ∀ name ∈ referredNames no line, name.OnLine no line := by
  intro name member
  obtain ⟨⟨inner, column⟩, within, chosen⟩ := List.mem_filterMap.mp member
  obtain ⟨front, back, split, rfl⟩ := references_split [] line _ within
  obtain ⟨named, same⟩ := Option.ite_none_right_eq_some.mp chosen
  obtain rfl := Option.some.inj same
  rw [List.nil_append] at split
  refine ⟨?_, ?_, Span.solid_trimmed _ _ _⟩
  · rw [split]
    exact (Span.trims_trimmed no front inner).slices back
  · simp only [isName, Bool.and_eq_true] at named
    simpa [Span.trimmed] using named.1

/-! ## The reports of each step -/

variable {places : Span → Prop}

namespace Stack

theorem checkName_reports (s : Stack) {name : Span} (place : places name) :
    ∀ d ∈ s.checkName name, Report Code.ofNesting places d := by
  unfold checkName
  split
  · simp
  · exact reports_single rfl place

def LoopAt (places : Span → Prop) (tail : Span) : Prop :=
  ∀ loopVar collection name, loopParts? tail = some (loopVar, collection) →
    collectionName? collection = some name → places name

theorem forFrame_reports (s : Stack) {head tail : Span} (place : places head)
    (loop : LoopAt places tail) :
    (s.forFrame head tail).1.keyword = .for ∧ (s.forFrame head tail).1.head = head ∧
      ∀ d ∈ (s.forFrame head tail).2, Report Code.ofNesting places d := by
  unfold forFrame
  cases parts : loopParts? tail with
  | none => exact ⟨rfl, rfl, reports_single rfl place⟩
  | some pair =>
      obtain ⟨loopVar, collection⟩ := pair
      refine ⟨rfl, rfl, ?_⟩
      dsimp only
      cases named : collectionName? collection with
      | none => simp
      | some name => exact checkName_reports s (loop loopVar collection name parts named)

theorem declareName_reports (s : Stack) (kw : Keyword) {head : Span} (place : places head)
    (name : List Char) : ∀ d ∈ (s.declareName kw head name).2, Report Code.ofNesting places d := by
  unfold declareName
  split
  · exact reports_single rfl place
  · simp

theorem openFrame_reports (s : Stack) (kw : Keyword) (head : Span) {tail : Span}
    (place : places head) (loop : LoopAt places tail) :
    (s.openFrame kw head tail).1.frames = s.frames ∧
      (s.openFrame kw head tail).2.1.keyword = kw ∧ (s.openFrame kw head tail).2.1.head = head ∧
      ∀ d ∈ (s.openFrame kw head tail).2.2, Report Code.ofNesting places d := by
  cases kw with
  | «for» => exact ⟨rfl, forFrame_reports s place loop⟩
  | «if» =>
      refine ⟨rfl, rfl, rfl, ?_⟩
      simp only [openFrame]
      split
      · exact reports_single rfl place
      · simp
  | var => exact ⟨rfl, rfl, rfl, declareName_reports s .var place _⟩
  | list => exact ⟨rfl, rfl, rfl, declareName_reports s .list place _⟩
  | csv => exact ⟨rfl, rfl, rfl, declareName_reports s .csv place _⟩
  | sql => exact ⟨rfl, rfl, rfl, by simp [openFrame]⟩
  | script => exact ⟨rfl, rfl, rfl, by simp [openFrame]⟩

theorem tableLine_reports (t : Table) {no : Nat} {line : List Char}
    (here : ∀ s : Span, s.OnLine no line → places s) :
    ∀ d ∈ (tableLine t no line).2, Report Code.ofNesting places d := by
  unfold tableLine
  dsimp only
  split
  · simp
  · rename_i filled
    split
    · simp
    · split
      · simp
      · refine reports_single rfl (here _ ⟨?_, ?_, Span.solid_trimmed _ _ _⟩)
        · simpa using (Span.trims_trimmed no [] line).slices []
        · simpa using filled

theorem checkReferences_reports (s : Stack) {no : Nat} {line : List Char}
    (here : ∀ s : Span, s.OnLine no line → places s) :
    ∀ d ∈ s.checkReferences no line, Report Code.ofNesting places d := by
  intro d member
  unfold checkReferences at member
  split at member
  · obtain ⟨name, named, member⟩ := List.mem_flatMap.mp member
    exact checkName_reports s (here name (referredNames_onLine no line name named)) d member
  · simp at member

/-! ## The words that opened the blocks -/

def Keeps (places : Span → Prop) (s : Stack) : Prop :=
  ∀ f ∈ s.frames, places f.head

theorem loopAt_of_slices {no : Nat} {line : List Char} {tail : Span}
    (here : ∀ s : Span, s.OnLine no line → places s) (slices : tail.Slices no line) :
    LoopAt places tail := by
  intro loopVar collection name parts named
  exact here name (collectionName?_onLine (loopParts?_onLine slices parts) named)

theorem enter_at {s : Stack} (kept : s.Keeps places) (kw : Keyword) (inline : Bool)
    {head tail : Span} (place : places head) (loop : LoopAt places tail) :
    (s.enter kw inline head tail).1.Keeps places ∧
      ∀ d ∈ (s.enter kw inline head tail).2, d.At places := by
  obtain ⟨frames, -, opened, found⟩ := openFrame_reports s kw head place loop
  unfold enter
  dsimp only
  refine ⟨?_, fun d member => (found d member).at_place⟩
  intro f member
  cases inline with
  | true => exact kept f (frames ▸ member)
  | false =>
      rcases List.mem_cons.mp member with rfl | below
      · rw [opened]
        exact place
      · exact kept f (frames ▸ below)

theorem nextArm_at {s : Stack} (kept : s.Keeps places) (which : Arm) {head : Span} (tail : Span)
    (place : places head) :
    (s.nextArm which head tail).1.Keeps places ∧
      ∀ d ∈ (s.nextArm which head tail).2, d.At places := by
  have single (p : Problem) : ∀ d ∈ [Diagnostic.ofProblem p head], d.At places := by
    simpa using Diagnostic.at_ofProblem p place
  unfold nextArm
  cases frames : s.frames with
  | nil => exact ⟨kept, single _⟩
  | cons frame below =>
      dsimp only
      split
      · refine ⟨?_, ?_⟩
        · intro f member
          rcases List.mem_cons.mp member with rfl | member
          · exact kept frame (by simp [frames])
          · exact kept f (by simp [frames, member])
        · split
          · exact single _
          · simp
      · exact ⟨kept, single _⟩

theorem mem_of_splitAt? {kw : Keyword} {frames above below : List Frame}
    (found : splitAt? kw frames = some (above, below)) :
    ∀ f, f ∈ above ∨ f ∈ below → f ∈ frames := by
  induction frames generalizing above with
  | nil => simp [splitAt?] at found
  | cons frame rest ih =>
      rw [splitAt?] at found
      split at found
      · obtain ⟨rfl, rfl⟩ := Prod.mk.inj (Option.some.inj found)
        intro f member
        simpa using Or.inr member
      · obtain ⟨⟨above', below'⟩, found', same⟩ := Option.map_eq_some_iff.mp found
        obtain ⟨rfl, rfl⟩ := Prod.mk.inj same
        intro f member
        rw [List.mem_cons] at member ⊢
        rcases member with (rfl | member) | member
        · exact .inl rfl
        · exact .inr (ih found' f (.inl member))
        · exact .inr (ih found' f (.inr member))

theorem unclosed_at {frames : List Frame} (kept : ∀ f ∈ frames, places f.head) :
    ∀ d ∈ frames.reverse.map unclosed, d.At places := by
  intro d member
  obtain ⟨f, within, rfl⟩ := List.mem_map.mp member
  exact Diagnostic.at_ofProblem _ (kept f (List.mem_reverse.mp within))

theorem leave_at {s : Stack} (kept : s.Keeps places) (kw : Keyword) {head : Span}
    (place : places head) :
    (s.leave kw head).1.Keeps places ∧ ∀ d ∈ (s.leave kw head).2, d.At places := by
  unfold leave
  cases split : splitAt? kw s.frames with
  | none => exact ⟨kept, by simpa using Diagnostic.at_ofProblem _ place⟩
  | some parts =>
      obtain ⟨above, below⟩ := parts
      have within := mem_of_splitAt? split
      exact ⟨fun f member => kept f (within f (.inr member)),
        unclosed_at fun f member => kept f (within f (.inl member))⟩

theorem textLine_at {s : Stack} (kept : s.Keeps places) {no : Nat} {line : List Char}
    (here : ∀ s : Span, s.OnLine no line → places s) :
    (s.textLine no line).1.Keeps places ∧ ∀ d ∈ (s.textLine no line).2, d.At places := by
  unfold textLine
  cases frames : s.frames with
  | nil => exact ⟨kept, by simp⟩
  | cons frame below =>
      dsimp only
      cases frame.table with
      | none => exact ⟨kept, by simp⟩
      | some t =>
          refine ⟨?_, fun d member => (tableLine_reports t here d member).at_place⟩
          intro f member
          rcases List.mem_cons.mp member with rfl | member
          · exact kept frame (by simp [frames])
          · exact kept f (by simp [frames, member])

theorem step_at {s : Stack} (kept : s.Keeps places) {no : Nat} {text : List Char} {line : Line}
    (here : ∀ s : Span, s.OnLine no text → places s) (pieces : line.Pieces no text) :
    (s.step no text line).1.Keeps places ∧ ∀ d ∈ (s.step no text line).2, d.At places := by
  unfold step
  split
  · cases line with
    | closer kw head tail =>
        dsimp only
        split
        · exact leave_at kept kw (here head pieces.1)
        · exact textLine_at kept here
    | _ => exact textLine_at kept here
  · have references : ∀ d ∈ s.checkReferences no text, d.At places := fun d member =>
      (checkReferences_reports s here d member).at_place
    cases line with
    | opener kw inline head tail =>
        exact enter_at kept kw inline (here head pieces.1) (loopAt_of_slices here pieces.2)
    | arm which head tail => exact nextArm_at kept which tail (here head pieces.1)
    | closer kw head tail => exact leave_at kept kw (here head pieces.1)
    | setting name value => exact ⟨kept, references⟩
    | text => exact ⟨kept, references⟩
    | header name => exact ⟨kept, by simp⟩
    | blank => exact ⟨kept, by simp⟩

theorem finish_at {s : Stack} (kept : s.Keeps places) : ∀ d ∈ s.finish, d.At places :=
  unclosed_at kept

/-! ## The codes of each step -/

theorem checkName_code (s : Stack) (name : Span) :
    ∀ d ∈ s.checkName name, d.code.inBlocks = true := by
  unfold checkName
  split <;> simp [Diagnostic.ofProblem, Problem.code, Code.inBlocks, Code.ofBlocks]

theorem declareName_code (s : Stack) (kw : Keyword) (head : Span) (name : List Char) :
    ∀ d ∈ (s.declareName kw head name).2, d.code.inBlocks = true := by
  unfold declareName
  split <;> simp [Diagnostic.ofProblem, Problem.code, Code.inBlocks, Code.ofBlocks]

theorem forFrame_code (s : Stack) (head tail : Span) :
    ∀ d ∈ (s.forFrame head tail).2, d.code.inBlocks = true := by
  unfold forFrame
  cases loopParts? tail with
  | none => simp [Diagnostic.ofProblem, Problem.code, Code.inBlocks, Code.ofBlocks]
  | some parts =>
      obtain ⟨loopVar, collection⟩ := parts
      dsimp only
      cases collectionName? collection with
      | none => simp
      | some name => exact checkName_code s name

theorem enter_code (s : Stack) (kw : Keyword) (inline : Bool) (head tail : Span) :
    ∀ d ∈ (s.enter kw inline head tail).2, d.code.inBlocks = true := by
  cases kw with
  | «for» => exact forFrame_code s head tail
  | «if» =>
      simp only [enter, openFrame]
      split <;> simp [Diagnostic.ofProblem, Problem.code, Code.inBlocks, Code.ofBlocks]
  | var => exact declareName_code s .var head _
  | list => exact declareName_code s .list head _
  | csv => exact declareName_code s .csv head _
  | sql => simp [enter, openFrame]
  | script => simp [enter, openFrame]

theorem nextArm_code (s : Stack) (which : Arm) (head tail : Span) :
    ∀ d ∈ (s.nextArm which head tail).2, d.code.inBlocks = true := by
  unfold nextArm
  split
  · split
    · dsimp only
      split <;> simp [Diagnostic.ofProblem, Problem.code, Code.inBlocks, Code.ofBlocks]
    · simp [Diagnostic.ofProblem, Problem.code, Code.inBlocks, Code.ofBlocks]
  · simp [Diagnostic.ofProblem, Problem.code, Code.inBlocks, Code.ofBlocks]

theorem leave_code (s : Stack) (kw : Keyword) (head : Span) :
    ∀ d ∈ (s.leave kw head).2, d.code.inBlocks = true := by
  unfold leave
  split <;> simp [unclosed, Diagnostic.ofProblem, Problem.code, Code.inBlocks, Code.ofBlocks]

theorem textLine_code (s : Stack) (no : Nat) (line : List Char) :
    ∀ d ∈ (s.textLine no line).2, d.code.inBlocks = true := by
  unfold textLine
  split
  · split
    · simp only [tableLine]
      split
      · simp
      · split
        · simp
        · split <;> simp [Diagnostic.ofProblem, Problem.code, Code.inBlocks, Code.ofBlocks]
    · simp
  · simp

theorem step_code (s : Stack) (no : Nat) (text : List Char) (line : Line) :
    ∀ d ∈ (s.step no text line).2, d.code.inBlocks = true := by
  have references : ∀ d ∈ s.checkReferences no text, d.code.inBlocks = true := by
    intro d member
    unfold checkReferences at member
    split at member
    · obtain ⟨name, -, member⟩ := List.mem_flatMap.mp member
      exact checkName_code s name d member
    · cases member
  unfold step
  split
  · split
    · split
      · exact leave_code s _ _
      · exact textLine_code s no text
    · exact textLine_code s no text
  · cases line with
    | opener kw inline head tail => exact enter_code s kw inline head tail
    | arm which head tail => exact nextArm_code s which head tail
    | closer kw head tail => exact leave_code s kw head
    | setting name value => exact references
    | text => exact references
    | header name => simp
    | blank => simp

end Stack
end Block
end ChartLint
