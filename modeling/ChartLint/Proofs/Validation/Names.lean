import ChartLint.Proofs.Block.Accounts
import ChartLint.Proofs.Block.Name

/-!
# Known names

Which names are known on a line can be told from the lines before it: those that one of them
declares, and the variables of the loops that are still open (`Block.Known`). Declarations stay,
while the variable of a loop goes with the loop, also where the end of another block closes it.

* `Block.Stack.scoped_step` and `Block.Stack.scoped_after`: a stack knows these names and no others.
* `reference_reports`: in a loop exactly the references to other names are reported.
* `loop_reports`: a declared name is known as a collection if it consists of letters, digits and
  underscores. The name of a collection ends at any other character, that of a declaration does not.
-/

namespace ChartLint

open Block

def Line.Declares (name : String) : Line → Prop
  | .opener kw _ _ tail => (kw = .var ∨ kw = .list ∨ kw = .csv) ∧ name.toList ≠ [] ∧
      ∃ rest, Block.Declaration tail.text.toList name.toList rest
  | _ => False

def Line.LoopsWith (loopVar : String) : Line → Prop
  | .opener .for _ _ tail => ∃ collection, Loop tail.text.toList loopVar.toList collection
  | _ => False

namespace Block

def Declared (lines : List String) (name : String) : Prop :=
  ∃ n text, lines[n]? = some text ∧ (surroundingsAfter (lines.take n)).inText = false ∧
    (Line.classify n text).Declares name

def LoopsAt (lines : List String) (n : Nat) (loopVar : String) : Prop :=
  ∃ text, lines[n]? = some text ∧ (Line.classify n text).LoopsWith loopVar

/-- A name is declared by one of some lines, or it is the variable of a loop that is open after
them. -/
def Known (lines : List String) (name : String) : Prop :=
  Declared lines name ∨ ∃ n, (.for, n) ∈ surroundingsAfter lines ∧ LoopsAt lines n name

/-! ## One more line -/

theorem surroundings_concat (around : Surroundings) (no : Nat) (lines : List String)
    (text : String) :
    surroundings around no (Line.classifyFrom no (lines ++ [text])) =
      shift (surroundings around no (Line.classifyFrom no lines)) (no + lines.length)
        (Line.classify (no + lines.length) text) := by
  induction lines generalizing around no with
  | nil => rfl
  | cons first lines ih =>
      rw [List.length_cons, Nat.add_comm lines.length, ← Nat.add_assoc]
      exact ih _ (no + 1)

theorem surroundingsAfter_concat (lines : List String) (text : String) :
    surroundingsAfter (lines ++ [text]) =
      shift (surroundingsAfter lines) lines.length (Line.classify lines.length text) := by
  have shifted := surroundings_concat [] 0 lines text
  rwa [Nat.zero_add] at shifted

theorem declared_concat (lines : List String) (text name : String) :
    Declared (lines ++ [text]) name ↔ Declared lines name ∨
      (surroundingsAfter lines).inText = false ∧
        (Line.classify lines.length text).Declares name := by
  constructor
  · rintro ⟨n, found, at_, outside, declares⟩
    obtain ⟨bound, -⟩ := List.getElem?_eq_some_iff.mp at_
    rw [List.length_append, List.length_singleton] at bound
    rcases Nat.lt_succ_iff_lt_or_eq.mp bound with earlier | rfl
    · rw [List.getElem?_append_left earlier] at at_
      rw [List.take_append_of_le_length (Nat.le_of_lt earlier)] at outside
      exact .inl ⟨n, found, at_, outside, declares⟩
    · rw [List.getElem?_concat_length, Option.some.injEq] at at_
      subst at_
      rw [List.take_left] at outside
      exact .inr ⟨outside, declares⟩
  · rintro (⟨n, found, at_, outside, declares⟩ | ⟨outside, declares⟩)
    · obtain ⟨earlier, -⟩ := List.getElem?_eq_some_iff.mp at_
      refine ⟨n, found, ?_, ?_, declares⟩
      · rwa [List.getElem?_append_left earlier]
      · rwa [List.take_append_of_le_length (Nat.le_of_lt earlier)]
    · exact ⟨lines.length, text, List.getElem?_concat_length, by rwa [List.take_left], declares⟩

theorem loopsAt_concat {lines : List String} {n : Nat} (earlier : n < lines.length)
    (text name : String) :
    LoopsAt (lines ++ [text]) n name ↔ LoopsAt lines n name := by
  rw [LoopsAt, LoopsAt, List.getElem?_append_left earlier]

theorem loopsAt_last (lines : List String) (text name : String) :
    LoopsAt (lines ++ [text]) lines.length name ↔
      (Line.classify lines.length text).LoopsWith name := by
  simp [LoopsAt]

def Frame.Loops (lines : List String) (f : Frame) (block : Keyword × Nat) : Prop :=
  f.keyword = block.1 ∧ block.2 < lines.length ∧
    ∀ name, f.loopVar = some name ↔ block.1 = .for ∧ LoopsAt lines block.2 name

namespace Stack

variable {s : Stack} {lines : List String}

structure Scoped (lines : List String) (s : Stack) : Prop where
  declared : ∀ name, name ∈ s.declared ↔ Declared lines name
  frames : List.Forall₂ (Frame.Loops lines) s.frames (surroundingsAfter lines)

theorem mem_declareName (s : Stack) (kw : Keyword) (head : Span) (inner : List Char)
    (name : String) :
    name ∈ (s.declareName kw head inner).1 ↔
      name ∈ s.declared ∨ name.toList ≠ [] ∧ inner = name.toList := by
  unfold declareName
  split
  · rename_i empty
    rw [List.isEmpty_iff] at empty
    subst empty
    refine ⟨.inl, ?_⟩
    rintro (held | ⟨filled, eq⟩)
    · exact held
    · exact absurd eq.symm filled
  · rename_i filled
    rw [List.mem_cons, or_comm]
    refine or_congr_right ⟨?_, ?_⟩
    · rintro rfl
      simpa using filled
    · rintro ⟨-, rfl⟩
      exact String.ofList_toList.symm

theorem exists_declaration_iff (tail name : List Char) :
    (∃ rest, Declaration tail name rest) ↔ (declarationParts tail).1 = name := by
  constructor
  · rintro ⟨rest, declaration⟩
    rw [declaration_iff.mp declaration]
  · rintro rfl
    exact ⟨_, declaration_declarationParts tail⟩

theorem declared_leave (s : Stack) (kw : Keyword) (head : Span) :
    (s.leave kw head).1.declared = s.declared := by
  unfold leave
  split <;> rfl

theorem declared_textLine (s : Stack) (no : Nat) (text : List Char) :
    (s.textLine no text).1.declared = s.declared := by
  unfold textLine
  split
  · split <;> rfl
  · rfl

theorem declared_nextArm (s : Stack) (which : Arm) (head tail : Span) :
    (s.nextArm which head tail).1.declared = s.declared := by
  unfold nextArm
  split
  · split <;> rfl
  · rfl

theorem mem_declared_openFrame (s : Stack) (kw : Keyword) (inline : Bool) (head tail : Span)
    (name : String) :
    name ∈ (s.openFrame kw head tail).1.declared ↔
      name ∈ s.declared ∨ (Line.opener kw inline head tail).Declares name := by
  simp only [Line.Declares, exists_declaration_iff]
  cases kw with
  | var => simp [openFrame, mem_declareName]
  | list => simp [openFrame, mem_declareName]
  | csv => simp [openFrame, mem_declareName]
  | _ => simp [openFrame]

theorem mem_declared_step (s : Stack) (no : Nat) (text : List Char) (line : Line) (name : String) :
    name ∈ (s.step no text line).1.declared ↔
      name ∈ s.declared ∨ s.inText = false ∧ line.Declares name := by
  unfold step
  split
  · rename_i own
    have none_ : ¬ (s.inText = false ∧ line.Declares name) := by simp [own]
    rw [or_iff_left none_]
    split
    · split
      · rw [declared_leave]
      · rw [declared_textLine]
    · rw [declared_textLine]
  · rename_i outside
    rw [Bool.not_eq_true] at outside
    cases line with
    | opener kw inline head tail =>
        have entered : (s.enter kw inline head tail).1.declared =
            (s.openFrame kw head tail).1.declared := by
          cases inline <;> rfl
        rw [entered, mem_declared_openFrame s kw inline, outside]
        simp
    | arm which head tail => simp [declared_nextArm, Line.Declares]
    | closer kw head tail => simp [declared_leave, Line.Declares]
    | _ => simp [Line.Declares]

theorem loopVar_openFrame (s : Stack) (kw : Keyword) (head tail : Span) (name : String) :
    (s.openFrame kw head tail).2.1.loopVar = some name ↔
      kw = .for ∧ (Line.opener kw false head tail).LoopsWith name := by
  cases kw with
  | «for» =>
      simp only [openFrame, forFrame, Line.LoopsWith, true_and]
      cases parts : loopParts? tail with
      | none =>
          simp only [reduceCtorEq, false_iff]
          rintro ⟨collection, loop⟩
          obtain ⟨column, found⟩ := loopParts?_of_loop loop
          rw [parts] at found
          cases found
      | some pair =>
          obtain ⟨loopVar, collection⟩ := pair
          simp only [Option.some.injEq]
          constructor
          · rintro rfl
            exact ⟨_, loop_of_loopParts? parts⟩
          · rintro ⟨collection', loop⟩
            obtain ⟨column, found⟩ := loopParts?_of_loop loop
            rw [parts, String.ofList_toList] at found
            exact congrArg Prod.fst (Option.some.inj found)
  | _ => simp [openFrame]

theorem scoped_empty : Scoped [] {} where
  declared := by simp [Declared]
  frames := .nil

theorem Scoped.inText_eq (scope : Scoped lines s) :
    s.inText = (surroundingsAfter lines).inText := by
  rw [Stack.inText_eq, opened_of_related scope.frames fun _ _ loops => loops.1, Surroundings.inText]

theorem scoped_step (scope : Scoped lines s) (text : String) :
    Scoped (lines ++ [text])
      (s.step lines.length text.toList (Line.classify lines.length text)).1 where
  declared := by
    intro name
    rw [mem_declared_step, declared_concat, scope.declared, scope.inText_eq]
  frames := by
    have later : lines.length < (lines ++ [text]).length := by simp
    rw [surroundingsAfter_concat]
    refine forall₂_step scope.frames (fun _ _ loops => loops.1) ?_ ?_ ?_
    · rintro f block table ⟨same, earlier, loops⟩
      refine ⟨same, Nat.lt_trans earlier later, fun name => ?_⟩
      rw [loopsAt_concat earlier]
      exact loops name
    · rintro f start ⟨same, -, loops⟩ -
      refine ⟨same, later, fun name => ?_⟩
      simpa using loops name
    · intro kw head tail outside line
      have loop : LoopAt (fun _ => True) tail := fun _ _ _ _ _ => trivial
      obtain ⟨-, keyword, -, -⟩ := openFrame_reports s kw head trivial loop
      refine ⟨keyword, later, fun name => ?_⟩
      rw [loopVar_openFrame, loopsAt_last, line]

theorem exists_loopVar_iff {fs : List Frame} {around : Surroundings}
    (frames : List.Forall₂ (Frame.Loops lines) fs around) (name : String) :
    (∃ f ∈ fs, f.loopVar = some name) ↔ ∃ n, (.for, n) ∈ around ∧ LoopsAt lines n name := by
  induction frames with
  | nil => simp
  | @cons f block fs around loops _ ih =>
      rw [List.exists_mem_cons_iff, ih, loops.2.2 name]
      obtain ⟨kw, n⟩ := block
      constructor
      · rintro (⟨rfl, here⟩ | ⟨n, open_, here⟩)
        · exact ⟨n, List.mem_cons_self, here⟩
        · exact ⟨n, List.mem_cons_of_mem _ open_, here⟩
      · rintro ⟨n', open_, here⟩
        rcases List.mem_cons.mp open_ with same | open_
        · obtain ⟨rfl, rfl⟩ := Prod.mk.inj same
          exact .inl ⟨rfl, here⟩
        · exact .inr ⟨n', open_, here⟩

theorem Scoped.knows_iff (scope : Scoped lines s) (name : String) :
    s.knows name = true ↔ Known lines name := by
  rw [knows, Bool.or_eq_true, List.contains_iff_mem, scope.declared, Known,
    ← exists_loopVar_iff scope.frames]
  simp

theorem Scoped.loops_iff (scope : Scoped lines s) :
    (s.frames.any fun f => f.keyword == .for) = true ↔
      .for ∈ (surroundingsAfter lines).map Prod.fst := by
  rw [← opened_of_related scope.frames fun _ _ loops => loops.1]
  simp [opened]

def after (lines : List String) : Stack :=
  lines.zipIdx.foldl (fun s line => (s.step line.2 line.1.toList (Line.classify line.2 line.1)).1)
    {}

theorem after_concat (lines : List String) (text : String) :
    after (lines ++ [text]) =
      ((after lines).step lines.length text.toList (Line.classify lines.length text)).1 := by
  simp [after, List.zipIdx_append]

theorem scoped_after (lines : List String) : Scoped lines (after lines) := by
  induction lines using List.reverseRecOn with
  | nil => exact scoped_empty
  | append_singleton lines text ih =>
      rw [after_concat]
      exact scoped_step ih text

end Stack

instance (lines : List String) (name : String) : Decidable (Known lines name) :=
  decidable_of_iff _ ((Stack.scoped_after lines).knows_iff name)

/-! ## References -/

def unknownReferences (before : List String) (found : List (List Char × Nat)) : List Diagnostic :=
  if .for ∈ (surroundingsAfter before).map Prod.fst then
    (found.filter fun r => Name (Text.trim r.1) ∧
      ¬ Known before (String.ofList (Text.trim r.1))).map
      fun r => .ofProblem (.unknownName (String.ofList (Text.trim r.1)))
        (.trimmed r.1 before.length r.2)
  else []

namespace Stack

variable {s : Stack} {lines : List String}

theorem checkName_eq_nil_iff (s : Stack) (name : Span) :
    s.checkName name = [] ↔ s.knows name.text = true := by
  unfold checkName
  split
  · simp_all
  · simp_all

theorem code_of_mem_checkName (s : Stack) (name : Span) :
    ∀ d ∈ s.checkName name, d.code = .unknownName := by
  unfold checkName
  split
  · simp
  · simp [Diagnostic.ofProblem, Problem.code]

theorem checkReferences_eq (scope : Scoped lines s) {cs : List Char}
    {found : List (List Char × Nat)}
    (segments : Segments 0 cs found) :
    s.checkReferences lines.length cs = unknownReferences lines found := by
  unfold checkReferences unknownReferences
  refine if_congr scope.loops_iff ?_ rfl
  rw [referredNames, references_of_segments segments]
  clear segments
  induction found with
  | nil => rfl
  | cons r found ih =>
      by_cases named : Name (Text.trim r.1)
      · have text : (Span.trimmed r.1 lines.length r.2).text = String.ofList (Text.trim r.1) := rfl
        by_cases known : Known lines (String.ofList (Text.trim r.1))
        · have knows := (scope.knows_iff _).mpr known
          simp [(name_iff _).mp named, checkName, text, knows, known, ih]
        · have unknown : s.knows (String.ofList (Text.trim r.1)) = false := by
            rw [← Bool.not_eq_true, scope.knows_iff]
            exact known
          simp [(name_iff _).mp named, named, checkName, text, unknown, known, ih]
      · have other : ¬ isName (Text.trim r.1) = true := fun name => named ((name_iff _).mpr name)
        simp [named, other, ih]

/-! ## Collections -/

theorem checkCollection_ne_nil_iff (collection : Span)
    (plain : ∀ c ∈ collection.text.toList, Text.isBlank c = false)
    (known : s.knows collection.text = true) :
    (collectionName? collection).elim [] s.checkName ≠ [] ↔
      ∃ base c rest, collection.text.toList = base ++ c :: rest ∧ Name base ∧ inName c = false ∧
        c ≠ '(' ∧ ¬ ['@', '\x7b'] <:+: collection.text.toList ∧
        s.knows (String.ofList base) = false := by
  constructor
  · intro reported
    cases found : collectionName? collection with
    | none => simp [found] at reported
    | some place =>
        simp only [found, Option.elim_some] at reported
        unfold collectionName? at found
        obtain ⟨free, same⟩ := Option.ite_none_left_eq_some.mp found
        obtain ⟨split, within, boundary⟩ := Text.cut_self inName collection.text.toList
        generalize collection.text.toList.takeWhile inName = base at *
        generalize collection.text.toList.dropWhile inName = rest at *
        obtain rfl := Option.some.inj same
        have unknown : s.knows (String.ofList base) = false := by
          rwa [Ne, checkName_eq_nil_iff, Bool.not_eq_true] at reported
        cases rest with
        | nil =>
            -- the whole name would be the name looked up
            rw [List.append_nil] at split
            rw [← split, String.ofList_toList, known] at unknown
            cases unknown
        | cons c rest =>
            simp only [not_or, Text.contains_iff] at free
            obtain ⟨-, unmarked, filled, called⟩ := free
            have solid : Text.isBlank c = false := plain c (by simp [split])
            refine ⟨base, c, rest, split, ?_, boundary c rfl, ?_, unmarked, unknown⟩
            · exact ⟨filled, fun d member => (inName_iff d).mp (within d member)⟩
            · rintro rfl
              exact called rfl
  · rintro ⟨base, c, rest, split, named, stops, called, unmarked, unknown⟩
    have within : ∀ d ∈ base, inName d = true :=
      fun d member => (inName_iff d).mpr (named.2 d member)
    have cut : Text.Cut inName collection.text.toList base (c :: rest) :=
      ⟨split, within, by simpa using stops⟩
    have solid : Text.isBlank c = false := plain c (by simp [split])
    have trimmed : Text.trimStart (c :: rest) = c :: rest := by simp [Text.trimStart, solid]
    have first : collection.text.toList.head? ≠ some '[' := by
      obtain ⟨d, base, rfl⟩ := List.exists_cons_of_ne_nil named.1
      rw [split]
      rintro bracket
      obtain rfl : d = '[' := by simpa using bracket
      exact absurd (within '[' List.mem_cons_self) (by decide)
    have found : collectionName? collection =
        some (.place base collection.line collection.start) := by
      unfold collectionName?
      dsimp only
      rw [cut.eq.1, cut.eq.2, trimmed, if_neg]
      simp only [not_or, Text.contains_iff]
      exact ⟨first, unmarked, named.1, by simpa using called⟩
    rw [found, Option.elim_some, Ne, checkName_eq_nil_iff, Bool.not_eq_true]
    exact unknown

end Stack

theorem Declared.plain {lines : List String} {name : String} (declared : Declared lines name) :
    ∀ c ∈ name.toList, Text.isBlank c = false := by
  obtain ⟨n, line, -, -, declares⟩ := declared
  cases kind : Line.classify n line with
  | opener kw inline head tail =>
      rw [kind] at declares
      obtain ⟨-, -, rest, declaration⟩ := declares
      exact fun c member => (declaration.plain c member).2
  | _ =>
      rw [kind] at declares
      cases declares

end Block

namespace Pass

variable (env : Environment)

theorem blocks_run (lines : List String) :
    (Pass.run env {} 0 lines).1.blocks = Stack.after lines := by
  induction lines using List.reverseRecOn with
  | nil => rfl
  | append_singleton lines text ih =>
      rw [run_append, Nat.zero_add, Stack.after_concat, ← ih]
      exact blocks_step env _ _ _

theorem mem_visits (p : Pass) (no : Nat) (before : List String) (text : String)
    (after : List String) :
    Visit.mk (p.run env no before).1 (no + before.length) text ∈
      p.visits env no (before ++ text :: after) := by
  induction before generalizing p no with
  | nil => exact List.mem_cons_self
  | cons first before ih =>
      rw [List.length_cons, Nat.add_comm before.length, ← Nat.add_assoc]
      exact List.mem_cons_of_mem _ (ih _ (no + 1))

end Pass

section Document

variable (env : Environment) {before : List String} {text : String} (after : List String)

def unknownAt (no : Nat) (d : Diagnostic) : Bool :=
  d.code == .unknownName && d.range.start.line == no

theorem filter_unknownAt (before : List String) (text : String) :
    (reports env (before ++ text :: after)).filter (unknownAt before.length) =
      ((Stack.after before).step before.length text.toList
        (Line.classify before.length text)).2.filter fun d => d.code == .unknownName := by
  have visited := Pass.mem_visits env {} 0 before text after
  rw [Nat.zero_add] at visited
  rw [filter_reports_at visited, ← Pass.blocks_run env]
  · refine List.filter_congr fun d member => ?_
    rw [unknownAt, Bool.and_eq_left_iff_imp]
    intro unknown
    rw [beq_iff_eq] at unknown ⊢
    exact (Visit.turns _).line_of_mem member (by simp [unknown])
  · intro d chosen
    simp only [unknownAt, Bool.and_eq_true, beq_iff_eq] at chosen
    rw [chosen.1]
    exact ⟨rfl, by decide, chosen.2⟩

/-- A line that is a text or a setting has references, and if it stands in a loop, the names among
them that are not known are reported in their order, each where it stands. Elsewhere none is. -/
theorem reference_reports (before : List String) (text : String)
    (outside : (surroundingsAfter before).inText = false)
    (plain : Line.classify before.length text = .text ∨
      ∃ name value, Line.classify before.length text = .setting name value) :
    (∃ found, Segments 0 text.toList found) ∧ ∀ found, Segments 0 text.toList found →
      (Pass.run env {} 0 before).1.blocks.checkReferences before.length text.toList =
          unknownReferences before found ∧
        (reports env (before ++ text :: after)).filter (unknownAt before.length) =
          unknownReferences before found ∧
        ∀ r ∈ found, ∀ place, place = Span.trimmed r.1 before.length r.2 →
          text.toUTF8.extract place.start place.stop = (String.ofList (Text.trim r.1)).toUTF8 := by
  refine ⟨⟨_, segments_references 0 text.toList⟩, fun found segments => ?_⟩
  have scope := Stack.scoped_after before
  have checked := Stack.checkReferences_eq scope segments
  refine ⟨by rw [Pass.blocks_run, checked], ?_, ?_⟩
  · have step : ((Stack.after before).step before.length text.toList
        (Line.classify before.length text)).2 = unknownReferences before found := by
      rw [← checked, Stack.step.eq_def, scope.inText_eq, outside]
      rcases plain with line | ⟨name, value, line⟩
      · rw [line]
        rfl
      · rw [line]
        rfl
    rw [filter_unknownAt, step, ← checked, List.filter_eq_self]
    intro d member
    unfold Stack.checkReferences at member
    split at member
    · obtain ⟨name, -, member⟩ := List.mem_flatMap.mp member
      simp [Stack.code_of_mem_checkName _ name d member]
    · cases member
  · rintro r member place rfl
    have bytes := (segments.slices before.length r member).extract
    rwa [String.ofList_toList] at bytes

theorem reference_reports_setting :
    (surroundingsAfter ["list xs = a", "for x in xs"]).inText = false ∧
      Segments 0 "t = @\x7b y \x7d @\x7bx.z\x7d @\x7bx\x7d@\x7bq".toList
        [(" y ".toList, 6), ("x.z".toList, 13), ("x".toList, 20)] ∧
      (reports seriesEnvironment (["list xs = a", "for x in xs"] ++
        "t = @\x7b y \x7d @\x7bx.z\x7d @\x7bx\x7d@\x7bq" :: ["endfor"])).filter (unknownAt 2) =
          [.ofProblem (.unknownName "y") ⟨"y", 2, 7, 8⟩] := by
  have outside : (surroundingsAfter ["list xs = a", "for x in xs"]).inText = false := by decide
  have split : "t = @\x7b y \x7d @\x7bx.z\x7d @\x7bx\x7d@\x7bq".toList =
      "t = ".toList ++ '@' :: '\x7b' :: (" y ".toList ++ '\x7d' :: (" ".toList ++ '@' :: '\x7b' ::
        ("x.z".toList ++ '\x7d' :: (" ".toList ++ '@' :: '\x7b' :: ("x".toList ++ '\x7d' ::
          ([] ++ '@' :: '\x7b' :: "q".toList)))))) := by decide
  have segments : Segments 0 "t = @\x7b y \x7d @\x7bx.z\x7d @\x7bx\x7d@\x7bq".toList
      [(" y ".toList, 6), ("x.z".toList, 13), ("x".toList, 20)] := by
    rw [split]
    exact .closed _ (by decide) (by decide) (.closed _ (by decide) (by decide)
      (.closed _ (by decide) (by decide) (.unclosed _ (by decide) (by decide))))
  refine ⟨outside, segments, ?_⟩
  have found := ((reference_reports seriesEnvironment ["endfor"] _ _ outside
    (.inr ⟨_, _, rfl⟩)).2 _ segments).2.1
  exact found.trans (by decide)

theorem filter_loop {head tail : Span} {loopVar collection : List Char}
    (outside : (surroundingsAfter before).inText = false)
    (starts : Line.StartsWith before.length text.toList "for" head tail)
    (loop : Loop tail.text.toList loopVar collection) :
    ∃ column, (reports env (before ++ text :: after)).filter (unknownAt before.length) =
      (collectionName? (.place collection tail.line column)).elim []
        (Stack.after before).checkName := by
  have form : Line.Form before.length text.toList (.opener .for false head tail) := .opener starts
  have line : Line.classify before.length text = .opener .for false head tail :=
    Line.ofChars_of_form form
  obtain ⟨column, parts⟩ := loopParts?_of_loop loop
  have step : ((Stack.after before).step before.length text.toList
      (Line.classify before.length text)).2 =
        (collectionName? (.place collection tail.line column)).elim []
          (Stack.after before).checkName := by
    rw [line, Stack.step.eq_def, (Stack.scoped_after before).inText_eq, outside]
    simp [Stack.enter, Stack.openFrame, Stack.forFrame, parts]
  refine ⟨column, ?_⟩
  rw [filter_unknownAt, step, List.filter_eq_self]
  cases collectionName? (.place collection tail.line column) with
  | none => simp
  | some place =>
      intro d member
      simp [Stack.code_of_mem_checkName _ place d member]

/-- A declared name is known as a collection if it consists of letters, digits and underscores. Any
other is cut where it has another character, and the loop is reported if what is left is not known.
Calls and texts with references are never reported. -/
theorem loop_reports {head tail : Span} {loopVar name : List Char}
    (outside : (surroundingsAfter before).inText = false)
    (declared : Declared before (String.ofList name))
    (starts : Line.StartsWith before.length text.toList "for" head tail)
    (loop : Loop tail.text.toList loopVar name) :
    (Name name → (reports env (before ++ text :: after)).filter (unknownAt before.length) = []) ∧
      ((reports env (before ++ text :: after)).filter (unknownAt before.length) ≠ [] ↔
        ∃ base c rest, name = base ++ c :: rest ∧ Name base ∧
          ¬ (Line.Letter c ∨ Line.Digit c ∨ c = '_') ∧ c ≠ '(' ∧ ¬ ['@', '\x7b'] <:+: name ∧
          ¬ Known before (String.ofList base)) := by
  have scope := Stack.scoped_after before
  obtain ⟨column, found⟩ := filter_loop env after outside starts loop
  have reported := Stack.checkCollection_ne_nil_iff (.place name tail.line column)
    declared.plain ((scope.knows_iff _).mpr (.inl declared))
  simp only [Span.text_place, String.toList_ofList, ← Bool.not_eq_true, scope.knows_iff, inName_iff]
    at reported
  rw [found]
  refine ⟨fun named => ?_, reported⟩
  by_contra other
  obtain ⟨base, c, rest, rfl, -, outsideName, -⟩ := reported.mp other
  exact outsideName (named.2 c (by simp))

theorem loop_reports_indented :
    (surroundingsAfter ["list x_1 =", "a", "endlist"]).inText = false ∧
      Declared ["list x_1 =", "a", "endlist"] "x_1" ∧
        Loop "v in x_1".toList "v".toList "x_1".toList ∧
      (reports seriesEnvironment (["list x_1 =", "a", "endlist"] ++ "\tfor v in x_1" :: [])).filter
        (unknownAt 3) = [] := by
  have outside : (surroundingsAfter ["list x_1 =", "a", "endlist"]).inText = false := by decide
  have scope := Stack.scoped_after ["list x_1 =", "a", "endlist"]
  have declared : Declared ["list x_1 =", "a", "endlist"] (String.ofList "x_1".toList) :=
    (scope.declared _).mp (by decide)
  have starts : Line.StartsWith 3 "\tfor v in x_1".toList "for" ⟨"for", 3, 1, 4⟩
      ⟨"v in x_1", 3, 5, 13⟩ :=
    Line.startsWith_iff.mpr (by decide)
  have parts : loopParts? ⟨"v in x_1", 3, 5, 13⟩ = some ("v", ⟨"x_1", 3, 10, 13⟩) := by decide
  have loop := loop_of_loopParts? parts
  refine ⟨outside, declared, loop, ?_⟩
  exact (loop_reports seriesEnvironment [] outside declared starts loop).1
    ((name_iff _).mpr (by decide))

/-- A declared name that is unknown as a collection. -/
theorem loop_reports_hyphen :
    (surroundingsAfter ["var my-hosts = 5"]).inText = false ∧
      Declared ["var my-hosts = 5"] "my-hosts" ∧
        Loop "v in my-hosts".toList "v".toList "my-hosts".toList ∧
      reports seriesEnvironment ["var my-hosts = 5", "for v in my-hosts", "endfor"] =
        [.ofProblem (.unknownName "my") ⟨"my", 1, 9, 11⟩] := by
  have scope := Stack.scoped_after ["var my-hosts = 5"]
  have declared : Declared ["var my-hosts = 5"] "my-hosts" := (scope.declared _).mp (by decide)
  have parts : loopParts? ⟨"v in my-hosts", 1, 4, 17⟩ = some ("v", ⟨"my-hosts", 1, 9, 17⟩) := by
    decide
  exact ⟨by decide, declared, loop_of_loopParts? parts, by decide⟩

end Document
end ChartLint
