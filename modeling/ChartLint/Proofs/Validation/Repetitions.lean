import ChartLint.Proofs.Setting.Occurrences
import ChartLint.Proofs.Validation.UnknownSections

/-!
# Reports on repeated settings

A pass reports that a setting is repeated only on the line of the declaration, and the line changes
nothing then: `Pass.step_of_repeated`. So no section keeps the place of such a report, and all other
reports on the line are on the same declaration. None of them has both the range and the message,
and the report is kept when those without news are dropped: `eq_of_repeated`.
-/

namespace ChartLint

namespace Pass

variable {env : Environment} {p : Pass} {no : Nat} {text : String} {d : Diagnostic}

theorem isRepetition_of_inBlocks {d : Diagnostic} (code : d.code.inBlocks = true) :
    d.isRepetition = false := by
  rw [Diagnostic.isRepetition, beq_eq_false_iff_ne]
  intro same
  rw [same] at code
  cases code

theorem isRepetition_of_ofReading {d : Diagnostic} (code : d.code.ofReading = false) :
    d.isRepetition = false := by
  rw [Diagnostic.isRepetition, beq_eq_false_iff_ne]
  intro same
  rw [same] at code
  cases code

theorem checkSetting_isRepetition (env : Environment) (p : Pass) (s : Setting) :
    ∀ d ∈ (p.checkSetting env s).2, d.isRepetition = false := by
  intro d member
  have report : Report Code.ofReading (fun _ => True) d :=
    (checkSetting_reports env trivial fun _ => trivial).2 d member
  exact isRepetition_of_ofReading report.code

theorem checkSetting_fst (env : Environment) (p : Pass) (s : Setting) :
    ∃ date, (p.checkSetting env s).1 = { s with date } := by
  unfold checkSetting Setting.check
  dsimp only
  split
  · exact ⟨s.date, rfl⟩
  · dsimp only
    split
    · exact ⟨.broken, rfl⟩
    · exact ⟨s.date, rfl⟩

theorem finish_isRepetition (p : Pass) : ∀ d ∈ p.finish env, d.isRepetition = false := by
  unfold finish
  dsimp only
  rw [List.forall_mem_append, List.forall_mem_append]
  refine ⟨⟨?_, ?_⟩, ?_⟩
  · exact fun d member => isRepetition_of_ofReading
      (OpenPath.finish_reports env.catalog p.path (keeps_any p).path d member).code
  · intro d member
    obtain ⟨frame, -, rfl⟩ := List.mem_map.mp member
    rfl
  · exact fun d member => isRepetition_of_ofReading
      (Rule.run_reports (keeps_any p.flush).tree _ _ d member).code

/-! ## The line of a repetition -/

theorem declare_of_mem {s : Setting} (member : d ∈ (p.declare env s).2) :
    ∃ earlier, d = repetition earlier s ∧ p.declare env s = (p, [d]) := by
  unfold declare at member ⊢
  cases pending : p.pending with
  | none =>
      rw [pending] at member
      cases member
  | some current =>
      rw [pending] at member
      dsimp only at member ⊢
      cases found : current.earlier? s.descriptor.name p.blocks.arm with
      | none =>
          rw [found] at member
          cases member
      | some earlier =>
          rw [found] at member
          dsimp only at member ⊢
          split_ifs at member ⊢ with several
          · cases member
          · rw [List.mem_singleton.mp member]
            exact ⟨earlier, rfl, rfl⟩

theorem setting_of_repeated {name value : Span} (member : d ∈ (p.setting env name value).2)
    (repeated : d.isRepetition = true) :
    ∃ descriptor earlier,
      d = repetition earlier (p.checkSetting env { descriptor, name, value }).1 ∧
      p.setting env name value =
        (p, (p.checkSetting env { descriptor, name, value }).2 ++ [d]) := by
  unfold setting at member ⊢
  split_ifs at member ⊢ with passed
  · cases member
  · cases resolved : env.catalog.resolve name.text p.scope with
    | exempt =>
        rw [resolved] at member
        cases member
    | unknown =>
        rw [resolved] at member
        rw [List.mem_singleton.mp member] at repeated
        cases repeated
    | known descriptor =>
        rw [resolved] at member
        dsimp only at member ⊢
        rcases List.mem_append.mp member with checked | declared
        · rw [checkSetting_isRepetition env p _ d checked] at repeated
          cases repeated
        · obtain ⟨earlier, which, after⟩ := declare_of_mem declared
          refine ⟨descriptor, earlier, which, ?_⟩
          rw [after]

theorem blocks_step_setting (outside : p.blocks.inText = false) (name value : Span)
    (no : Nat) (cs : List Char) :
    p.blocks.step no cs (.setting name value) = (p.blocks, p.blocks.checkReferences no cs) := by
  simp [Block.Stack.step, outside]

theorem step_setting (outside : p.blocks.inText = false) {name value : Span}
    (line : Line.classify no text = .setting name value) :
    p.step env no text = ((p.setting env name value).1,
      p.blocks.checkReferences no text.toList ++ (p.setting env name value).2) := by
  rw [step, line, blocks_step_setting outside, outside]
  dsimp only
  rw [if_neg Bool.false_ne_true, sectionStep]

theorem step_of_repeated (member : d ∈ (p.step env no text).2) (repeated : d.isRepetition = true) :
    ∃ name value descriptor earlier,
      Line.classify no text = .setting name value ∧
      d = repetition earlier (p.checkSetting env { descriptor, name, value }).1 ∧
      p.step env no text = (p, p.blocks.checkReferences no text.toList ++
        ((p.checkSetting env { descriptor, name, value }).2 ++ [d])) := by
  have quiet : d ∉ (p.blocks.step no text.toList (Line.classify no text)).2 := by
    intro found
    rw [isRepetition_of_inBlocks (p.blocks.step_code no text.toList _ d found)] at repeated
    cases repeated
  cases outside : p.blocks.inText with
  | true =>
      rw [step, outside] at member
      exact absurd member quiet
  | false =>
      cases line : Line.classify no text with
      | setting name value =>
          rw [line, blocks_step_setting outside] at quiet
          rw [step_setting outside line] at member ⊢
          have found := (List.mem_append.mp member).resolve_left quiet
          obtain ⟨descriptor, earlier, which, after⟩ := setting_of_repeated found repeated
          exact ⟨name, value, descriptor, earlier, rfl, which, by rw [after]⟩
      | header name =>
          rw [step, line, outside] at member
          rw [line] at quiet
          have found := (List.mem_append.mp member).resolve_left quiet
          have report := (header_reports env (keeps_any _) trivial).2 d found
          rw [isRepetition_of_ofReading report.code] at repeated
          cases repeated
      | _ =>
          rw [step, line, outside] at member
          rw [line] at quiet
          cases (List.mem_append.mp member).resolve_left quiet

theorem line_of_repeated (member : d ∈ (p.step env no text).2) (repeated : d.isRepetition = true) :
    d.range.start.line = no := by
  obtain ⟨name, value, descriptor, earlier, line, rfl, -⟩ := step_of_repeated member repeated
  obtain ⟨date, checked⟩ := checkSetting_fst env p { descriptor, name, value }
  have pieces := Line.pieces_classify no text
  rw [line] at pieces
  rw [checked]
  exact (pieces.slices name List.mem_cons_self).1

theorem exists_line_of_mem_run {lines : List String} (member : d ∈ (p.run env no lines).2) :
    ∃ before text after, lines = before ++ text :: after ∧
      d ∈ ((p.run env no before).1.step env (no + before.length) text).2 := by
  induction lines generalizing p no with
  | nil => cases member
  | cons text lines ih =>
      rcases List.mem_append.mp member with here | later
      · exact ⟨[], text, lines, rfl, here⟩
      · obtain ⟨before, text', after, rfl, found⟩ := ih later
        refine ⟨text :: before, text', after, rfl, ?_⟩
        rw [List.length_cons, Nat.add_comm before.length, ← Nat.add_assoc]
        exact found

theorem line_of_repeated_run {lines : List String} (member : d ∈ (p.run env no lines).2)
    (repeated : d.isRepetition = true) :
    no ≤ d.range.start.line ∧ d.range.start.line < no + lines.length := by
  obtain ⟨before, text, after, rfl, found⟩ := exists_line_of_mem_run member
  rw [line_of_repeated found repeated, List.length_append, List.length_cons]
  omega

/-! ## Other reports on the line -/

theorem message_checkReferences {s : Block.Stack} {cs : List Char}
    (member : d ∈ s.checkReferences no cs) :
    ∃ name, d.message = (Problem.unknownName name).message := by
  unfold Block.Stack.checkReferences at member
  split at member
  · obtain ⟨name, -, found⟩ := List.mem_flatMap.mp member
    unfold Block.Stack.checkName at found
    split at found
    · cases found
    · rw [List.mem_singleton.mp found]
      exact ⟨name.text, rfl⟩
  · cases member

theorem checkSetting_at {s : Setting} (member : d ∈ (p.checkSetting env s).2) :
    (d.range = s.value.range ∧ s.value.text.isEmpty = false) ∨
      (∃ notice, d.message = (Problem.deprecatedSetting s.descriptor.name notice).message) ∨
      d.message = (Problem.emptyValue s.descriptor.name).message := by
  unfold checkSetting at member
  rcases List.mem_append.mp member with noticed | checked
  · cases deprecated : s.descriptor.deprecated with
    | none =>
        rw [deprecated] at noticed
        cases noticed
    | some notice =>
        rw [deprecated] at noticed
        rw [List.mem_singleton.mp noticed]
        exact .inr (.inl ⟨notice, rfl⟩)
  · unfold Setting.check at checked
    cases found : @Setting.problem? env.options.zones s ⟨env.now, p.zone env⟩ s.value with
    | none =>
        rw [found] at checked
        cases checked
    | some entry =>
        obtain ⟨q, place⟩ := entry
        rw [found] at checked
        rw [List.mem_singleton.mp checked]
        unfold Setting.problem? at found
        split_ifs at found with computed empty
        · cases found
          exact .inr (.inr rfl)
        · obtain ⟨q, -, pair⟩ := Option.map_eq_some_iff.mp found
          cases pair
          exact .inl ⟨rfl, Bool.not_eq_true _ ▸ empty⟩

end Pass

theorem message_repeatedSetting (name : String) :
    (Problem.repeatedSetting name).message = name ++ " is already defined" := rfl

theorem unknownName_ne (name other : String) :
    (Problem.unknownName name).message ≠ (Problem.repeatedSetting other).message := by
  have quoted : (Problem.unknownName name).message = "unknown name '" ++ name ++ "'" := rfl
  rw [message_repeatedSetting, quoted]
  intro same
  have last := congrArg (fun text => text.toList.getLast?) same
  simp [List.getLast?_cons] at last

theorem deprecatedSetting_ne (name notice : String) :
    (Problem.deprecatedSetting name notice).message ≠ (Problem.repeatedSetting name).message := by
  have begun : (Problem.deprecatedSetting name notice).message =
      name ++ " is deprecated. " ++ notice := rfl
  rw [message_repeatedSetting, begun]
  intro same
  have chars := congrArg String.toList same
  simp at chars

theorem emptyValue_ne (name : String) :
    (Problem.emptyValue name).message ≠ (Problem.repeatedSetting name).message := by
  have begun : (Problem.emptyValue name).message = name ++ " must not be empty" := rfl
  rw [message_repeatedSetting, begun]
  intro same
  have chars := congrArg String.toList same
  simp at chars

theorem Line.start_lt_of_setting {no : Nat} {text : String} {name value : Span}
    (line : classify no text = .setting name value) : name.start < value.start := by
  have form := form_ofChars no text.toList (by rw [← classify, line]; simp)
  rw [← classify, line] at form
  cases form with
  | setting lead filled free split first single trims named valued =>
      obtain ⟨margin, core, trail, rfl, -, -, -, -, rfl⟩ := trims
      obtain ⟨margin', core', trail', rfl, -, -, -, -, rfl⟩ := valued
      simp only [Span.place, Text.byteLength_append, Text.byteLength_cons, Text.byteLength_nil]
      have sign : '='.utf8Size = 1 := by decide
      omega

namespace Pass

theorem key_ne_of_line {env : Environment} {p : Pass} {no : Nat} {text : String} {name value : Span}
    {descriptor : Descriptor} (line : Line.classify no text = .setting name value)
    (earlier : Setting) {e : Diagnostic}
    (member : e ∈ p.blocks.checkReferences no text.toList ++
      (p.checkSetting env { descriptor, name, value }).2) :
    e.key ≠ (repetition earlier (p.checkSetting env { descriptor, name, value }).1).key := by
  obtain ⟨date, checked⟩ := checkSetting_fst env p { descriptor, name, value }
  rw [checked]
  intro same
  have range : e.range = name.range := congrArg Prod.fst same
  have message : e.message = (Problem.repeatedSetting descriptor.name).message :=
    congrArg Prod.snd same
  rcases List.mem_append.mp member with referred | found
  · obtain ⟨unknown, worded⟩ := message_checkReferences referred
    exact unknownName_ne unknown descriptor.name (worded.symm.trans message)
  · rcases checkSetting_at found with ⟨place, -⟩ | ⟨notice, worded⟩ | worded
    · -- the value stands behind the name
      have starts : name.start = value.start :=
        congrArg (fun r => r.start.column) (range.symm.trans place)
      exact absurd starts (Nat.ne_of_lt (Line.start_lt_of_setting line))
    · exact deprecatedSetting_ne descriptor.name notice (worded.symm.trans message)
    · exact emptyValue_ne descriptor.name (worded.symm.trans message)

end Pass

theorem eq_of_repeated {env : Environment} {lines : List String} {d e : Diagnostic}
    (member : d ∈ reports env lines) (repeated : d.isRepetition = true)
    (other : e ∈ reports env lines) (same : e.key = d.key) : e = d := by
  have within : d ∈ (Pass.run env {} 0 lines).2 := by
    rcases List.mem_append.mp member with run | finish
    · exact run
    · rw [Pass.finish_isRepetition _ d finish] at repeated
      cases repeated
  obtain ⟨before, text, after, rfl, found⟩ := Pass.exists_line_of_mem_run within
  rw [Nat.zero_add] at found
  have range : e.range = d.range := congrArg Prod.fst same
  have line : e.range.start.line = before.length := by
    rw [range]
    exact Pass.line_of_repeated found repeated
  have apart (at_ : e.At fun s => s.line ≠ before.length) : e = d := by
    obtain ⟨s, away, placed⟩ := at_.range
    rw [placed] at line
    exact absurd line away
  -- The line leaves the pass as it is, so that no place on it is kept.
  have empty : Pass.Keeps (fun s => s.line ≠ before.length) {} := Pass.keeps_empty
  obtain ⟨kept, blocks, early⟩ := Pass.run_at env empty (by simp [Block.Stack.Keeps]) 0 before
    (fun i text at_ s onLine => by
      have bound := (List.getElem?_eq_some_iff.mp at_).1
      have here := onLine.slices.1
      omega)
  obtain ⟨name, value, descriptor, earlier, classified, which, stepped⟩ :=
    Pass.step_of_repeated found repeated
  generalize reached : (Pass.run env {} 0 before).1 = p at found stepped which kept blocks
  obtain ⟨kept', blocks', late⟩ := Pass.run_at env kept blocks (before.length + 1) after
    (fun i text at_ s onLine => by
      have here := onLine.slices.1
      omega)
  have whole : reports env (before ++ text :: after) =
      (Pass.run env {} 0 before).2 ++ ((p.step env before.length text).2 ++
        p.reportsFrom env (before.length + 1) after) := by
    have start (lines : List String) : reports env lines = Pass.reportsFrom env {} 0 lines := rfl
    rw [start, Pass.reportsFrom_append, reached, Nat.zero_add]
    simp only [Pass.reportsFrom, Pass.run, stepped, List.append_assoc]
  rw [whole, stepped] at other
  rcases List.mem_append.mp other with early' | other
  · exact apart (early e early')
  · rcases List.mem_append.mp other with here | later
    · rw [← List.append_assoc] at here
      rcases List.mem_append.mp here with beside | itself
      · rw [which] at same
        exact absurd same (Pass.key_ne_of_line classified earlier beside)
      · exact List.mem_singleton.mp itself
    · rcases List.mem_append.mp later with run | finish
      · exact apart (late e run)
      · exact apart (Pass.finish_at env kept' blocks' e finish)

theorem Diagnostic.filter_firsts {picked : Diagnostic → Bool} {ds : List Diagnostic}
    (unique : ∀ d ∈ ds, picked d = true → ∀ e ∈ ds, e.key = d.key → e = d)
    (distinct : (ds.filter picked).Nodup) : (firsts ds).filter picked = ds.filter picked := by
  induction ds with
  | nil => rfl
  | cons a ds ih =>
      have tail : (firsts ds).filter picked = ds.filter picked := by
        apply ih
        · exact fun d member chosen e other =>
            unique d (List.mem_cons_of_mem a member) chosen e (List.mem_cons_of_mem a other)
        · exact distinct.sublist ((List.sublist_cons_self a ds).filter picked)
      have kept : ((firsts ds).filter fun e => e.key != a.key).filter picked =
          (firsts ds).filter picked := by
        rw [List.filter_filter]
        apply List.filter_congr
        intro e member
        cases chosen : picked e with
        | false => rfl
        | true =>
            have inside := mem_of_mem_firsts member
            have away : e.key ≠ a.key := by
              intro same
              obtain rfl :=
                unique e (List.mem_cons_of_mem a inside) chosen a List.mem_cons_self same.symm
              rw [List.filter_cons_of_pos chosen, List.nodup_cons] at distinct
              exact distinct.1 (List.mem_filter.mpr ⟨inside, chosen⟩)
            simpa using away
      rw [firsts_cons, List.filter_cons, List.filter_cons, kept, tail]

end ChartLint
