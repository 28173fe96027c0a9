import ChartLint.Proofs.Block.Accounts

/-!
# A missing end

A well nested document without one of the lines that end a loop or a conditional has one report on a
block that is not closed, and the report names the keyword of the missing end:
`reports_missing_end`.

What is left of the document is read along with the whole. From the gap on there is one block more
in it, `Block.Stack.Surplus`. A later end of the same keyword closes that block instead of the one
around it, which is surplus then. An end of another keyword reports it, and from there on both
readings agree. An arm may be reported as stray, which changes no block.

* `Block.Stack.Turn.owed` is one line, `Pass.run_owed` are the lines after the gap.
-/

namespace ChartLint

/-! ## The keywords that are open -/

theorem Line.classifyFrom_append (no : Nat) (lines others : List String) :
    classifyFrom no (lines ++ others) =
      classifyFrom no lines ++ classifyFrom (no + lines.length) others := by
  induction lines generalizing no with
  | nil => rfl
  | cons text lines ih =>
      rw [List.cons_append, classifyFrom, ih, List.length_cons, Nat.add_comm lines.length,
        ← Nat.add_assoc]
      rfl

namespace Block

theorem follow_append (opened : List Keyword) (lines others : List Line) :
    follow opened (lines ++ others) = (follow opened lines).bind (follow · others) := by
  induction lines generalizing opened with
  | nil => rfl
  | cons line lines ih =>
      rw [List.cons_append, follow, follow, Option.bind_assoc]
      exact congrArg (Option.bind _) (funext ih)

theorem advance_classify (opened : List Keyword) (no no' : Nat) (text : String) :
    advance opened (Line.classify no text) = advance opened (Line.classify no' text) := by
  have header (name : Option Span) :
      advance opened (name.elim .text .header) = advance opened .text := by
    cases name <;> rfl
  have setting (parts : Option (Span × Span)) :
      advance opened (parts.elim .text fun pair => .setting pair.1 pair.2) =
        advance opened .text := by
    cases parts <;> rfl
  unfold Line.classify Line.ofChars
  split
  · rfl
  · dsimp only
    cases Head.read (text.toList.dropWhile Text.isGap) with
    | none => rfl
    | some found =>
        obtain ⟨head, n⟩ := found
        cases head with
        | bracket => exact (header _).trans (header _).symm
        | word | equals => exact (setting _).trans (setting _).symm
        | _ => rfl

theorem follow_classifyFrom (opened : List Keyword) (no no' : Nat) (lines : List String) :
    follow opened (Line.classifyFrom no lines) = follow opened (Line.classifyFrom no' lines) := by
  induction lines generalizing opened no no' with
  | nil => rfl
  | cons text lines ih =>
      rw [Line.classifyFrom, Line.classifyFrom, follow, follow, advance_classify opened no no']
      apply congrArg (Option.bind _)
      funext next
      exact ih next (no + 1) (no' + 1)

theorem advance_transparent {opened next : List Keyword} {line : Line}
    (inner : ∀ kw ∈ opened.tail, kw.isOpaque = false) (advanced : advance opened line = some next) :
    ∀ kw ∈ next.tail, kw.isOpaque = false := by
  have further : ∀ kw ∈ opened.tail.tail, kw.isOpaque = false := fun kw member =>
    inner kw (List.mem_of_mem_tail member)
  unfold advance at advanced
  split at advanced
  · obtain rfl := Option.some.inj advanced
    split
    · exact further
    · exact inner
  · rename_i own
    cases line with
    | opener kw inline head tail =>
        obtain rfl := Option.some.inj advanced
        cases inline with
        | true => exact inner
        | false =>
            -- a block opens in a block without a text of its own only
            intro kw' member
            cases opened with
            | nil => cases member
            | cons first rest =>
                rcases List.mem_cons.mp member with rfl | deeper
                · simpa [textNext] using own
                · exact inner kw' deeper
    | arm which head tail =>
        obtain ⟨-, same⟩ := Option.ite_none_right_eq_some.mp advanced
        obtain rfl := Option.some.inj same
        exact inner
    | closer kw head tail =>
        obtain ⟨-, same⟩ := Option.ite_none_right_eq_some.mp advanced
        obtain rfl := Option.some.inj same
        exact further
    | _ =>
        obtain rfl := Option.some.inj advanced
        exact inner

theorem follow_transparent {opened last : List Keyword} {lines : List Line}
    (inner : ∀ kw ∈ opened.tail, kw.isOpaque = false) (followed : follow opened lines = some last) :
    ∀ kw ∈ last.tail, kw.isOpaque = false := by
  induction lines generalizing opened with
  | nil =>
      obtain rfl := Option.some.inj followed
      exact inner
  | cons line lines ih =>
      obtain ⟨next, advanced, followed⟩ := Option.bind_eq_some_iff.mp followed
      exact ih (advance_transparent inner advanced) followed

/-! ## One block more -/

namespace Stack

/-- The open blocks have the keywords `opened`, but for one more with the keyword `kw`. That block
and those around it are open blocks of `outer`. -/
def Surplus (kw : Keyword) (outer : List Mark) (opened : List Keyword) (s : Stack) : Prop :=
  ∃ above extra below, s.frames.map Frame.mark = above ++ extra :: below ∧
    opened = (above ++ below).map Mark.keyword ∧ extra.keyword = kw ∧ extra :: below <:+ outer

/-- The block that is one too many is still open, or it has been reported. -/
def Owed (kw : Keyword) (outer : List Mark) (opened : List Keyword)
    (result : Stack × List Diagnostic) : Prop :=
  (result.1.Surplus kw outer opened ∧ result.2.filter isUnclosed = []) ∨
    (result.1.opened = opened ∧
      ∃ m ∈ outer, m.keyword = kw ∧ result.2.filter isUnclosed = [m.unclosed])

variable {s : Stack} {kw : Keyword} {outer : List Mark} {opened next : List Keyword} {no : Nat}
  {line : Line} {result : Stack × List Diagnostic}

theorem opened_eq (s : Stack) : s.opened = (s.frames.map Frame.mark).map Mark.keyword := by
  rw [List.map_map]
  rfl

theorem Surplus.exists_frame (surplus : s.Surplus kw outer opened) {k : Keyword}
    (member : k ∈ opened) : ∃ f ∈ s.frames, f.keyword = k := by
  obtain ⟨above, extra, below, marks, rfl, -, -⟩ := surplus
  obtain ⟨m, within, rfl⟩ := List.mem_map.mp member
  have known : m ∈ s.frames.map Frame.mark := by
    rw [marks]
    simp only [List.mem_append, List.mem_cons] at within ⊢
    tauto
  obtain ⟨f, framed, rfl⟩ := List.mem_map.mp known
  exact ⟨f, framed, rfl⟩

/-- An end closes the innermost block of both readings, or the surplus block in place of the one
around it, or it closes that one and the surplus block is reported. -/
theorem Surplus.owed_of_closes {kw' : Keyword} {above below : List Frame} {frame : Frame}
    (surplus : s.Surplus kw outer (kw' :: next)) (frames : s.frames = above ++ frame :: below)
    (keyword : frame.keyword = kw') (inner : ∀ f ∈ above, f.keyword ≠ kw') :
    Owed kw outer next ({ s with frames := below }, above.reverse.map unclosed) := by
  obtain ⟨front, extra, rest, marks, opened, rfl, suffix⟩ := surplus
  rw [frames, List.map_append, List.map_cons] at marks
  cases front with
  | cons m front =>
      obtain ⟨rfl, rfl⟩ := List.cons.inj opened
      cases above with
      | nil =>
          obtain ⟨-, marks⟩ := List.cons.inj marks
          exact .inl ⟨⟨front, extra, rest, marks, rfl, rfl, suffix⟩, rfl⟩
      | cons f above =>
          obtain ⟨rfl, -⟩ := List.cons.inj marks
          exact absurd rfl (inner f List.mem_cons_self)
  | nil =>
      cases rest with
      | nil => cases opened
      | cons m rest =>
          obtain ⟨rfl, rfl⟩ := List.cons.inj opened
          cases above with
          | nil =>
              obtain ⟨rfl, around⟩ := List.cons.inj marks
              refine .inl ⟨⟨[], m, rest, around, rfl, keyword.symm, ?_⟩, rfl⟩
              exact (List.suffix_cons _ _).trans suffix
          | cons f above =>
              obtain ⟨rfl, around⟩ := List.cons.inj marks
              cases above with
              | nil =>
                  obtain ⟨-, outermost⟩ := List.cons.inj around
                  refine .inr ⟨?_, f.mark, suffix.mem List.mem_cons_self, rfl, rfl⟩
                  rw [opened_eq]
                  exact congrArg _ outermost
              | cons f' above =>
                  obtain ⟨rfl, -⟩ := List.cons.inj around
                  exact absurd rfl (inner f' (by simp))

section Transparent

variable (transparent : ∀ m ∈ outer, m.keyword.isOpaque = false)
include transparent

theorem Surplus.inText_eq (surplus : s.Surplus kw outer opened) : s.inText = textNext opened := by
  obtain ⟨above, extra, below, marks, rfl, -, suffix⟩ := surplus
  rw [Stack.inText_eq, opened_eq, marks]
  cases above with
  | cons m above => rfl
  | nil =>
      have own := transparent extra (suffix.mem List.mem_cons_self)
      cases below with
      | nil => simp [textNext, own]
      | cons m below =>
          have around := transparent m (suffix.mem (by simp))
          simp [textNext, own, around]

theorem Surplus.innermost?_eq (surplus : s.Surplus kw outer opened) (text : s.inText = true) :
    s.innermost? = opened.head? := by
  obtain ⟨above, extra, below, marks, rfl, -, suffix⟩ := surplus
  rw [Stack.inText_eq, opened_eq, marks] at text
  rw [Stack.innermost?_eq, opened_eq, marks]
  cases above with
  | cons m above => rfl
  | nil =>
      have own := transparent extra (suffix.mem List.mem_cons_self)
      simp [textNext, own] at text

theorem Surplus.opened_of_closer (surplus : s.Surplus kw outer opened) {kw' : Keyword}
    {head tail : Span} (taken : s.takesEnd kw' = true)
    (advanced : advance opened (.closer kw' head tail) = some next) : opened = kw' :: next := by
  have own := surplus.inText_eq transparent
  have first : opened.head? = some kw' := by
    unfold advance at advanced
    split at advanced
    · rename_i text
      rw [← own] at text
      rw [takesEnd, text] at taken
      rw [← surplus.innermost?_eq transparent text]
      simpa using taken
    · exact (Option.ite_none_right_eq_some.mp advanced).1
  cases opened with
  | nil => cases first
  | cons k rest =>
      obtain rfl := Option.some.inj first
      cases text : k.isOpaque with
      | true => simpa [advance, textNext, text, Line.closes] using advanced
      | false => simpa [advance, textNext, text] using advanced

theorem Surplus.opened_of_passes (surplus : s.Surplus kw outer opened)
    (opening : s.opening? line = none) (ending : s.ending? line = none)
    (advanced : advance opened line = some next) : next = opened := by
  have own := surplus.inText_eq transparent
  unfold advance at advanced
  split at advanced
  · rename_i text
    rw [← own] at text
    have other : (opened.head?.any fun k => line.closes k) = false := by
      rw [← surplus.innermost?_eq transparent text]
      cases line with
      | closer kw' head tail =>
          have apart : s.innermost? ≠ some kw' := by simpa [ending?, takesEnd, text] using ending
          cases innermost : s.innermost? with
          | none => rfl
          | some k =>
              rw [innermost] at apart
              simpa [Line.closes] using fun same => apart (congrArg some same.symm)
      | _ => cases s.innermost? <;> rfl
    rw [other] at advanced
    exact (Option.some.inj advanced).symm
  · rename_i outside
    rw [← own, Bool.not_eq_true] at outside
    cases line with
    | opener kw' inline head tail =>
        cases inline with
        | true => exact (Option.some.inj advanced).symm
        | false => simp [opening?, outside] at opening
    | closer kw' head tail => simp [ending?, takesEnd, outside] at ending
    | arm which head tail =>
        exact (Option.some.inj (Option.ite_none_right_eq_some.mp advanced).2).symm
    | _ => exact (Option.some.inj advanced).symm

theorem Turn.owed (turn : Turn no s line result) (surplus : s.Surplus kw outer opened)
    (advanced : advance opened line = some next) : Owed kw outer next result := by
  cases turn with
  | @opens kw' head tail s' frame found outside here frames mark quiet worded =>
      rw [surplus.inText_eq transparent] at outside
      obtain ⟨above, extra, below, marks, rfl, rfl, suffix⟩ := surplus
      simp only [advance, outside, Bool.false_eq_true, if_false, Option.some.injEq] at advanced
      subst advanced
      refine .inl ⟨⟨⟨kw', head⟩ :: above, extra, below, ?_, rfl, rfl, suffix⟩,
        filter_isUnclosed quiet⟩
      rw [frames, List.map_cons, mark, marks, List.cons_append]
  | closes taken here frames keyword inner =>
      obtain rfl := surplus.opened_of_closer transparent taken advanced
      exact surplus.owed_of_closes frames keyword inner
  | @unmatched kw' head tail taken here open_ =>
      obtain rfl := surplus.opened_of_closer transparent taken advanced
      obtain ⟨f, member, keyword⟩ := surplus.exists_frame List.mem_cons_self
      exact absurd keyword (open_ f member)
  | stray here =>
      obtain rfl := surplus.opened_of_passes transparent rfl rfl advanced
      exact .inl ⟨surplus, rfl⟩
  | passes opening ending frames quiet =>
      obtain rfl := surplus.opened_of_passes transparent opening ending advanced
      obtain ⟨above, extra, below, marks, opened, keyword, suffix⟩ := surplus
      exact .inl ⟨⟨above, extra, below, frames.trans marks, opened, keyword, suffix⟩,
        filter_isUnclosed quiet⟩

end Transparent

theorem Owed.prepend {found others : List Diagnostic} (quiet : found.filter isUnclosed = [])
    (owed : Owed kw outer opened (s, others)) : Owed kw outer opened (s, found ++ others) := by
  have same : (found ++ others).filter isUnclosed = others.filter isUnclosed := by
    rw [List.filter_append, quiet, List.nil_append]
  unfold Owed at owed ⊢
  rwa [same]

theorem surplus_of_opened (head : s.opened = kw :: opened) :
    s.Surplus kw (s.frames.map Frame.mark) opened := by
  rw [opened_eq] at head
  cases marks : s.frames.map Frame.mark with
  | nil =>
      rw [marks] at head
      cases head
  | cons m rest =>
      rw [marks] at head
      obtain ⟨rfl, rfl⟩ := List.cons.inj head
      exact ⟨[], m, rest, marks, rfl, rfl, List.suffix_rfl⟩

theorem Owed.filter_finish {found : List Diagnostic} (owed : Owed kw outer [] (s, found)) :
    ∃ m ∈ outer, m.keyword = kw ∧
      found.filter isUnclosed ++ s.finish.filter isUnclosed = [m.unclosed] := by
  have left : s.finish.filter isUnclosed = (s.frames.map Frame.mark).reverse.map Mark.unclosed := by
    rw [finish, filter_unclosed, List.map_reverse]
  rw [left]
  rcases owed with ⟨⟨above, extra, below, marks, none_, keyword, suffix⟩, quiet⟩ |
    ⟨agree, m, among, keyword, reported⟩
  · obtain ⟨rfl, rfl⟩ := List.append_eq_nil_iff.mp (List.map_eq_nil_iff.mp none_.symm)
    refine ⟨extra, suffix.mem List.mem_cons_self, keyword, ?_⟩
    rw [quiet, marks]
    rfl
  · rw [opened_eq, List.map_eq_nil_iff] at agree
    refine ⟨m, among, keyword, ?_⟩
    rw [reported, agree]
    rfl

end Stack
end Block

/-! ## The lines after the gap -/

open Block Block.Stack

variable {kw : Keyword} {outer : List Mark} {opened last : List Keyword} (env : Environment)

theorem Pass.run_owed (transparent : ∀ m ∈ outer, m.keyword.isOpaque = false) {p : Pass}
    (surplus : p.blocks.Surplus kw outer opened) (no : Nat) {lines : List String}
    (followed : follow opened (Line.classifyFrom no lines) = some last) :
    Owed kw outer last ((p.run env no lines).1.blocks, (p.run env no lines).2) := by
  induction lines generalizing p opened no with
  | nil =>
      obtain rfl := Option.some.inj followed
      exact .inl ⟨surplus, rfl⟩
  | cons text lines ih =>
      obtain ⟨next, advanced, followed⟩ := Option.bind_eq_some_iff.mp followed
      have turned := (Visit.mk p no text).turns.owed transparent surplus advanced
      have blocks := (Visit.mk p no text).blocks_next env
      have found := filter_step env ofBlocks_of_isUnclosed p no text
      rw [Owed, ← found, ← blocks] at turned
      rcases turned with ⟨surplus, quiet⟩ | ⟨agree, m, among, keyword, reported⟩
      · exact (ih surplus (no + 1) followed).prepend quiet
      · -- both readings have the same blocks again, and nothing more is reported
        have rest := outcome_run env (p.step env no text).1 (no + 1) lines
        rw [agree, followed, outcome_eq_some_iff] at rest
        have whole : (p.run env no (text :: lines)).2 = (p.step env no text).2 ++
            ((p.step env no text).1.run env (no + 1) lines).2 := rfl
        refine .inr ⟨rest.2, m, among, keyword, ?_⟩
        rw [whole, List.filter_append, reported, filter_of_quiet ofNesting_of_isUnclosed rest.1]
        rfl

theorem follow_of_quiet {lines : List String}
    (quiet : ∀ d ∈ reports env lines, d.code.ofNesting = false) :
    follow [] (Line.classifyFrom 0 lines) = some [] := by
  have run := Pass.outcome_run env {} 0 lines
  change outcome _ = follow [] _ at run
  rw [← run, outcome_eq_some_iff, ← Pass.finish_nested_iff env]
  exact List.forall_mem_append.mp quiet

theorem Visit.opened_of_closes {v : Visit} {m : Mark} {next : List Keyword}
    (closes : v.Closes env m) (nests : m.keyword.isOpaque = false)
    (advanced : advance v.pass.blocks.opened v.line = some next) :
    v.pass.blocks.opened = m.keyword :: next := by
  obtain ⟨e, -, -, -, ending, keyword, -⟩ := closes
  unfold Visit.ending? Stack.ending? at ending
  split at ending
  · rename_i kw head tail line
    obtain ⟨taken, same⟩ := Option.ite_none_right_eq_some.mp ending
    obtain rfl := Option.some.inj same
    obtain rfl : kw = m.keyword := keyword
    have outside : textNext v.pass.blocks.opened = false := by
      rw [← inText_eq]
      cases text : v.pass.blocks.inText with
      | false => rfl
      | true =>
          have innermost : v.pass.blocks.innermost? = some m.keyword := by
            simpa [takesEnd, text] using taken
          rw [inText, innermost, Option.any_some, nests] at text
          cases text
    rw [line, advance, outside, if_neg Bool.false_ne_true] at advanced
    obtain ⟨first, same⟩ := Option.ite_none_right_eq_some.mp advanced
    rw [← Option.some.inj same]
    exact (List.cons_head?_tail first).symm
  · cases ending

theorem marks_transparent {s : Stack} {lines : List Line}
    (reached : follow [] lines = some s.opened)
    (head : s.opened = kw :: opened) (nests : kw.isOpaque = false) :
    ∀ o ∈ s.frames.map Frame.mark, o.keyword.isOpaque = false := by
  have inner := follow_transparent (by simp) reached
  intro o member
  have among := List.mem_map_of_mem (f := Mark.keyword) member
  rw [← opened_eq, head] at among
  rw [head] at inner
  rcases List.mem_cons.mp among with first | later
  · rw [first]
    exact nests
  · exact inner _ later

theorem filter_unclosed_finish {lines : List String} {d : Diagnostic}
    (single : (reports env lines).filter isUnclosed = [d]) (source : String) :
    (Diagnostic.finish source (reports env lines)).filter isUnclosed = [{ d with source }] := by
  have kept : (Diagnostic.firsts (reports env lines)).filter isUnclosed = [d] := by
    rw [← single]
    apply Diagnostic.filter_firsts
    · intro d member chosen e other same
      exact eq_of_nesting member (ofNesting_of_isUnclosed d chosen) other same
    · rw [single]
      exact List.nodup_singleton d
  rw [Diagnostic.finish, List.filter_map]
  exact congrArg (List.map _) kept

/-- Without one line that ends a loop or a conditional, the reports of a well nested document on
blocks that are not closed are a single one, on a block with the keyword of that line and open at
it. It stays when repetitions are dropped. -/
theorem reports_missing_end (before : List String) (line : String) (after : List String) {m : Mark}
    (quiet : ∀ d ∈ reports env (before ++ line :: after),
      d.code ≠ .unclosedBlock ∧ d.code ≠ .unmatchedEnd)
    (closes : (Visit.mk (Pass.run env {} 0 before).1 before.length line).Closes env m)
    (nests : m.keyword = .for ∨ m.keyword = .if) :
    ∃ o ∈ (Pass.run env {} 0 before).1.blocks.frames.map Frame.mark, o.keyword = m.keyword ∧
      (reports env (before ++ after)).filter (fun d => d.code == .unclosedBlock) = [o.unclosed] ∧
      ∀ source, (Diagnostic.finish source (reports env (before ++ after))).filter
        (fun d => d.code == .unclosedBlock) = [{ o.unclosed with source }] := by
  have codes (c : Code) (other : c ≠ .unclosedBlock ∧ c ≠ .unmatchedEnd) : c.ofNesting = false := by
    cases c <;> simp_all [Code.ofNesting]
  have nests : m.keyword.isOpaque = false := by
    rcases nests with same | same <;> rw [same] <;> rfl
  have followed := follow_of_quiet env fun d member => codes d.code (quiet d member)
  rw [Line.classifyFrom_append, follow_append, Nat.zero_add] at followed
  obtain ⟨opened, reached, continued⟩ := Option.bind_eq_some_iff.mp followed
  obtain ⟨next, advanced, rest⟩ := Option.bind_eq_some_iff.mp continued
  have earlier := Pass.outcome_run env {} 0 before
  change outcome _ = follow [] _ at earlier
  rw [reached, outcome_eq_some_iff] at earlier
  obtain ⟨silent, rfl⟩ := earlier
  have head := Visit.opened_of_closes env closes nests advanced
  -- the lines after the gap have moved up by one
  rw [follow_classifyFrom next _ before.length] at rest
  have owed := Pass.run_owed env (marks_transparent reached head nests) (surplus_of_opened head)
    before.length rest
  obtain ⟨o, among, keyword, reported⟩ := owed.filter_finish
  have single : (reports env (before ++ after)).filter isUnclosed = [o.unclosed] := by
    rw [filter_reports ofNesting_of_isUnclosed, Pass.run_append, List.filter_append, Nat.zero_add,
      Pass.filter_of_quiet ofNesting_of_isUnclosed silent, List.nil_append]
    exact reported
  exact ⟨o, among, keyword, single, filter_unclosed_finish env single⟩

/-- Of two loops in a conditional the inner one has lost its end, so that the end of the outer one
closes it, the arm is stray and the end of the conditional finds the outer loop open. -/
theorem reports_missing_end_in_arm :
    (∀ d ∈ reports seriesEnvironment
        (["if a", "for x in [1]", "for y in [2]"] ++ "endfor" :: ["endfor", "else", "endif"]),
      d.code ≠ .unclosedBlock ∧ d.code ≠ .unmatchedEnd) ∧
    ∃ o : Mark, o.keyword = .for ∧
      (reports seriesEnvironment
        (["if a", "for x in [1]", "for y in [2]"] ++ ["endfor", "else", "endif"])).filter
        (fun d => d.code == .unclosedBlock) = [o.unclosed] := by
  have quiet : ∀ d ∈ reports seriesEnvironment
        (["if a", "for x in [1]", "for y in [2]"] ++ "endfor" :: ["endfor", "else", "endif"]),
      d.code ≠ .unclosedBlock ∧ d.code ≠ .unmatchedEnd := by decide
  have closes := (Visit.closes_iff seriesEnvironment
    (Visit.mk (Pass.run seriesEnvironment {} 0 ["if a", "for x in [1]", "for y in [2]"]).1 3
      "endfor") (m := ⟨.for, ⟨"for", 2, 0, 3⟩⟩)).mpr (by decide)
  obtain ⟨o, -, keyword, single, -⟩ := reports_missing_end seriesEnvironment
    ["if a", "for x in [1]", "for y in [2]"] "endfor" ["endfor", "else", "endif"] quiet closes
    (.inl rfl)
  exact ⟨quiet, o, keyword, single⟩

end ChartLint
