import ChartLint.Proofs.Block.Nesting

/-!
# Bodies that nobody reads

The lines of a `var`, `list`, `sql` or `script` block are text of their own: what stands there has
no effect on what is reported, here or later in the document (`reports_eq_of_body`). A line of such
a block leaves a pass as it is unless it closes the block, and so do any number of them.
-/

namespace ChartLint

namespace Block.Stack

def Skips (kw : Keyword) (s : Stack) : Prop :=
  ∃ frame below, s.frames = frame :: below ∧ frame.keyword = kw ∧ frame.table = none

variable {s : Stack} {kw : Keyword}

theorem Skips.innermost? (skips : s.Skips kw) : s.innermost? = some kw := by
  obtain ⟨frame, below, frames, rfl, -⟩ := skips
  simp [Stack.innermost?, frames]

theorem Skips.inText (skips : s.Skips kw) (own : kw.isOpaque = true) : s.inText = true := by
  simp [Stack.inText, skips.innermost?, own]

theorem Skips.textLine (skips : s.Skips kw) (no : Nat) (text : List Char) :
    s.textLine no text = (s, []) := by
  obtain ⟨frame, below, frames, -, table⟩ := skips
  simp [Stack.textLine, frames, table]

theorem Skips.step (skips : s.Skips kw) (own : kw.isOpaque = true) {line : Line}
    (open_ : line.closes kw = false) (no : Nat) (text : List Char) :
    s.step no text line = (s, []) := by
  unfold Stack.step
  rw [if_pos (skips.inText own)]
  cases line with
  | closer kw' head tail =>
      have other : kw ≠ kw' := by
        rintro rfl
        simp [Line.closes] at open_
      simp [skips.innermost?, other, skips.textLine]
  | _ => exact skips.textLine no text

theorem skips_enter (own : kw.isOpaque = true) (plain : kw ≠ .csv) (s : Stack) (head tail : Span) :
    (s.enter kw false head tail).1.Skips kw := by
  cases kw with
  | «for» => cases own
  | «if» => cases own
  | csv => exact absurd rfl plain
  | _ => exact ⟨_, _, rfl, rfl, rfl⟩

end Block.Stack

namespace Pass

variable {p : Pass} {kw : Block.Keyword} (env : Environment)

theorem run_append (p : Pass) (no : Nat) (lines others : List String) :
    p.run env no (lines ++ others) =
      (((p.run env no lines).1.run env (no + lines.length) others).1,
        (p.run env no lines).2 ++
          ((p.run env no lines).1.run env (no + lines.length) others).2) := by
  induction lines generalizing p no with
  | nil => rfl
  | cons text lines ih =>
      have later : no + (text :: lines).length = no + 1 + lines.length := by
        simp only [List.length_cons]
        omega
      simp only [List.cons_append, run, ih, later, List.append_assoc]

theorem step_of_skips (own : kw.isOpaque = true) (skips : p.blocks.Skips kw) {no : Nat}
    {text : String} (open_ : (Line.classify no text).closes kw = false) :
    p.step env no text = (p, []) := by
  simp only [step, skips.step own open_, skips.inText own, if_true]

theorem run_of_skips (own : kw.isOpaque = true) (skips : p.blocks.Skips kw) {no : Nat}
    {body : List String} (open_ : ∀ line ∈ Line.classifyFrom no body, line.closes kw = false) :
    p.run env no body = (p, []) := by
  induction body generalizing no with
  | nil => rfl
  | cons text body ih =>
      obtain ⟨first, others⟩ := List.forall_mem_cons.mp open_
      simp only [run, step_of_skips env own skips first, ih others, List.append_nil]

theorem skips_step (own : kw.isOpaque = true) (plain : kw ≠ .csv) {no : Nat} {text : String}
    (outside : p.blocks.inText = false) (opens : (Line.classify no text).opens kw = true) :
    (p.step env no text).1.blocks.Skips kw := by
  cases line : Line.classify no text with
  | opener kw' inline head tail =>
      simp only [line, Line.opens, Bool.and_eq_true, beq_iff_eq, Bool.not_eq_true'] at opens
      obtain ⟨rfl, rfl⟩ := opens
      simp only [step, line, Block.Stack.step, outside, Bool.false_eq_true, if_false, sectionStep]
      exact Block.Stack.skips_enter own plain p.blocks head tail
  | _ => simp [line, Line.opens] at opens

theorem run_body (own : kw.isOpaque = true) (plain : kw ≠ .csv) {no : Nat} {first : String}
    {body : List String} (outside : p.blocks.inText = false)
    (opens : (Line.classify no first).opens kw = true)
    (open_ : ∀ line ∈ Line.classifyFrom (no + 1) body, line.closes kw = false) :
    p.run env no (first :: body) = p.step env no first := by
  have skips := skips_step env own plain outside opens
  simp only [run, run_of_skips env own skips open_, List.append_nil]

end Pass

/-- Whatever lines stand in a block that is no table, as long as none of them closes it, the same is
reported: in the block, after it, and by the rules at the end. -/
theorem reports_eq_of_body (env : Environment) (before : List String) (first : String)
    (body body' rest : List String) {kw : Block.Keyword} (own : kw.isOpaque = true)
    (plain : kw ≠ .csv) (outside : (Pass.run env {} 0 before).1.blocks.inText = false)
    (opens : (Line.classify before.length first).opens kw = true)
    (open_ : ∀ line ∈ Line.classifyFrom (before.length + 1) body, line.closes kw = false)
    (open' : ∀ line ∈ Line.classifyFrom (before.length + 1) body', line.closes kw = false)
    (size : body.length = body'.length) :
    reports env (before ++ (first :: body) ++ rest) =
      reports env (before ++ (first :: body') ++ rest) := by
  have run := Pass.run_body env own plain outside opens open_
  have run' := Pass.run_body env own plain outside opens open'
  simp only [reports, Pass.run_append, Nat.zero_add, List.length_append, List.length_cons, size,
    run, run']

/-- A script in a loop: headers, names and the ends of other blocks count for nothing in it. -/
theorem reports_eq_of_body_script :
    reports ⟨{}, {}, ⟨0, by decide, by decide⟩⟩
        ["for a in b", "script", "[unknown]", "endfor", "endscript", "x = @{y}"] =
      reports ⟨{}, {}, ⟨0, by decide, by decide⟩⟩
        ["for a in b", "script", "x = @{z}", "else", "endscript", "x = @{y}"] :=
  @reports_eq_of_body ⟨{}, {}, ⟨0, by decide, by decide⟩⟩ ["for a in b"] "script"
    ["[unknown]", "endfor"] ["x = @{z}", "else"] ["endscript", "x = @{y}"] .script rfl
    (by decide) (by decide) (by decide) (by decide) (by decide) rfl

end ChartLint
