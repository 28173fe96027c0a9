import ChartLint.Proofs.Block.Nesting
import Mathlib.Data.List.Forall2

/-!
# The arms of conditionals

Where an arm begins can be told from the lines: `Block.shift` follows the open blocks, each with the
line where it or its present arm begins, and `Block.armLine?` picks the innermost conditional. A
stack has numbers for the arms instead. The two agree: the numbers belong one to one to the lines
where arms began, also where an end closes several blocks at once.

* `Block.Stack.forall₂_step`: what one line does to the frames of a stack, compared with the blocks.
* `Block.Stack.tracks_step`: one line.
* `Block.Stack.Tracks.lineOf_arm` and `Block.lineOf_inj`: numbers and lines.
-/

namespace ChartLint.Block

/-- The blocks around a line, the innermost first, each with the line where it or its present arm
begins. -/
abbrev Surroundings := List (Keyword × Nat)

def Surroundings.inText (around : Surroundings) : Bool :=
  textNext (around.map Prod.fst)

def outside? (kw : Keyword) : Surroundings → Option Surroundings
  | [] => none
  | block :: below => if block.1 = kw then some below else outside? kw below

def restart (no : Nat) : Surroundings → Surroundings
  | (.if, _) :: below => (.if, no) :: below
  | around => around

/-- The line of a document may open a block, start an arm or close blocks. In a text of its own only
the end of the text counts. -/
def shift (around : Surroundings) (no : Nat) (line : Line) : Surroundings :=
  if around.inText then
    if around.head?.any fun block => line.closes block.1 then around.tail else around
  else
    match line with
    | .opener kw inline _ _ => if inline then around else (kw, no) :: around
    | .arm .. => restart no around
    | .closer kw _ _ => (outside? kw around).getD around
    | _ => around

def surroundings (around : Surroundings) (no : Nat) : List Line → Surroundings
  | [] => around
  | line :: lines => surroundings (shift around no line) (no + 1) lines

def armLine? (around : Surroundings) : Option Nat :=
  (around.find? fun block => block.1 == .if).map Prod.snd

def lineOf (starts : List Nat) : Nat → Option Nat
  | 0 => none
  | n + 1 => starts[n]?

variable {no : Nat} {starts more : List Nat} {around : Surroundings}

theorem lineOf_append {n : Nat} (bound : n ≤ starts.length) :
    lineOf (starts ++ more) n = lineOf starts n := by
  cases n with
  | zero => rfl
  | succ n => exact List.getElem?_append_left bound

theorem le_of_lineOf {n line : Nat} (found : lineOf starts n = some line) : n ≤ starts.length := by
  cases n with
  | zero => exact Nat.zero_le _
  | succ n => exact (List.getElem?_eq_some_iff.mp found).1

theorem lineOf_inj (distinct : starts.Nodup) {n m : Nat} (boundN : n ≤ starts.length)
    (boundM : m ≤ starts.length) : lineOf starts n = lineOf starts m ↔ n = m := by
  cases n with
  | zero =>
      cases m with
      | zero => simp
      | succ m => simp [lineOf, List.getElem?_eq_getElem boundM]
  | succ n =>
      cases m with
      | zero => simp [lineOf, List.getElem?_eq_getElem boundN]
      | succ m =>
          rw [lineOf, lineOf, Nat.succ_inj]
          exact List.getElem?_inj boundN distinct

def Frame.Begins (starts : List Nat) (f : Frame) (block : Keyword × Nat) : Prop :=
  f.keyword = block.1 ∧ (f.keyword = .if → lineOf starts f.arm = some block.2)

theorem Frame.Begins.append {f : Frame} {block : Keyword × Nat} (begins : f.Begins starts block) :
    f.Begins (starts ++ more) block := by
  refine ⟨begins.1, fun conditional => ?_⟩
  have found := begins.2 conditional
  rw [lineOf_append (le_of_lineOf found)]
  exact found

namespace Stack

variable {s : Stack}

/-- The frames of a stack stand for the open blocks, and its numbers for the lines where arms
began. -/
structure Tracks (no : Nat) (starts : List Nat) (s : Stack) (around : Surroundings) : Prop where
  counted : starts.length = s.arms
  past : ∀ start ∈ starts, start < no
  distinct : starts.Nodup
  frames : List.Forall₂ (Frame.Begins starts) s.frames around

theorem tracks_empty : Tracks 0 [] {} [] :=
  ⟨rfl, by simp, List.nodup_nil, .nil⟩

theorem opened_of_related {R : Frame → Keyword × Nat → Prop}
    (related : List.Forall₂ R s.frames around)
    (same : ∀ f block, R f block → f.keyword = block.1) : s.opened = around.map Prod.fst := by
  rw [opened]
  generalize s.frames = fs at related
  induction related with
  | nil => rfl
  | cons here _ ih => rw [List.map_cons, List.map_cons, same _ _ here, ih]

theorem Tracks.opened_eq (tracks : Tracks no starts s around) : s.opened = around.map Prod.fst :=
  opened_of_related tracks.frames fun _ _ begins => begins.1

theorem Tracks.inText_eq (tracks : Tracks no starts s around) : s.inText = around.inText := by
  rw [Stack.inText_eq, tracks.opened_eq, Surroundings.inText]

theorem Tracks.lineOf_arm (tracks : Tracks no starts s around) :
    lineOf starts s.arm = armLine? around ∧ s.arm ≤ starts.length := by
  obtain ⟨-, -, -, frames⟩ := tracks
  rw [arm, armLine?]
  generalize s.frames = fs at frames
  induction frames with
  | nil => exact ⟨rfl, Nat.zero_le _⟩
  | @cons f block fs blocks begins _ ih =>
      obtain ⟨same, starting⟩ := begins
      rw [List.find?_cons, List.find?_cons, ← same]
      by_cases conditional : f.keyword = .if
      · have found := starting conditional
        rw [conditional]
        exact ⟨found, le_of_lineOf found⟩
      · rw [beq_eq_false_iff_ne.mpr conditional]
        exact ih

/-! ## One line -/

theorem Tracks.later (tracks : Tracks no starts s around) {s' : Stack} {around' : Surroundings}
    (arms : s'.arms = s.arms) (frames : List.Forall₂ (Frame.Begins starts) s'.frames around') :
    ∃ more, Tracks (no + 1) (starts ++ more) s' around' := by
  refine ⟨[], ?_⟩
  rw [List.append_nil]
  exact ⟨tracks.counted.trans arms.symm,
    fun start member => Nat.lt_succ_of_lt (tracks.past start member), tracks.distinct, frames⟩

theorem Tracks.another (tracks : Tracks no starts s around) {s' : Stack} {around' : Surroundings}
    (arms : s'.arms = s.arms + 1)
    (frames : List.Forall₂ (Frame.Begins (starts ++ [no])) s'.frames around') :
    ∃ more, Tracks (no + 1) (starts ++ more) s' around' := by
  refine ⟨[no], ?_, ?_, ?_, frames⟩
  · rw [List.length_append, tracks.counted, arms]
    rfl
  · intro start member
    rcases List.mem_append.mp member with earlier | here
    · exact Nat.lt_succ_of_lt (tracks.past start earlier)
    · rw [List.mem_singleton.mp here]
      exact Nat.lt_succ_self no
  · apply List.nodup_append.mpr ⟨tracks.distinct, by simp, ?_⟩
    intro start member other here
    rw [List.mem_singleton.mp here]
    exact Nat.ne_of_lt (tracks.past start member)

theorem Tracks.lineOf_next (tracks : Tracks no starts s around) :
    lineOf (starts ++ [no]) (s.arms + 1) = some no := by
  rw [lineOf, ← tracks.counted, List.getElem?_concat_length]

theorem openFrame_arms (s : Stack) (kw : Keyword) (head tail : Span) :
    (kw = .if ∧ (s.openFrame kw head tail).1.arms = s.arms + 1 ∧
      (s.openFrame kw head tail).2.1.arm = s.arms + 1) ∨
    (kw ≠ .if ∧ (s.openFrame kw head tail).1.arms = s.arms) := by
  cases kw with
  | «if» => exact .inl ⟨rfl, rfl, rfl⟩
  | _ => exact .inr ⟨by decide, rfl⟩

theorem arms_step (s : Stack) (no : Nat) (text : List Char) (line : Line) :
    (s.step no text line).1.arms = s.arms ∨ (s.step no text line).1.arms = s.arms + 1 := by
  have left (kw : Keyword) (head : Span) : (s.leave kw head).1.arms = s.arms := by
    unfold leave
    split <;> rfl
  have read : (s.textLine no text).1.arms = s.arms := by
    unfold textLine
    split
    · split <;> rfl
    · rfl
  unfold step
  split
  · split
    · split
      · exact .inl (left _ _)
      · exact .inl read
    · exact .inl read
  · cases line with
    | opener kw inline head tail =>
        have entered : (s.enter kw inline head tail).1.arms =
            (s.openFrame kw head tail).1.arms := by
          cases inline <;> rfl
        rcases openFrame_arms s kw head tail with ⟨-, arms, -⟩ | ⟨-, arms⟩
        · exact .inr (entered.trans arms)
        · exact .inl (entered.trans arms)
    | arm which head tail =>
        simp only [nextArm]
        split
        · split
          · exact .inr rfl
          · exact .inl rfl
        · exact .inl rfl
    | closer kw head tail => exact .inl (left kw head)
    | _ => exact .inl rfl

/-! A relation between the frames of a stack and the blocks that the lines tell of. -/

section Related

variable {R R' : Frame → Keyword × Nat → Prop} {text : List Char} {line : Line}

theorem forall₂_splitAt? {fs : List Frame} (same : ∀ f block, R f block → f.keyword = block.1)
    (related : List.Forall₂ R fs around) (kw : Keyword) :
    Option.Rel (List.Forall₂ R) ((splitAt? kw fs).map Prod.snd) (outside? kw around) := by
  induction related with
  | nil => exact .none
  | @cons f block fs blocks here others ih =>
      rw [splitAt?, outside?, ← same f block here]
      by_cases innermost : f.keyword = kw
      · rw [if_pos innermost, if_pos innermost]
        exact .some others
      · rw [if_neg innermost, if_neg innermost, Option.map_map]
        exact ih

theorem forall₂_leave (same : ∀ f block, R f block → f.keyword = block.1)
    (related : List.Forall₂ R s.frames around) (kw : Keyword) (head : Span) :
    List.Forall₂ R (s.leave kw head).1.frames ((outside? kw around).getD around) := by
  have outer := forall₂_splitAt? same related kw
  unfold leave
  cases split : splitAt? kw s.frames with
  | none =>
      rw [split] at outer
      cases outside : outside? kw around with
      | none => exact related
      | some rest =>
          rw [outside] at outer
          cases outer
  | some parts =>
      rw [split] at outer
      cases outside : outside? kw around with
      | none =>
          rw [outside] at outer
          cases outer
      | some rest =>
          rw [outside] at outer
          cases outer with
          | some frames => exact frames

theorem forall₂_textLine (kept : ∀ f block table, R f block → R' { f with table } block)
    (related : List.Forall₂ R s.frames around) (no : Nat) (text : List Char) :
    List.Forall₂ R' (s.textLine no text).1.frames around := by
  have unchanged : List.Forall₂ R' s.frames around :=
    related.imp fun f block here => kept f block f.table here
  unfold textLine
  cases frames : s.frames with
  | nil => exact unchanged
  | cons frame below =>
      dsimp only
      rw [frames] at related unchanged
      cases frame.table with
      | none => exact frames ▸ unchanged
      | some t =>
          cases related with
          | cons here others =>
              cases unchanged with
              | cons _ rest => exact .cons (kept _ _ _ here) rest

theorem forall₂_nextArm (same : ∀ f block, R f block → f.keyword = block.1)
    (kept : ∀ f block, R f block → R' f block) (which : Arm) (head tail : Span)
    (another : ∀ f start, R f (.if, start) → (s.nextArm which head tail).1.arms = s.arms + 1 →
      R' { f with arm := s.arms + 1 } (.if, no))
    (related : List.Forall₂ R s.frames around) :
    List.Forall₂ R' (s.nextArm which head tail).1.frames (restart no around) := by
  have unchanged : List.Forall₂ R' s.frames around := related.imp kept
  unfold nextArm at another ⊢
  cases frames : s.frames with
  | nil =>
      obtain rfl : around = [] := List.forall₂_nil_left_iff.mp (frames ▸ related)
      exact unchanged
  | cons frame below =>
      rw [frames] at related another
      cases related with
      | @cons _ block _ blocks here others =>
          obtain ⟨kw, start⟩ := block
          have keyword := same _ _ here
          dsimp only at keyword another ⊢
          by_cases conditional : frame.keyword = .if
          · obtain rfl : kw = .if := keyword ▸ conditional
            rw [if_pos conditional] at another ⊢
            exact .cons (another frame start here rfl) (others.imp kept)
          · rw [if_neg conditional]
            cases kw with
            | «if» => exact absurd keyword conditional
            | _ => exact unchanged

theorem forall₂_step (related : List.Forall₂ R s.frames around)
    (same : ∀ f block, R f block → f.keyword = block.1)
    (kept : ∀ f block table, R f block → R' { f with table } block)
    (another : ∀ f start, R f (.if, start) → (s.step no text line).1.arms = s.arms + 1 →
      R' { f with arm := s.arms + 1 } (.if, no))
    (opens : ∀ kw head tail, s.inText = false → line = .opener kw false head tail →
      R' (s.openFrame kw head tail).2.1 (kw, no)) :
    List.Forall₂ R' (s.step no text line).1.frames (shift around no line) := by
  have unchanged : List.Forall₂ R' s.frames around :=
    related.imp fun f block here => kept f block f.table here
  have keywords := opened_of_related related same
  have innermost : s.innermost? = around.head?.map Prod.fst := by
    rw [innermost?_eq, keywords, List.head?_map]
  have inText : s.inText = around.inText := by
    rw [inText_eq, keywords, Surroundings.inText]
  unfold step at another ⊢
  unfold shift
  rw [← inText]
  split
  · -- in a text only the end of the block counts
    have ends (kw : Keyword) (head tail : Span) :
        (around.head?.any fun block => (Line.closer kw head tail).closes block.1) =
          decide (s.innermost? = some kw) := by
      rw [innermost]
      cases around with
      | nil => rfl
      | cons block below => simp [Line.closes, eq_comm, Bool.beq_eq_decide_eq]
    have read := forall₂_textLine kept related no text
    cases line with
    | closer kw head tail =>
        rw [ends]
        by_cases closing : s.innermost? = some kw
        · have left := (forall₂_leave same related kw head).imp
            fun f block here => kept f block f.table here
          cases around with
          | nil => simp [innermost] at closing
          | cons block below =>
              simp only [innermost, List.head?_cons, Option.map_some, Option.some.injEq] at closing
              simpa [outside?, closing, innermost] using left
        · simpa [closing] using read
    | _ =>
        have passed : (around.head?.any fun _ => false) = false := by cases around <;> rfl
        simpa [Line.closes, passed] using read
  · rename_i outside
    rw [Bool.not_eq_true] at outside
    cases line with
    | opener kw inline head tail =>
        have loop : LoopAt (fun _ => True) tail := fun _ _ _ _ _ => trivial
        obtain ⟨frames, -, -, -⟩ := openFrame_reports s kw head trivial loop
        dsimp only [enter]
        cases inline with
        | true => exact frames ▸ unchanged
        | false => exact .cons (opens kw head tail outside rfl) (frames ▸ unchanged)
    | arm which head tail =>
        rw [if_neg (by simp [outside])] at another
        exact forall₂_nextArm same (fun f block here => kept f block f.table here) which head tail
          another related
    | closer kw head tail =>
        exact (forall₂_leave same related kw head).imp fun f block here => kept f block f.table here
    | _ => exact unchanged

end Related

theorem tracks_step (tracks : Tracks no starts s around) (text : List Char) (line : Line) :
    ∃ more, Tracks (no + 1) (starts ++ more) (s.step no text line).1 (shift around no line) := by
  have same : ∀ f block, Frame.Begins starts f block → f.keyword = block.1 :=
    fun f block begins => begins.1
  have keyword (kw : Keyword) (head tail : Span) : (s.openFrame kw head tail).2.1.keyword = kw := by
    have loop : LoopAt (fun _ => True) tail := fun _ _ _ _ _ => trivial
    exact (openFrame_reports s kw head trivial loop).2.1
  rcases arms_step s no text line with arms | arms
  · refine tracks.later arms (forall₂_step tracks.frames same (fun _ _ _ begins => begins) ?_ ?_)
    · intro f start _ more
      omega
    · rintro kw head tail outside rfl
      refine ⟨keyword kw head tail, fun conditional => ?_⟩
      obtain rfl : kw = .if := (keyword kw head tail).symm.trans conditional
      simp [step, outside, enter, openFrame] at arms
  · refine tracks.another arms
      (forall₂_step tracks.frames same (fun _ _ _ begins => begins.append) ?_ ?_)
    · exact fun f start begins _ => ⟨begins.1, fun _ => tracks.lineOf_next⟩
    · rintro kw head tail - rfl
      refine ⟨keyword kw head tail, fun conditional => ?_⟩
      rcases openFrame_arms s kw head tail with ⟨-, -, number⟩ | ⟨other, -⟩
      · rw [number]
        exact tracks.lineOf_next
      · exact absurd ((keyword kw head tail).symm.trans conditional) other

end Stack
end ChartLint.Block
