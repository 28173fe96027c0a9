import ChartLint.Proofs.Document.Layout

/-!
# Which `#` starts a comment

A `#` outside block comments is hidden if it, or one before it in its line, has nothing before it in
the line but blanks and, if the line starts inside a block comment, the rest of that comment:
`hash_hidden_iff`. A block comment that starts in the line itself does not count as blank.
-/

namespace ChartLint.Comment

/-! ## The mode at a place -/

def Mode.run (m : Mode) : List Char → Option Char → Mode
  | [], _ => m
  | c :: cs, next => (m.after c (cs.head?.or next)).run cs next

theorem Mode.run_append (m : Mode) (as bs : List Char) (next : Option Char) :
    m.run (as ++ bs) next = (m.run as (bs.head?.or next)).run bs next := by
  induction as generalizing m with
  | nil => rfl
  | cons c as ih => rw [List.cons_append, run, run, ih, List.head?_append, Option.or_assoc]

theorem Mode.run_concat (m : Mode) (as : List Char) (c : Char) (next : Option Char) :
    m.run (as ++ [c]) next = (m.run as (some c)).after c next :=
  m.run_append as [c] next

theorem byteLength_blanks (c : Char) : Text.byteLength (blanks c) = c.utf8Size := by
  unfold blanks
  split
  · rfl
  · exact Text.byteLength_spaces _

theorem exists_blank_append (m : Mode) (as bs : List Char) :
    ∃ front, blank m (as ++ bs) = front ++ blank (m.run as bs.head?) bs ∧
      Text.byteLength front = Text.byteLength as := by
  induction as generalizing m with
  | nil => exact ⟨[], rfl, rfl⟩
  | cons c as ih =>
      obtain ⟨front, whole, size⟩ := ih (m.after c (as ++ bs).head?)
      refine ⟨(if m.hides c (as ++ bs).head? then blanks c else [c]) ++ front, ?_, ?_⟩
      · rw [List.cons_append, blank, whole, List.append_assoc, Mode.run, List.head?_append]
      · rw [Text.byteLength_append, size]
        split
        · rw [byteLength_blanks, Text.byteLength_cons]
        · rfl

def LineStart (above : List Char) : Prop :=
  above = [] ∨ above.getLast? = some '\n'

theorem LineStart.run {above : List Char} (start : LineStart above) :
    (∀ next, Mode.start.run above next = .code true) ∨
      ∀ next, Mode.start.run above next = .block true := by
  rcases start with rfl | ends
  · exact .inl fun _ => rfl
  · obtain ⟨front, rfl⟩ := List.getLast?_eq_some_iff.mp ends
    have last (next : Option Char) :
        Mode.start.run (front ++ ['\n']) next = (Mode.start.run front (some '\n')).nextLine := by
      rw [Mode.run_concat]
      exact if_pos rfl
    simp only [last]
    cases Mode.start.run front (some '\n') with
    | block fresh => exact .inr fun _ => rfl
    | _ => exact .inl fun _ => rfl

/-! ## One line -/

theorem Mode.after_eq_line_iff {m : Mode} {c : Char} (inLine : c ≠ '\n') {next : Option Char} :
    m.after c next = .line ↔ m = .line ∨ m = .code true ∧ c = '#' := by
  unfold after
  rw [if_neg inLine]
  cases m with
  | code fresh =>
      by_cases hash : c = '#'
      · cases fresh <;> simp [hash]
      · by_cases opens : c = '/' ∧ next = some '*' <;> simp [opens, hash]
  | block fresh => dsimp only; split <;> simp
  | _ => simp

theorem Mode.run_eq_line_iff {m : Mode} (outside : m ≠ .line) {line : List Char}
    (inLine : '\n' ∉ line) {next : Option Char} :
    m.run line next = .line ↔
      ∃ lead rest, line = lead ++ '#' :: rest ∧ m.run lead (some '#') = .code true := by
  -- the last character of the line is in the comment if it starts it or the one before is in it
  induction line using List.reverseRecOn generalizing next with
  | nil => simpa [run] using outside
  | append_singleton line c ih =>
      rw [List.mem_append, not_or, List.mem_singleton] at inLine
      rw [run_concat, after_eq_line_iff (Ne.symm inLine.2), ih inLine.1]
      constructor
      · rintro (⟨lead, rest, rfl, fresh⟩ | ⟨fresh, rfl⟩)
        · exact ⟨lead, rest ++ [c], by simp, fresh⟩
        · exact ⟨line, [], rfl, fresh⟩
      · rintro ⟨lead, rest, same, fresh⟩
        rcases List.eq_nil_or_concat' rest with rfl | ⟨rest, d, rfl⟩
        · obtain ⟨rfl, ends⟩ := List.append_inj' same rfl
          obtain rfl : c = '#' := by simpa using ends
          exact .inr ⟨fresh, rfl⟩
        · rw [← List.cons_append, ← List.append_assoc] at same
          exact .inl ⟨lead, rest, (List.append_inj' same rfl).1, fresh⟩

def Mode.stale : Mode → Bool
  | .code fresh => !fresh
  | .line => true
  | .opening => true
  | .block fresh => !fresh
  | .closing fresh => !fresh

theorem Mode.stale_after {m : Mode} {c : Char} (inLine : c ≠ '\n') {next : Option Char}
    (stale : m.stale = true) : (m.after c next).stale = true := by
  unfold after
  rw [if_neg inLine]
  cases m with
  | code fresh =>
      obtain rfl : fresh = false := by simpa [Mode.stale] using stale
      dsimp only
      split <;> simp [Mode.stale]
  | block fresh =>
      obtain rfl : fresh = false := by simpa [Mode.stale] using stale
      dsimp only
      split <;> rfl
  | closing fresh => exact stale
  | _ => rfl

theorem Mode.stale_run {m : Mode} {line : List Char} (inLine : '\n' ∉ line) (next : Option Char)
    (stale : m.stale = true) : (m.run line next).stale = true := by
  induction line generalizing m with
  | nil => exact stale
  | cons c line ih =>
      rw [List.mem_cons, not_or] at inLine
      exact ih inLine.2 (stale_after (Ne.symm inLine.1) stale)

theorem Mode.run_code_iff {line : List Char} (inLine : '\n' ∉ line) {next : Option Char} :
    (Mode.code true).run line next = .code true ↔ ∀ c ∈ line, Text.isBlank c = true := by
  induction line with
  | nil => simp [run]
  | cons c line ih =>
      rw [List.mem_cons, not_or] at inLine
      have other : c ≠ '\n' := Ne.symm inLine.1
      rw [run, List.forall_mem_cons]
      cases blank : Text.isBlank c with
      | true =>
          have step : (Mode.code true).after c (line.head?.or next) = .code true := by
            rw [after_code other, blank]
            · rfl
            · rintro ⟨rfl, -⟩
              exact absurd blank (by decide)
            · rintro ⟨-, rfl⟩
              exact absurd blank (by decide)
          rw [step, ih inLine.2, eq_self, true_and]
      | false =>
          have shown : ((Mode.code true).after c (line.head?.or next)).stale = true := by
            unfold after
            rw [if_neg other]
            dsimp only
            split
            · rfl
            · split <;> simp [Mode.stale, blank]
          have still := stale_run inLine.2 next shown
          constructor
          · intro fresh
            rw [fresh] at still
            cases still
          · rintro ⟨absurd_, -⟩
            cases absurd_

theorem Mode.run_block {body rest : List Char} {next : Option Char} (fresh : Bool)
    (goesOn : ¬ ['*', '/'] <:+: body) (noSlash : rest.head?.or next ≠ some '/') :
    (Mode.block fresh).run (body ++ rest) next =
      (Mode.block (fresh || decide ('\n' ∈ body))).run rest next := by
  induction body generalizing fresh with
  | nil => simp
  | cons c body ih =>
      rw [List.infix_cons_iff, not_or] at goesOn
      have notEnd : ¬ (c = '*' ∧ (body ++ rest).head?.or next = some '/') := by
        rintro ⟨rfl, slash⟩
        cases body with
        | nil => exact noSlash slash
        | cons d body =>
            obtain rfl : d = '/' := by simpa using slash
            exact goesOn.1 (by simp)
      rw [List.cons_append, run, after_block fresh notEnd, ih _ goesOn.2]
      simp [Bool.or_assoc]

theorem Mode.run_block_open {body : List Char} (fresh : Bool) (goesOn : ¬ ['*', '/'] <:+: body) :
    (Mode.block fresh).run body (some '#') = .block (fresh || decide ('\n' ∈ body)) := by
  rw [← body.append_nil, run_block fresh goesOn (by simp), body.append_nil]
  rfl

theorem Mode.run_closing (fresh : Bool) (rest : List Char) (next : Option Char) :
    (Mode.block fresh).run ('*' :: '/' :: rest) next = (Mode.code fresh).run rest next := by
  simp [run, after]

theorem Mode.run_block_iff {line : List Char} (inLine : '\n' ∉ line) :
    (Mode.block true).run line (some '#') = .code true ↔
      ∃ body gap, line = body ++ '*' :: '/' :: gap ∧ ¬ ['*', '/'] <:+: body ∧
        ∀ c ∈ gap, Text.isBlank c = true := by
  have closed {body gap : List Char} (first : ¬ ['*', '/'] <:+: body) :
      (Mode.block true).run (body ++ '*' :: '/' :: gap) (some '#') =
        (Mode.code true).run gap (some '#') := by
    rw [run_block true first (by simp), run_closing, Bool.true_or]
  constructor
  · intro fresh
    rcases find_end line with ⟨body, gap, rfl, first⟩ | goesOn
    · rw [closed first, run_code_iff (by simp_all)] at fresh
      exact ⟨body, gap, rfl, first, fresh⟩
    · rw [run_block_open true goesOn] at fresh
      cases fresh
  · rintro ⟨body, gap, rfl, first, blank⟩
    rw [closed first, run_code_iff (by simp_all)]
    exact blank

/-! ## Where a comment can start -/

def Mode.inBlock : Mode → Bool
  | .opening => true
  | .block _ => true
  | .closing _ => true
  | .code _ => false
  | .line => false

def InBlock (before : List Char) : Prop :=
  (Mode.start.run before (some '#')).inBlock = true

instance (before : List Char) : Decidable (InBlock before) :=
  inferInstanceAs (Decidable (_ = true))

/-- What may stand in a line before a `#` that starts a comment: blanks, after the rest of a block
comment that comes from the lines above. -/
def Leads (above lead : List Char) : Prop :=
  ∃ tail gap, lead = tail ++ gap ∧ (∀ c ∈ gap, Text.isBlank c = true) ∧
    (tail = [] ∨ InBlock above ∧ ∃ body, tail = body ++ ['*', '/'] ∧ ¬ ['*', '/'] <:+: body)

theorem not_ends_of_blank {gap : List Char} (blank : ∀ c ∈ gap, Text.isBlank c = true) :
    ¬ ['*', '/'] <:+: gap := by
  intro inside
  have star : '*' ∈ gap := inside.subset (by simp)
  exact absurd (blank _ star) (by decide)

theorem leads_iff {above lead : List Char} (start : LineStart above) (inLine : '\n' ∉ lead) :
    Mode.start.run (above ++ lead) (some '#') = .code true ↔
      ¬ InBlock (above ++ lead) ∧ Leads above lead := by
  unfold InBlock
  rw [Mode.run_append]
  rcases start.run with outside | inside
  · rw [outside, Mode.run_code_iff inLine]
    constructor
    · intro blank
      refine ⟨?_, [], lead, rfl, blank, .inl rfl⟩
      rw [(Mode.run_code_iff inLine).mpr blank]
      exact Bool.false_ne_true
    · rintro ⟨-, tail, gap, rfl, blank, rfl | ⟨within, -⟩⟩
      · exact blank
      · rw [InBlock, outside] at within
        cases within
  · rw [inside]
    constructor
    · intro fresh
      obtain ⟨body, gap, rfl, first, blank⟩ := (Mode.run_block_iff inLine).mp fresh
      refine ⟨?_, body ++ ['*', '/'], gap, by simp, blank, .inr ⟨?_, body, rfl, first⟩⟩
      · rw [fresh]
        exact Bool.false_ne_true
      · rw [InBlock, inside]
        rfl
    · rintro ⟨left, tail, gap, rfl, blank, rfl | ⟨-, body, rfl, first⟩⟩
      · -- blanks alone do not end a block comment
        rw [List.nil_append, Mode.run_block_open true (not_ends_of_blank blank)] at left
        exact absurd rfl left
      · exact (Mode.run_block_iff inLine).mpr ⟨body, gap, by simp, first, blank⟩

/-! ## Where a block comment is open -/

def AtCode (before : List Char) : Prop :=
  ∃ fresh, Mode.start.run before (some '#') = .code fresh

theorem Mode.after_slash {m : Mode} {c : Char} {fresh : Bool} :
    m.after c (some '/') = .code fresh ↔ m.after c (some '#') = .code fresh := by
  by_cases newline : c = '\n'
  · simp [after, newline]
  · cases m with
    | block fresh =>
        simp only [after, newline, if_false]
        by_cases star : c = '*' <;> simp [star]
    | _ => simp [after, newline]

theorem Mode.run_slash {m : Mode} {as : List Char} {fresh : Bool} :
    m.run as (some '/') = .code fresh ↔ m.run as (some '#') = .code fresh := by
  rcases List.eq_nil_or_concat' as with rfl | ⟨front, c, rfl⟩
  · rfl
  · rw [run_concat, run_concat, after_slash]

theorem inBlock_of_open {front body : List Char} (code : AtCode front)
    (goesOn : ¬ ['*', '/'] <:+: body) : InBlock (front ++ '/' :: '*' :: body) := by
  obtain ⟨fresh, place⟩ := code
  have place' : Mode.start.run front (some '/') = .code fresh := Mode.run_slash.mpr place
  have opened : (Mode.code fresh).run ('/' :: '*' :: body) (some '#') =
      (Mode.block false).run body (some '#') := by
    simp [Mode.run, Mode.after]
  rw [InBlock, Mode.run_append, List.head?_cons, Option.some_or, place', opened,
    Mode.run_block_open false goesOn]
  rfl

theorem Mode.of_after_eq_opening {m : Mode} {c : Char} {next : Option Char}
    (opens : m.after c next = .opening) : (∃ fresh, m = .code fresh) ∧ c = '/' ∧
      next = some '*' := by
  cases m <;> simp only [after, nextLine] at opens <;> split_ifs at opens
  simp_all

theorem Mode.of_after_eq_block {m : Mode} {c : Char} {next : Option Char} {fresh : Bool}
    (inside : m.after c next = .block fresh) :
    m = .opening ∨ (∃ fresh, m = .block fresh) ∧ ¬ (c = '*' ∧ next = some '/') := by
  cases m <;> simp only [after, nextLine] at inside <;> split_ifs at inside <;> simp_all

theorem Mode.of_after_eq_closing {m : Mode} {c : Char} {next : Option Char} {fresh : Bool}
    (closes : m.after c next = .closing fresh) : next = some '/' := by
  cases m <;> simp only [after, nextLine] at closes <;> split_ifs at closes
  simp_all

theorem exists_of_opening {as : List Char} {next : Option Char}
    (place : Mode.start.run as next = .opening) :
    ∃ front, as = front ++ ['/'] ∧ next = some '*' ∧ AtCode front := by
  rcases List.eq_nil_or_concat' as with rfl | ⟨front, c, rfl⟩
  · cases place
  · rw [Mode.run_concat] at place
    obtain ⟨⟨fresh, code⟩, rfl, star⟩ := Mode.of_after_eq_opening place
    exact ⟨front, rfl, star, fresh, Mode.run_slash.mp code⟩

theorem exists_of_block {as : List Char} {next : Option Char} {fresh : Bool}
    (place : Mode.start.run as next = .block fresh) :
    ∃ front body, as = front ++ '/' :: '*' :: body ∧ AtCode front ∧ ¬ ['*', '/'] <:+: body ∧
      (body.getLast? = some '*' → next ≠ some '/') := by
  -- from the end of the text back to the sign that opened the comment. That the next character does
  -- not close it is what lets the body grow
  induction as using List.reverseRecOn generalizing next fresh with
  | nil => cases place
  | append_singleton as c ih =>
      rw [Mode.run_concat] at place
      rcases Mode.of_after_eq_block place with opening | ⟨⟨fresh, block⟩, goesOn⟩
      · obtain ⟨front, rfl, star, code⟩ := exists_of_opening opening
        obtain rfl : c = '*' := Option.some.inj star
        exact ⟨front, [], by simp, code, by simp, by simp⟩
      · obtain ⟨front, body, rfl, code, first, noSlash⟩ := ih block
        refine ⟨front, body ++ [c], by simp, code, ?_, ?_⟩
        · rw [List.infix_concat_iff, not_or]
          refine ⟨?_, first⟩
          rintro ⟨inner, same⟩
          have split : inner ++ ['*'] ++ ['/'] = body ++ [c] := by simpa using same
          obtain ⟨rfl, last⟩ := List.append_inj' split rfl
          exact noSlash (by simp) (by simpa using last.symm)
        · intro star slash
          exact goesOn ⟨by simpa using star, slash⟩

theorem inBlock_iff {before : List Char} :
    InBlock before ↔ ∃ front body, before = front ++ '/' :: '*' :: body ∧ AtCode front ∧
      ¬ ['*', '/'] <:+: body := by
  constructor
  · intro inside
    unfold InBlock at inside
    cases place : Mode.start.run before (some '#') with
    | code fresh => rw [place] at inside; cases inside
    | line => rw [place] at inside; cases inside
    | opening =>
        obtain ⟨_, _, star, _⟩ := exists_of_opening place
        exact absurd star (by decide)
    | block fresh =>
        obtain ⟨front, body, whole, code, first, -⟩ := exists_of_block place
        exact ⟨front, body, whole, code, first⟩
    | closing fresh =>
        rcases List.eq_nil_or_concat' before with rfl | ⟨front, c, rfl⟩
        · cases place
        · rw [Mode.run_concat] at place
          exact absurd (Mode.of_after_eq_closing place) (by decide)
  · rintro ⟨front, body, rfl, code, goesOn⟩
    exact inBlock_of_open code goesOn

/-! ## Hidden signs -/

theorem Mode.hides_hash_iff {m : Mode} (outside : ¬ m.inBlock = true) (next : Option Char) :
    m.hides '#' next = true ↔ m.after '#' next = .line := by
  rw [after_eq_line_iff (by decide)]
  cases m with
  | code fresh => simp [hides]
  | line => simp [hides]
  | _ => exact absurd rfl outside

theorem run_eq_line_iff {above line : List Char} (start : LineStart above) (inLine : '\n' ∉ line)
    {next : Option Char} :
    Mode.start.run (above ++ line) next = .line ↔ ∃ lead rest, line = lead ++ '#' :: rest ∧
      ¬ InBlock (above ++ lead) ∧ Leads above lead := by
  obtain ⟨m, outside, place⟩ : ∃ m, m ≠ .line ∧ ∀ next, Mode.start.run above next = m := by
    rcases start.run with place | place
    · exact ⟨_, by simp, place⟩
    · exact ⟨_, by simp, place⟩
  rw [Mode.run_append, place, Mode.run_eq_line_iff outside inLine]
  refine exists_congr fun lead => exists_congr fun rest => and_congr_right ?_
  rintro rfl
  rw [← leads_iff start (by simp_all), Mode.run_append, place]

/-- A `#` that is not part of a block comment is hidden if it, or one before it in its line, has
nothing before it in the line but blanks and the rest of a block comment from the lines above. A
block comment runs from a `/*` that is code to the first `*/` after it. -/
theorem hash_hidden_iff (above line after : List Char) (start : LineStart above)
    (inLine : '\n' ∉ line) :
    (InBlock (above ++ line) ↔ ∃ front body, above ++ line = front ++ '/' :: '*' :: body ∧
      AtCode front ∧ ¬ ['*', '/'] <:+: body) ∧
    (¬ InBlock (above ++ line) →
      ∃ front c back, blank .start (above ++ line ++ '#' :: after) = front ++ c :: back ∧
        Text.byteLength front = Text.byteLength (above ++ line) ∧ (c = ' ' ∨ c = '#') ∧
        (c = ' ' ↔ ∃ lead rest, line ++ ['#'] = lead ++ '#' :: rest ∧
          ¬ InBlock (above ++ lead) ∧ Leads above lead)) := by
  refine ⟨inBlock_iff, ?_⟩
  intro outside
  obtain ⟨front, whole, size⟩ := exists_blank_append .start (above ++ line) ('#' :: after)
  have noted : Mode.start.run (above ++ (line ++ ['#'])) after.head? = .line ↔ _ :=
    run_eq_line_iff start (by simpa using inLine)
  rw [← List.append_assoc, Mode.run_concat, ← Mode.hides_hash_iff outside] at noted
  rw [blank] at whole
  cases hidden : (Mode.start.run (above ++ line) (some '#')).hides '#' after.head? with
  | true =>
      rw [List.head?_cons, hidden] at whole
      exact ⟨front, ' ', _, whole, size, .inl rfl, by simpa [hidden] using noted⟩
  | false =>
      rw [List.head?_cons, hidden] at whole
      exact ⟨front, '#', _, whole, size, .inr rfl, by simpa [hidden] using noted⟩

/-- After a block comment from the line above, a `#` is hidden although it is not the first
character of its line that is not blank. -/
theorem hash_hidden_after_block :
    LineStart "/*\n".toList ∧ '\n' ∉ "*/ ".toList ∧ ¬ InBlock ("/*\n".toList ++ "*/ ".toList) ∧
    blank .start ("/*\n".toList ++ "*/ ".toList ++ '#' :: " x".toList) = "  \n      ".toList ∧
    ¬ ∃ lead rest, "*/ ".toList ++ ['#'] = lead ++ '#' :: rest ∧
      ¬ InBlock ("/*\n".toList ++ lead) ∧ ∀ c ∈ lead, Text.isBlank c = true := by
  refine ⟨.inr (by decide), by decide, by decide, by decide, ?_⟩
  rintro ⟨lead, rest, same, -, blank⟩
  cases lead with
  | nil => cases same
  | cons c lead =>
      obtain rfl : '*' = c := (List.cons.inj same).1
      exact absurd (blank '*' (by simp)) (by decide)

theorem hash_hidden_iff_after_block :
    LineStart "/*\n".toList ∧ '\n' ∉ "*/ ".toList ∧ ¬ InBlock ("/*\n".toList ++ "*/ ".toList) ∧
    ∃ front back, blank .start ("/*\n".toList ++ "*/ ".toList ++ '#' :: " x".toList) =
      front ++ ' ' :: back ∧ Text.byteLength front = 6 := by
  have start : LineStart "/*\n".toList := .inr (by decide)
  have inLine : '\n' ∉ "*/ ".toList := by decide
  have outside : ¬ InBlock ("/*\n".toList ++ "*/ ".toList) := by decide
  have leads : Leads "/*\n".toList "*/ ".toList :=
    ⟨['*', '/'], [' '], rfl, by simp [Text.isBlank], .inr ⟨by decide, [], rfl, by simp⟩⟩
  refine ⟨start, inLine, outside, ?_⟩
  obtain ⟨front, c, back, whole, size, -, hidden⟩ :=
    (hash_hidden_iff "/*\n".toList "*/ ".toList " x".toList start inLine).2 outside
  obtain rfl : c = ' ' := hidden.mpr ⟨"*/ ".toList, [], rfl, outside, leads⟩
  exact ⟨front, back, whole, size⟩

end ChartLint.Comment
