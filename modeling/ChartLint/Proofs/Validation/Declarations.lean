import ChartLint.Proofs.Block.Arms
import ChartLint.Proofs.Validation.Repetitions

/-!
# The settings of a section

Between a header of a known kind and the next header, a pass collects the settings of the section.
The declarations are told apart by the lines: each one that stands for a setting of the catalog,
with the line where the arm of the innermost conditional around it begins. The section that goes
into the tree has one setting for each group of them, and all but the first of a group are reported,
unless the setting takes several lines: `section_declarations`.

* `Pass.Collects` is the invariant, `Pass.step_collects` one line and `Pass.run_collects` the lines
  of a section.
* `filter_reports_group` and `filter_finish` are about all reports on a document.
-/

namespace ChartLint

open Block Block.Stack

/-! ## The declarations of a section -/

namespace Pass

variable (env : Environment)

def occurrence? (p : Pass) (around : Surroundings) : Line → Option Occurrence
  | .setting name value =>
    if around.inText then none
    else
      match env.catalog.resolve name.text p.scope with
      | .known descriptor => some ⟨descriptor, name, value, armLine? around⟩
      | _ => none
  | _ => none

/-- The declarations on some lines. What a name stands for depends on the lines before it, as they
may say which type of widget this is. -/
def occurrences (p : Pass) (around : Surroundings) (no : Nat) : List String → List Occurrence
  | [] => []
  | text :: lines =>
    (p.occurrence? env around (Line.classify no text)).toList ++
      (p.step env no text).1.occurrences (shift around no (Line.classify no text)) (no + 1) lines

end Pass

def Line.isHeader : Line → Bool
  | .header _ => true
  | _ => false

def unbroken (around : Surroundings) (no : Nat) : List String → Bool
  | [] => true
  | text :: lines =>
    (around.inText || !(Line.classify no text).isHeader) &&
      unbroken (shift around no (Line.classify no text)) (no + 1) lines

structure Setting.Stands (os : List Occurrence) (s : Setting) (o : Occurrence) : Prop where
  descriptor : s.descriptor = o.descriptor
  name : s.name = o.name
  value : s.value = o.value
  values : s.values =
    if o.descriptor.multiLine then (Occurrence.group os o).map Occurrence.value else [o.value]

section Related

variable {α β : Type} {R S : α → β → Prop} {as : List α} {bs : List β}

theorem forall₂_find? (related : List.Forall₂ R as bs) {p : α → Bool} {q : β → Bool}
    (same : ∀ a b, R a b → p a = q b) : Option.Rel R (as.find? p) (bs.find? q) := by
  induction related with
  | nil => exact .none
  | @cons a b as bs first _ ih =>
      rw [List.find?_cons, List.find?_cons, same a b first]
      cases q b with
      | true => exact .some first
      | false => exact ih

theorem forall₂_of_mem (related : List.Forall₂ R as bs) (all : ∀ a, ∀ b ∈ bs, R a b → S a b) :
    List.Forall₂ S as bs := by
  induction related with
  | nil => exact .nil
  | @cons a b as bs first _ ih =>
      exact .cons (all a b List.mem_cons_self first)
        (ih fun a b member => all a b (List.mem_cons_of_mem _ member))

end Related

namespace PendingSection

structure Enters (starts : List Nat) (os : List Occurrence) (entry : Setting × Nat)
    (o : Occurrence) : Prop where
  stands : entry.1.Stands os o
  arm : lineOf starts entry.2 = o.arm
  bound : entry.2 ≤ starts.length

variable {starts : List Nat} {os : List Occurrence} {entry : Setting × Nat} {f o : Occurrence}

theorem Enters.append (enters : Enters starts os entry o) (more : List Nat) :
    Enters (starts ++ more) os entry o :=
  ⟨enters.stands, (lineOf_append enters.bound).trans enters.arm,
    Nat.le_trans enters.bound (by simp)⟩

theorem Enters.isSame (distinct : starts.Nodup) (enters : Enters starts os entry f) {arm : Nat}
    (line : lineOf starts arm = o.arm) (bound : arm ≤ starts.length) :
    isSame o.descriptor.name arm entry = (f.key == o.key) := by
  have numbers : entry.2 = arm ↔ f.arm = o.arm := by
    rw [← lineOf_inj distinct enters.bound bound, enters.arm, line]
  rw [PendingSection.isSame, Bool.eq_iff_iff, Bool.and_eq_true, beq_iff_eq, beq_iff_eq, beq_iff_eq,
    enters.stands.descriptor, numbers, Occurrence.key, Occurrence.key, Prod.mk.injEq, and_comm]

theorem Enters.other (enters : Enters starts os entry f) (apart : o.key ≠ f.key) :
    Enters starts (os ++ [o]) entry f := by
  obtain ⟨⟨descriptor, name, value, values⟩, arm, bound⟩ := enters
  refine ⟨⟨descriptor, name, value, ?_⟩, arm, bound⟩
  rw [Occurrence.group_concat_of_ne apart]
  exact values

theorem Enters.skips (enters : Enters starts os entry f) (single : f.descriptor.multiLine = false) :
    Enters starts (os ++ [o]) entry f := by
  obtain ⟨⟨descriptor, name, value, values⟩, arm, bound⟩ := enters
  refine ⟨⟨descriptor, name, value, ?_⟩, arm, bound⟩
  rw [single] at values ⊢
  exact values

theorem Enters.takes (enters : Enters starts os entry f) (several : f.descriptor.multiLine = true)
    (same : o.key = f.key) : Enters starts (os ++ [o]) (entry.1.addValue o.value, entry.2) f := by
  obtain ⟨⟨descriptor, name, value, values⟩, arm, bound⟩ := enters
  refine ⟨⟨descriptor, name, value, ?_⟩, arm, bound⟩
  have longer : (entry.1.addValue o.value).values = entry.1.values ++ [o.value] := rfl
  rw [longer, values, several, Occurrence.group_concat_of_eq same, if_pos rfl, if_pos rfl,
    List.map_append, List.map_singleton]

/-! ## One declaration -/

section Entered

open Occurrence

variable {entries : List (Setting × Nat)} {arm : Nat}

theorem entered_fresh (entered : List.Forall₂ (Enters starts os) entries (leaders os))
    (first : (os.find? fun other => other.key == o.key) = none)
    (line : lineOf starts arm = o.arm) (bound : arm ≤ starts.length)
    {s : Setting} (stands : s.Stands [o] o) :
    List.Forall₂ (Enters starts (os ++ [o])) (entries ++ [(s, arm)]) (leaders (os ++ [o])) := by
  have others : List.Forall₂ (Enters starts (os ++ [o])) entries (leaders os) := by
    apply forall₂_of_mem entered
    intro entry f member enters
    apply enters.other
    intro same
    have leads := leads_of_mem_leaders member
    rw [← same, first] at leads
    cases leads
  have alone : group (os ++ [o]) o = group [o] o := by
    rw [group_concat_of_eq rfl, group_eq_nil first]
    simp [group]
  rw [leaders_concat_of_none first]
  apply List.rel_append others
  refine .cons ⟨⟨stands.descriptor, stands.name, stands.value, ?_⟩, line, bound⟩ .nil
  rw [alone]
  exact stands.values

theorem entered_skipped (entered : List.Forall₂ (Enters starts os) entries (leaders os))
    (first : (os.find? fun other => other.key == o.key) = some f)
    (single : f.descriptor.multiLine = false) :
    List.Forall₂ (Enters starts (os ++ [o])) entries (leaders (os ++ [o])) := by
  rw [leaders_concat_of_some first]
  apply forall₂_of_mem entered
  intro entry g member enters
  by_cases same : o.key = g.key
  · have leads := leads_of_mem_leaders member
    rw [← same, first] at leads
    cases leads
    exact enters.skips single
  · exact enters.other same

theorem entered_taken (entered : List.Forall₂ (Enters starts os) entries (leaders os))
    (distinct : starts.Nodup) (first : (os.find? fun other => other.key == o.key) = some f)
    (several : f.descriptor.multiLine = true) (line : lineOf starts arm = o.arm)
    (bound : arm ≤ starts.length) :
    List.Forall₂ (Enters starts (os ++ [o]))
      (entries.map fun entry =>
        if isSame o.descriptor.name arm entry then (entry.1.addValue o.value, entry.2) else entry)
      (leaders (os ++ [o])) := by
  rw [leaders_concat_of_some first, List.forall₂_map_left_iff]
  apply forall₂_of_mem entered
  intro entry g member enters
  rw [enters.isSame distinct line bound]
  by_cases same : o.key = g.key
  · have leads := leads_of_mem_leaders member
    rw [← same, first] at leads
    cases leads
    rw [beq_iff_eq.mpr same.symm, if_pos rfl]
    exact enters.takes several same
  · rw [beq_eq_false_iff_ne.mpr (Ne.symm same)]
    exact enters.other same

end Entered

end PendingSection

namespace Pass

open PendingSection Occurrence

variable (env : Environment) {p : Pass} {header : Span} {kind : SectionKind}
  {entries : List (Setting × Nat)} {starts : List Nat} {seen : List Occurrence} {o : Occurrence}

theorem declare_collects (pending : p.pending = some ⟨header, kind, entries⟩)
    (distinct : starts.Nodup)
    (entered : List.Forall₂ (Enters starts seen) entries (leaders seen))
    (line : lineOf starts p.blocks.arm = o.arm) (bound : p.blocks.arm ≤ starts.length)
    {s : Setting} (stands : s.Stands [o] o) :
    (∃ entries', (p.declare env s).1.pending = some ⟨header, kind, entries'⟩ ∧
      List.Forall₂ (Enters starts (seen ++ [o])) entries' (leaders (seen ++ [o]))) ∧
      (p.declare env s).2 = repeats seen o := by
  have find := forall₂_find? entered fun entry f enters => enters.isSame distinct line bound
  rw [find?_leaders] at find
  unfold declare
  rw [pending]
  dsimp only
  rw [earlier?, stands.descriptor]
  generalize (entries.find? (isSame o.descriptor.name p.blocks.arm)) = entry? at find
  generalize first : (seen.find? fun other => other.key == o.key) = leader? at find
  rw [repeats, first]
  cases find with
  | none => exact ⟨⟨_, rfl, entered_fresh entered first line bound stands⟩, rfl⟩
  | @some entry f enters =>
      dsimp only [Option.map_some]
      rw [enters.stands.descriptor]
      cases several : f.descriptor.multiLine with
      | true =>
          have taken := entered_taken entered distinct first several line bound
          rw [← stands.value] at taken
          exact ⟨⟨_, rfl, taken⟩, rfl⟩
      | false =>
          refine ⟨⟨entries, pending, entered_skipped entered first several⟩, ?_⟩
          rw [if_neg Bool.false_ne_true, if_neg Bool.false_ne_true, Pass.repetition,
            Occurrence.repetition, stands.descriptor, stands.name, enters.stands.name]

theorem checkSetting_stands (p : Pass) (o : Occurrence) :
    (p.checkSetting env { descriptor := o.descriptor, name := o.name, value := o.value }).1.Stands
      [o] o := by
  have values : [o.value] =
      if o.descriptor.multiLine then (group [o] o).map Occurrence.value else [o.value] := by
    simp [group]
  obtain ⟨date, checked⟩ := checkSetting_fst env p
    { descriptor := o.descriptor, name := o.name, value := o.value }
  rw [checked]
  exact ⟨rfl, rfl, rfl, values⟩

/-! ## One line -/

structure Collects (starts : List Nat) (header : Span) (kind : SectionKind) (seen : List Occurrence)
    (p : Pass) : Prop where
  known : p.inUnknown = false
  pending : ∃ entries, p.pending = some ⟨header, kind, entries⟩ ∧
    List.Forall₂ (Enters starts seen) entries (leaders seen)

theorem Collects.append (collects : Collects starts header kind seen p) (more : List Nat) :
    Collects (starts ++ more) header kind seen p := by
  obtain ⟨known, entries, pending, entered⟩ := collects
  exact ⟨known, entries, pending, entered.imp fun _ _ enters => enters.append more⟩

theorem inUnknown_declare (s : Setting) : (p.declare env s).1.inUnknown = p.inUnknown := by
  unfold declare
  split
  · rfl
  · dsimp only
    split
    · split <;> rfl
    · rfl

theorem blocks_step (p : Pass) (no : Nat) (text : String) :
    (p.step env no text).1.blocks =
      (p.blocks.step no text.toList (Line.classify no text)).1 := by
  unfold step
  dsimp only
  split
  · rfl
  · exact blocks_sectionStep env _

theorem setting_collects {around : Surroundings} {no : Nat}
    (tracks : Tracks no starts p.blocks around) (collects : Collects starts header kind seen p)
    (outside : around.inText = false) (name value : Span) :
    Collects starts header kind (seen ++ (p.occurrence? env around (.setting name value)).toList)
      (p.setting env name value).1 ∧
    (p.setting env name value).2.filter Diagnostic.isRepetition =
      (p.occurrence? env around (.setting name value)).toList.flatMap (repeats seen) := by
  obtain ⟨known, entries, pending, entered⟩ := collects
  obtain ⟨line, bound⟩ := tracks.lineOf_arm
  rw [Pass.setting, occurrence?, known, outside, if_neg Bool.false_ne_true,
    if_neg Bool.false_ne_true]
  cases env.catalog.resolve name.text p.scope with
  | exempt =>
      dsimp only
      rw [Option.toList_none, List.append_nil]
      exact ⟨⟨known, entries, pending, entered⟩, rfl⟩
  | unknown =>
      dsimp only
      rw [Option.toList_none, List.append_nil]
      exact ⟨⟨known, entries, pending, entered⟩, rfl⟩
  | known descriptor =>
      have stands := checkSetting_stands env p ⟨descriptor, name, value, armLine? around⟩
      have quiet := checkSetting_isRepetition env p { descriptor, name, value }
      dsimp only at stands ⊢
      generalize p.checkSetting env { descriptor, name, value } = checked at stands quiet ⊢
      obtain ⟨⟨entries', pending', entered'⟩, reported⟩ :=
        declare_collects env pending tracks.distinct entered line bound stands
      refine ⟨⟨?_, entries', pending', entered'⟩, ?_⟩
      · exact (inUnknown_declare env checked.1).trans known
      · rw [List.filter_append, List.filter_eq_nil_iff.mpr (by simpa using quiet), reported,
          List.filter_eq_self.mpr fun d member => isRepetition_of_mem_repeats member]
        simp

theorem step_collects {around : Surroundings} {no : Nat}
    (tracks : Tracks no starts p.blocks around) (collects : Collects starts header kind seen p)
    (text : String) (free : (around.inText || !(Line.classify no text).isHeader) = true) :
    ∃ more,
      Tracks (no + 1) (starts ++ more) (p.step env no text).1.blocks
        (shift around no (Line.classify no text)) ∧
      Collects (starts ++ more) header kind
        (seen ++ (p.occurrence? env around (Line.classify no text)).toList)
        (p.step env no text).1 ∧
      (p.step env no text).2.filter Diagnostic.isRepetition =
        (p.occurrence? env around (Line.classify no text)).toList.flatMap (repeats seen) := by
  obtain ⟨more, next⟩ := tracks_step tracks text.toList (Line.classify no text)
  refine ⟨more, (blocks_step env p no text).symm ▸ next, ?_⟩
  have quiet : (p.blocks.step no text.toList (Line.classify no text)).2.filter
      Diagnostic.isRepetition = [] := by
    rw [List.filter_eq_nil_iff]
    intro d member
    simp [isRepetition_of_inBlocks (p.blocks.step_code no text.toList _ d member)]
  have unchanged (blocks : Stack) : Collects (starts ++ more) header kind seen { p with blocks } :=
    ⟨collects.known, (collects.append more).pending⟩
  rw [step]
  dsimp only
  rw [tracks.inText_eq]
  cases own : around.inText with
  | true =>
      have none_ : p.occurrence? env around (Line.classify no text) = none := by
        cases Line.classify no text <;> simp [occurrence?, own]
      rw [none_, if_pos rfl, Option.toList_none, List.append_nil]
      exact ⟨unchanged _, quiet⟩
  | false =>
      rw [if_neg Bool.false_ne_true, List.filter_append, quiet, List.nil_append]
      have outside : p.blocks.inText = false := tracks.inText_eq.trans own
      cases line : Line.classify no text with
      | header name =>
          rw [own, line] at free
          cases free
      | setting name value =>
          rw [blocks_step_setting outside]
          obtain ⟨after, reported⟩ := setting_collects env tracks collects own name value
          exact ⟨after.append more, reported⟩
      | _ =>
          dsimp only [sectionStep, occurrence?]
          rw [Option.toList_none, List.append_nil]
          exact ⟨unchanged _, rfl⟩

/-! ## All lines -/

theorem run_collects {around : Surroundings} {no : Nat} {lines : List String}
    (tracks : Tracks no starts p.blocks around) (collects : Collects starts header kind seen p)
    (free : unbroken around no lines = true) :
    ∃ more,
      Collects (starts ++ more) header kind (seen ++ p.occurrences env around no lines)
        (p.run env no lines).1 ∧
      (p.run env no lines).2.filter Diagnostic.isRepetition =
        repetitions seen (p.occurrences env around no lines) := by
  induction lines generalizing p around no starts seen with
  | nil =>
      refine ⟨[], ?_, rfl⟩
      rw [List.append_nil, occurrences, List.append_nil]
      exact collects
  | cons text lines ih =>
      obtain ⟨here, later⟩ := Bool.and_eq_true_iff.mp free
      obtain ⟨more, tracks, collects, reported⟩ := step_collects env tracks collects text here
      obtain ⟨others, collects, reported'⟩ := ih tracks collects later
      refine ⟨more ++ others, ?_, ?_⟩
      · rw [← List.append_assoc, occurrences, ← List.append_assoc]
        exact collects
      · simp only [run, List.filter_append, reported, reported', occurrences]
        cases p.occurrence? env around (Line.classify no text) with
        | none => simp
        | some o => simp [repetitions]

theorem tracks_run {around : Surroundings} {no : Nat} (tracks : Tracks no starts p.blocks around)
    (lines : List String) :
    ∃ more, Tracks (no + lines.length) (starts ++ more) (p.run env no lines).1.blocks
      (surroundings around no (Line.classifyFrom no lines)) := by
  induction lines generalizing p around no starts with
  | nil => exact ⟨[], by rwa [List.append_nil]⟩
  | cons text lines ih =>
      obtain ⟨more, next⟩ := tracks_step tracks text.toList (Line.classify no text)
      rw [← blocks_step env] at next
      obtain ⟨others, last⟩ := ih next
      refine ⟨more ++ others, ?_⟩
      rw [← List.append_assoc, List.length_cons, Nat.add_comm lines.length, ← Nat.add_assoc]
      exact last

theorem exists_line_of_mem_occurrences {around : Surroundings} {no : Nat} {lines : List String}
    (member : o ∈ p.occurrences env around no lines) :
    ∃ (p : Pass) (around : Surroundings) (before : List String) (text : String)
      (after : List String), lines = before ++ text :: after ∧
        p.occurrence? env around (Line.classify (no + before.length) text) = some o := by
  induction lines generalizing p around no with
  | nil => cases member
  | cons text lines ih =>
      rcases List.mem_append.mp member with here | later
      · exact ⟨p, around, [], text, lines, rfl, Option.mem_toList.mp here⟩
      · obtain ⟨p', around', before, text', after, rfl, found⟩ := ih later
        refine ⟨p', around', text :: before, text', after, rfl, ?_⟩
        rw [List.length_cons, Nat.add_comm before.length, ← Nat.add_assoc]
        exact found

theorem exists_setting_of_occurrence? {around : Surroundings} {line : Line}
    (found : p.occurrence? env around line = some o) :
    line = .setting o.name o.value ∧
      env.catalog.resolve o.name.text p.scope = .known o.descriptor := by
  unfold occurrence? at found
  split at found
  · split_ifs at found with own
    split at found
    · rename_i resolved
      cases found
      exact ⟨rfl, resolved⟩
    · cases found
  · cases found

theorem line_occurrences {around : Surroundings} {no : Nat} {lines : List String}
    (member : o ∈ p.occurrences env around no lines) :
    no ≤ o.name.line ∧ o.name.line < no + lines.length := by
  obtain ⟨p, around, before, text, after, rfl, found⟩ := exists_line_of_mem_occurrences env member
  obtain ⟨line, -⟩ := exists_setting_of_occurrence? env found
  have pieces := Line.pieces_ofChars (no + before.length) text.toList
  rw [← Line.classify, line] at pieces
  have here := (pieces.slices o.name List.mem_cons_self).1
  rw [here, List.length_append, List.length_cons]
  omega

theorem nodup_occurrences (p : Pass) (around : Surroundings) (no : Nat) (lines : List String) :
    ((p.occurrences env around no lines).map fun o => o.name.range).Nodup := by
  induction lines generalizing p around no with
  | nil => exact List.nodup_nil
  | cons text lines ih =>
      rw [occurrences, List.map_append, List.nodup_append]
      refine ⟨?_, ih _ _ _, ?_⟩
      · cases p.occurrence? env around (Line.classify no text) <;> simp
      · -- what is on the line is not on a later one
        intro r here r' later same
        obtain ⟨o, member, rfl⟩ := List.mem_map.mp here
        obtain ⟨o', member', rfl⟩ := List.mem_map.mp later
        have single : o ∈ p.occurrences env around no [text] := by
          rw [occurrences]
          exact List.mem_append_left _ member
        have first := (line_occurrences env single).2
        have second := (line_occurrences env member').1
        have lines : o.name.line = o'.name.line := congrArg (fun r => r.start.line) same
        simp only [List.length_cons, List.length_nil] at first
        omega

end Pass

theorem Descriptor.name_foldl_apply (d : Descriptor) (patches : List Patch) :
    (patches.foldl apply d).name = d.name := by
  induction patches generalizing d with
  | nil => rfl
  | cons patch patches ih => exact ih (d.apply patch)

theorem Catalog.name_of_resolve {c : Catalog} {name : String} {scope : Scope} {d : Descriptor}
    (resolved : c.resolve name scope = .known d) :
    ∃ entry, c.find? (Text.trimmed name) = some entry ∧ d.name = entry.name := by
  unfold resolve at resolved
  dsimp only at resolved
  split_ifs at resolved with exempt
  cases found : c.find? (Text.trimmed name) with
  | none =>
      rw [found] at resolved
      cases resolved
  | some entry =>
      rw [found] at resolved
      cases resolved
      refine ⟨entry, rfl, ?_⟩
      unfold Descriptor.specialize?
      split
      · rfl
      · exact entry.name_foldl_apply _

/-! ## The whole document -/

theorem filter_isRepetitionAt_eq_nil {ds : List Diagnostic} {os : List Occurrence}
    (away : ∀ d ∈ ds, d.isRepetition = true → ∀ o ∈ os, d.range.start.line ≠ o.name.line) :
    ds.filter (Occurrence.isRepetitionAt os) = [] := by
  rw [List.filter_eq_nil_iff]
  intro d member chosen
  obtain ⟨repeated, some_⟩ := Bool.and_eq_true_iff.mp chosen
  obtain ⟨o, inside, range⟩ := List.any_eq_true.mp some_
  apply away d member repeated o inside
  rw [beq_iff_eq.mp range]
  rfl

def surroundingsAfter (lines : List String) : Surroundings :=
  surroundings [] 0 (Line.classifyFrom 0 lines)

def sectionOccurrences (env : Environment) (before : List String) (first : String)
    (body : List String) : List Occurrence :=
  (Pass.run env {} 0 (before ++ [first])).1.occurrences env (surroundingsAfter (before ++ [first]))
    (before.length + 1) body

def Pass.treeAfter (env : Environment) (p : Pass) (no : Nat) : List String → SectionTree
  | [] => p.flush.tree
  | text :: _ => (p.step env no text).1.tree

section Document

variable (env : Environment) {before : List String} {first : String} {body : List String}
  {name : Span}
  {kind : SectionKind}

theorem inText_run (lines : List String) :
    (Pass.run env {} 0 lines).1.blocks.inText = (surroundingsAfter lines).inText := by
  obtain ⟨more, tracks⟩ := Pass.tracks_run env (p := {}) tracks_empty lines
  exact tracks.inText_eq

theorem run_concat (before : List String) (first : String) (body : List String) :
    Pass.run env {} 0 (before ++ first :: body) =
      (((Pass.run env {} 0 (before ++ [first])).1.run env (before.length + 1) body).1,
        (Pass.run env {} 0 (before ++ [first])).2 ++
          ((Pass.run env {} 0 (before ++ [first])).1.run env (before.length + 1) body).2) := by
  have split : before ++ first :: body = (before ++ [first]) ++ body := by simp
  rw [split, Pass.run_append, List.length_append, Nat.zero_add]
  rfl

theorem collects_section (outside : (surroundingsAfter before).inText = false)
    (header : Line.classify before.length first = .header name)
    (known : SectionKind.ofName? name.text = some kind)
    (free : unbroken (surroundingsAfter (before ++ [first])) (before.length + 1) body = true) :
    (∃ starts, Pass.Collects starts name kind (sectionOccurrences env before first body)
      (Pass.run env {} 0 (before ++ first :: body)).1) ∧
    ((Pass.run env {} 0 (before ++ [first])).1.run env (before.length + 1) body).2.filter
      Diagnostic.isRepetition =
        Occurrence.repetitions [] (sectionOccurrences env before first body) := by
  obtain ⟨starts, tracks⟩ := Pass.tracks_run env (p := {}) tracks_empty (before ++ [first])
  rw [Nat.zero_add, List.length_append, List.length_singleton] at tracks
  have entered : (Pass.run env {} 0 (before ++ [first])).1 =
      (Pass.run env {} 0 before).1.opened env name kind := by
    have stepped := Pass.step_header env ((inText_run env before).trans outside) header
    simp only [Pass.run_append, Nat.zero_add, Pass.run, stepped, Pass.header_known env known]
  have start :
      Pass.Collects ([] ++ starts) name kind [] (Pass.run env {} 0 (before ++ [first])).1 := by
    rw [entered]
    exact ⟨rfl, [], rfl, .nil⟩
  obtain ⟨more, collects, reported⟩ := Pass.run_collects env tracks start free
  refine ⟨⟨[] ++ starts ++ more, ?_⟩, reported⟩
  rw [run_concat]
  exact collects

theorem treeAfter_eq {lines rest : List String}
    (next : ∀ text ∈ rest.head?, (surroundingsAfter lines).inText = false ∧
      (Line.classify lines.length text).isHeader = true) :
    (Pass.run env {} 0 lines).1.treeAfter env lines.length rest =
      (Pass.run env {} 0 lines).1.flush.tree := by
  cases rest with
  | nil => rfl
  | cons text rest =>
      obtain ⟨outside, isHeader⟩ := next text rfl
      cases line : Line.classify lines.length text with
      | header name =>
          rw [Pass.treeAfter, Pass.step_header env ((inText_run env lines).trans outside) line]
          unfold Pass.header
          dsimp only
          split <;> rfl
      | _ =>
          rw [line] at isHeader
          cases isHeader

theorem nodup_sectionOccurrences (before : List String) (first : String) (body : List String) :
    ((sectionOccurrences env before first body).map fun o => o.name.range).Nodup :=
  Pass.nodup_occurrences env _ _ _ _

theorem filter_reports_group (outside : (surroundingsAfter before).inText = false)
    (header : Line.classify before.length first = .header name)
    (known : SectionKind.ofName? name.text = some kind)
    (free : unbroken (surroundingsAfter (before ++ [first])) (before.length + 1) body = true)
    (rest : List String) {f : Occurrence}
    (leads : f ∈ Occurrence.leaders (sectionOccurrences env before first body)) :
    (reports env (before ++ first :: body ++ rest)).filter
      (Occurrence.isRepetitionAt
        (Occurrence.group (sectionOccurrences env before first body) f)) =
      Occurrence.groupReports (sectionOccurrences env before first body) f := by
  have reported := (collects_section env outside header known free).2
  have inside : ∀ o ∈ Occurrence.group (sectionOccurrences env before first body) f,
      before.length + 1 ≤ o.name.line ∧ o.name.line < before.length + 1 + body.length :=
    fun o member => Pass.line_occurrences env (List.mem_of_mem_filter member)
  have distinct := nodup_sectionOccurrences env before first body
  generalize picked : Occurrence.isRepetitionAt
    (Occurrence.group (sectionOccurrences env before first body) f) = pick
  have earlier : (Pass.run env {} 0 (before ++ [first])).2.filter pick = [] := by
    rw [← picked]
    apply filter_isRepetitionAt_eq_nil
    intro d member repeated o within
    have line := (Pass.line_of_repeated_run member repeated).2
    have place := (inside o within).1
    rw [List.length_append, List.length_singleton] at line
    omega
  have later : ((Pass.run env {} 0 (before ++ first :: body)).1.reportsFrom env
      (before ++ first :: body).length rest).filter pick = [] := by
    rw [← picked]
    apply filter_isRepetitionAt_eq_nil
    intro d member repeated o within
    have place := (inside o within).2
    rcases List.mem_append.mp member with run | finish
    · have line := (Pass.line_of_repeated_run run repeated).1
      rw [List.length_append, List.length_cons] at line
      omega
    · rw [Pass.finish_isRepetition _ d finish] at repeated
      cases repeated
  have here : ((Pass.run env {} 0 (before ++ [first])).1.run env (before.length + 1) body).2.filter
      pick = Occurrence.groupReports (sectionOccurrences env before first body) f := by
    rw [← Occurrence.filter_repetitions distinct leads, ← reported, List.filter_filter, ← picked]
    apply List.filter_congr
    intro d _
    rw [Occurrence.isRepetitionAt]
    cases d.isRepetition <;> simp
  have start (lines : List String) : reports env lines = Pass.reportsFrom env {} 0 lines := rfl
  rw [start, Pass.reportsFrom_append, List.filter_append, Nat.zero_add, later, List.append_nil,
    run_concat, List.filter_append, earlier, here, List.nil_append]

theorem filter_finish {lines : List String} {os : List Occurrence} (source : String)
    (distinct : ((reports env lines).filter (Occurrence.isRepetitionAt os)).Nodup) :
    (Diagnostic.finish source (reports env lines)).filter (Occurrence.isRepetitionAt os) =
      ((reports env lines).filter (Occurrence.isRepetitionAt os)).map
        fun d => { d with source } := by
  rw [Diagnostic.finish, List.filter_map, ← Diagnostic.filter_firsts _ distinct]
  · rfl
  · intro d member chosen e other same
    exact eq_of_repeated member (Bool.and_eq_true_iff.mp chosen).1 other same

/-- The section that goes into the tree has one setting for each group of declarations, with the
first value or with all values of the group. All but the first of a group are reported, with the
place of the first, unless the setting takes several lines. -/
theorem section_declarations (before : List String) (first : String) (body rest : List String)
    {name : Span} {kind : SectionKind}
    (outside : (surroundingsAfter before).inText = false)
    (header : Line.classify before.length first = .header name)
    (known : SectionKind.ofName? name.text = some kind)
    (free : unbroken (surroundingsAfter (before ++ [first])) (before.length + 1) body = true)
    (next : ∀ text ∈ rest.head?, (surroundingsAfter (before ++ first :: body)).inText = false ∧
      (Line.classify (before ++ first :: body).length text).isHeader = true) :
    (∃ entries,
      (Pass.run env {} 0 (before ++ first :: body)).1.pending = some ⟨name, kind, entries⟩ ∧
      (Pass.run env {} 0 (before ++ first :: body)).1.treeAfter env
          (before ++ first :: body).length rest =
        ((Pass.run env {} 0 (before ++ first :: body)).1.tree.add name kind
          (entries.map Prod.fst)).1 ∧
      List.Forall₂ (Setting.Stands (sectionOccurrences env before first body))
        (entries.map Prod.fst)
        (Occurrence.leaders (sectionOccurrences env before first body))) ∧
    (∀ o ∈ sectionOccurrences env before first body,
      ∃ entry, env.catalog.find? (Text.trimmed o.name.text) = some entry ∧
        o.descriptor.name = entry.name) ∧
    ∀ f ∈ Occurrence.leaders (sectionOccurrences env before first body),
      (reports env (before ++ first :: body ++ rest)).filter
        (Occurrence.isRepetitionAt
          (Occurrence.group (sectionOccurrences env before first body) f)) =
        Occurrence.groupReports (sectionOccurrences env before first body) f ∧
      ∀ source, (Diagnostic.finish source (reports env (before ++ first :: body ++ rest))).filter
        (Occurrence.isRepetitionAt
          (Occurrence.group (sectionOccurrences env before first body) f)) =
        (Occurrence.groupReports (sectionOccurrences env before first body) f).map
          fun d => { d with source } := by
  refine ⟨?_, ?_, ?_⟩
  · obtain ⟨⟨starts, collects⟩, -⟩ := collects_section env outside header known free
    obtain ⟨entries, pending, entered⟩ := collects.pending
    refine ⟨entries, pending, ?_, ?_⟩
    · rw [treeAfter_eq env next, Pass.flush, pending]
    · rw [List.forall₂_map_left_iff]
      exact entered.imp fun _ _ enters => enters.stands
  · intro o member
    obtain ⟨p, around, _, _, _, -, found⟩ := Pass.exists_line_of_mem_occurrences env member
    exact Catalog.name_of_resolve (Pass.exists_setting_of_occurrence? env found).2
  · intro f leads
    have reported := filter_reports_group env outside header known free rest leads
    refine ⟨reported, fun source => ?_⟩
    rw [← reported]
    apply filter_finish
    rw [reported]
    exact Occurrence.nodup_groupReports (nodup_sectionOccurrences env before first body) f

end Document

def noteEnvironment : Environment :=
  { seriesEnvironment with
    catalog :=
      { descriptors :=
          [{ name := "title", type := .string },
            { name := "note", type := .string, multiLine := true }] } }

/-- Titles in two arms and around them, of which two are repetitions, and notes. -/
def noteLines : List String :=
  ["title = a", "if x", "title = b", "ti-tle = c", "else", "title = d", "endif", "title = e",
    "note = p", "note = q"]

theorem section_declarations_in_arms :
    (Occurrence.leaders (sectionOccurrences noteEnvironment ["[group]"] "[widget]" noteLines)).map
        (fun f => (f.key, (Occurrence.groupReports
          (sectionOccurrences noteEnvironment ["[group]"] "[widget]" noteLines) f).length)) =
      [(("title", none), 1), (("title", some 3), 1), (("title", some 6), 0), (("note", none), 0)] ∧
    (∃ entries,
      (Pass.run noteEnvironment {} 0 ("[group]" :: "[widget]" :: noteLines)).1.pending =
        some ⟨⟨"widget", 1, 1, 7⟩, .widget, entries⟩ ∧ entries.length = 4) ∧
    ∀ f ∈ Occurrence.leaders (sectionOccurrences noteEnvironment ["[group]"] "[widget]" noteLines),
      (reports noteEnvironment ("[group]" :: "[widget]" :: noteLines ++ ["[widget]"])).filter
        (Occurrence.isRepetitionAt (Occurrence.group
          (sectionOccurrences noteEnvironment ["[group]"] "[widget]" noteLines) f)) =
        Occurrence.groupReports
          (sectionOccurrences noteEnvironment ["[group]"] "[widget]" noteLines) f := by
  have leaders : (Occurrence.leaders
        (sectionOccurrences noteEnvironment ["[group]"] "[widget]" noteLines)).map
        (fun f => (f.key, (Occurrence.groupReports
          (sectionOccurrences noteEnvironment ["[group]"] "[widget]" noteLines) f).length)) =
      [(("title", none), 1), (("title", some 3), 1), (("title", some 6), 0),
        (("note", none), 0)] := by
    decide
  obtain ⟨⟨entries, pending, -, stands⟩, -, reported⟩ :=
    section_declarations noteEnvironment ["[group]"] "[widget]" noteLines ["[widget]"]
      (by decide) (by decide : _ = Line.header ⟨"widget", 1, 1, 7⟩) (by decide : _ = some .widget)
      (by decide) (by decide)
  refine ⟨leaders, ⟨entries, pending, ?_⟩, fun f leads => (reported f leads).1⟩
  have count := congrArg List.length leaders
  rw [List.length_map, ← stands.length_eq, List.length_map] at count
  exact count

end ChartLint
