import ChartLint.Proofs.Rule.Dates
import ChartLint.Proofs.Section.Inheritance

/-!
# Settings that need others

A rule asks that some setting does not come without one of certain others. It looks at each section
in which the setting holds, also where the setting is taken over from a section around it, and it
searches up from the section it looks at and down from the one that declares the setting. Both
searches together come to all sections around the declaring section and below it, wherever the rule
looks from: `Rule.hasCompanion_iff`. So a rule without conditions reports the same for a declaration
in all sections that take it over, `Rule.mem_checkCompanion_iff`.

* `SectionTree.declaredBelow_iff` is the search down.
* `Rule.exists_runCheck_of_mem_run` and `Rule.mem_run_of_checkCompanion`: the reports of a run are
  those of the checks. The notes on dates in between do not matter.
-/

namespace ChartLint

namespace SectionTree

variable {t : SectionTree}

/-! ## Up and down -/

theorem mem_ancestors_self (t : SectionTree) (id : Nat) : id ∈ t.ancestors id :=
  List.mem_cons_self

theorem mem_ancestors_or (shaped : t.Shaped) {id a b : Nat} (first : a ∈ t.ancestors id)
    (second : b ∈ t.ancestors id) : a ∈ t.ancestors b ∨ b ∈ t.ancestors a := by
  induction id using up_induction shaped with
  | step id ih =>
      rcases (mem_ancestors_iff shaped).mp first with rfl | ⟨p, link, above⟩
      · exact .inr second
      · rcases (mem_ancestors_iff shaped).mp second with rfl | ⟨q, link', above'⟩
        · exact .inl first
        · obtain rfl : p = q := Option.some.inj (link.symm.trans link')
          exact ih p link above above'

theorem exists_child (shaped : t.Shaped) {id a : Nat} (above : a ∈ t.ancestors id)
    (other : a ≠ id) :
    ∃ child, t.parent? child = some a ∧ child ∈ t.ancestors id := by
  induction id using up_induction shaped with
  | step id ih =>
      obtain ⟨p, link, above⟩ := ((mem_ancestors_iff shaped).mp above).resolve_left other
      by_cases direct : a = p
      · exact ⟨id, direct ▸ link, t.mem_ancestors_self id⟩
      · obtain ⟨child, below, around⟩ := ih p link above direct
        exact ⟨child, below, (mem_ancestors_iff shaped).mpr (.inr ⟨p, link, around⟩)⟩

theorem mem_children_iff (shaped : t.Shaped) {id child : Nat} :
    child ∈ t.children id ↔ t.parent? child = some id := by
  rw [children_eq shaped, List.mem_filter, List.mem_range, decide_eq_true_iff,
    and_iff_right_iff_imp]
  intro link
  obtain ⟨n, node, -⟩ := Option.bind_eq_some_iff.mp link
  exact lt_size_of_node? node

theorem lt_size_of_declaresAt {name : String} {id : Nat} (declares : t.declaresAt name id = true) :
    id < t.size := by
  obtain ⟨n, node, -⟩ := (Option.any_eq_true ..).mp declares
  exact lt_size_of_node? node

theorem exists_of_declaredWithin (shaped : t.Shaped) {name : String} {fuel id : Nat}
    (found : t.declaredWithin name fuel id = true) :
    ∃ x, id ∈ t.ancestors x ∧ t.declaresAt name x = true := by
  induction fuel generalizing id with
  | zero => cases found
  | succ fuel ih =>
      obtain ⟨child, member, here⟩ := List.any_eq_true.mp found
      have link := (mem_children_iff shaped).mp member
      have above : id ∈ t.ancestors child :=
        (mem_ancestors_iff shaped).mpr (.inr ⟨id, link, t.mem_ancestors_self id⟩)
      rcases Bool.or_eq_true_iff.mp here with declares | below
      · exact ⟨child, above, declares⟩
      · obtain ⟨x, around, declares⟩ := ih below
        exact ⟨x, ancestors_trans shaped around above, declares⟩

/-- As numbers grow on the way down, a search that is as deep as two numbers are apart gets from one
section to the other. -/
theorem declaredWithin_of_lt (shaped : t.Shaped) {name : String} {fuel id x : Nat}
    (above : id ∈ t.ancestors x) (other : id ≠ x) (near : x < id + fuel + 1)
    (declares : t.declaresAt name x = true) : t.declaredWithin name fuel id = true := by
  induction fuel generalizing id with
  | zero =>
      have lower := le_of_mem_ancestors shaped above
      omega
  | succ fuel ih =>
      obtain ⟨child, link, around⟩ := exists_child shaped above other
      apply List.any_eq_true.mpr
      refine ⟨child, (mem_children_iff shaped).mpr link, Bool.or_eq_true_iff.mpr ?_⟩
      by_cases here : child = x
      · left
        exact here ▸ declares
      · right
        have lower := parent?_lt shaped link
        exact ih around here (by omega)

theorem declaredBelow_iff (shaped : t.Shaped) {name : String} {id : Nat} :
    (t.declaresAt name id = true ∨ t.declaredBelow id name = true) ↔
      ∃ x, id ∈ t.ancestors x ∧ t.declaresAt name x = true := by
  constructor
  · rintro (here | below)
    · exact ⟨id, t.mem_ancestors_self id, here⟩
    · exact exists_of_declaredWithin shaped below
  · rintro ⟨x, above, declares⟩
    by_cases here : id = x
    · exact .inl (here ▸ declares)
    · have bound := lt_size_of_declaresAt declares
      exact .inr (declaredWithin_of_lt shaped above here (by omega) declares)

theorem find?_eq_local? (shaped : t.Shaped) {name : String} (searched : name ∉ scopeNames)
    (id : Nat) :
    t.find? id name = (t.declaring? id name).bind fun a => (t.node? a).bind (·.local? name) := by
  rw [find?, locate?_eq shaped, if_neg searched, nearest]
  cases t.declaring? id name with
  | none => rfl
  | some a => exact t.setting?_head?_declarations name a

theorem declaring?_self (shaped : t.Shaped) {name : String} {id : Nat}
    (declares : t.declaresAt name id = true) : t.declaring? id name = some id := by
  rw [declaring?_eq shaped, if_pos declares]

/-! ## Notes on dates -/

theorem children_undated (t : SectionTree) (id : Nat) : t.undated.children id = t.children id := by
  rw [children, node?_undated, children]
  cases t.node? id <;> rfl

theorem declaredWithin_undated (t : SectionTree) (name : String) (fuel id : Nat) :
    t.undated.declaredWithin name fuel id = t.declaredWithin name fuel id := by
  induction fuel generalizing id with
  | zero => rfl
  | succ fuel ih => simp only [declaredWithin, children_undated, declaresAt_undated, ih]

theorem declaredBelow_undated (t : SectionTree) (id : Nat) (name : String) :
    t.undated.declaredBelow id name = t.declaredBelow id name := by
  have size : t.undated.size = t.size := Array.size_map
  rw [declaredBelow, size, declaredWithin_undated, declaredBelow]

theorem declaring?_undated (t : SectionTree) (id : Nat) (name : String) :
    t.undated.declaring? id name = t.declaring? id name := by
  rw [declaring?, ancestors_undated, declaring?]
  congr 1
  funext a
  exact t.declaresAt_undated name a

end SectionTree

namespace Rule

variable {t : SectionTree}

/-! ## The check -/

def Accompanied (t : SectionTree) (owner : Nat) (required : List String) : Prop :=
  ∃ name ∈ required, ∃ x, t.declaresAt name x = true ∧
    (x ∈ t.ancestors owner ∨ owner ∈ t.ancestors x)

theorem hasCompanion_iff (shaped : t.Shaped) {id owner : Nat} (around : owner ∈ t.ancestors id)
    (required : List String) :
    hasCompanion t id owner required = true ↔ Accompanied t owner required := by
  unfold hasCompanion Accompanied
  simp only [List.any_eq_true, Bool.or_eq_true, SectionTree.find?_isSome_iff shaped]
  constructor
  · rintro ⟨name, needed, ⟨a, above, declares⟩ | below⟩
    · exact ⟨name, needed, a, declares, SectionTree.mem_ancestors_or shaped above around⟩
    · obtain ⟨x, above, declares⟩ := (SectionTree.declaredBelow_iff shaped).mp (.inr below)
      exact ⟨name, needed, x, declares, .inr above⟩
  · rintro ⟨name, needed, x, declares, above | below⟩
    · exact ⟨name, needed, .inl ⟨x, SectionTree.ancestors_trans shaped around above, declares⟩⟩
    · rcases (SectionTree.declaredBelow_iff shaped).mpr ⟨x, below, declares⟩ with here | below
      · exact ⟨name, needed, .inl ⟨owner, around, here⟩⟩
      · exact ⟨name, needed, .inr below⟩

theorem mem_checkCompanion_iff (shaped : t.Shaped) (ctx : RuleContext) {dependent : String}
    (searched : dependent ∉ SectionTree.scopeNames) (required : List String) (id : Nat)
    (d : Diagnostic) :
    d ∈ checkCompanion ctx t id dependent [] required ↔
      ∃ owner n s, t.declaring? id dependent = some owner ∧ t.node? owner = some n ∧
        n.local? dependent = some s ∧ ¬ Accompanied t owner required ∧
        d = .ofProblem (.missingCompanion dependent [] required) s.name := by
  have found := SectionTree.find?_eq_local? shaped searched id
  unfold checkCompanion
  cases declaring : t.declaring? id dependent with
  | none =>
      rw [declaring] at found
      rw [found]
      simp
  | some owner =>
      have around : owner ∈ t.ancestors id := List.mem_of_find?_eq_some declaring
      rw [declaring, Option.bind_some] at found
      have companion := hasCompanion_iff shaped around required
      rw [found]
      cases node : t.node? owner with
      | none => simp [node]
      | some n =>
          cases first : n.local? dependent with
          | none => simp [node, first]
          | some s =>
              cases has : hasCompanion t id owner required <;> simp [node, first, has, ← companion]

theorem checkCompanion_undated (ctx : RuleContext) (t : SectionTree) (id : Nat) (dependent : String)
    (required : List String) :
    checkCompanion ctx t.undated id dependent [] required =
      checkCompanion ctx t id dependent [] required := by
  have companions (owner : Nat) :
      hasCompanion t.undated id owner required = hasCompanion t id owner required := by
    simp only [hasCompanion, SectionTree.find?_undated, SectionTree.declaredBelow_undated,
      Option.isSome_map]
  unfold checkCompanion
  rw [SectionTree.find?_undated, SectionTree.declaring?_undated]
  cases t.find? id dependent with
  | none => rfl
  | some s =>
      have place : s.undated.name = s.name := rfl
      simp only [Option.map_some, companions, List.all_nil, Bool.true_and, place]

/-! ## Runs -/

variable {ctx : RuleContext} {rules : List Rule} {id : Nat} {d : Diagnostic}

def looksAt (rule : Rule) (t : SectionTree) (id : Nat) : Bool :=
  (t.node? id).any fun n => rule.kinds.contains n.kind

theorem looksAt_undated (rule : Rule) (t : SectionTree) (id : Nat) :
    rule.looksAt t.undated id = rule.looksAt t id := by
  rw [looksAt, SectionTree.node?_undated, Option.any_map, looksAt]
  rfl

def visit (ctx : RuleContext) (t : SectionTree) (id : Nat) (rule : Rule) :
    SectionTree × List Diagnostic :=
  if rule.looksAt t id then runCheck ctx t id rule.check else (t, [])

theorem runAt_cons (ctx : RuleContext) (id : Nat) (rule : Rule) (rules : List Rule)
    (t : SectionTree) :
    (runAt ctx id (rule :: rules) t).2 =
      (visit ctx t id rule).2 ++ (runAt ctx id rules (visit ctx t id rule).1).2 :=
  rfl

theorem runAll_cons (ctx : RuleContext) (rules : List Rule) (id : Nat) (ids : List Nat)
    (t : SectionTree) :
    (runAll ctx rules (id :: ids) t).2 =
      (runAt ctx id rules t).2 ++ (runAll ctx rules ids (runAt ctx id rules t).1).2 :=
  rfl

theorem undated_visit (ctx : RuleContext) (t : SectionTree) (id : Nat) (rule : Rule) :
    (visit ctx t id rule).1.undated = t.undated := by
  unfold visit
  split
  · rw [runCheck_tree, SectionTree.undated_readAll]
  · rfl

theorem undated_runAt (ctx : RuleContext) (t : SectionTree) (id : Nat) (rules : List Rule) :
    (runAt ctx id rules t).1.undated = t.undated := by
  rw [runAt_tree, SectionTree.undated_readAll]

theorem exists_runCheck_of_mem_runAt (member : d ∈ (runAt ctx id rules t).2) :
    ∃ rule ∈ rules, ∃ t', t'.undated = t.undated ∧ d ∈ (runCheck ctx t' id rule.check).2 := by
  induction rules generalizing t with
  | nil => cases member
  | cons rule rules ih =>
      rw [runAt_cons] at member
      rcases List.mem_append.mp member with here | later
      · unfold visit at here
        split at here
        · exact ⟨rule, List.mem_cons_self, t, rfl, here⟩
        · cases here
      · obtain ⟨rule', member', t', same, found⟩ := ih later
        exact ⟨rule', List.mem_cons_of_mem rule member', t',
          same.trans (undated_visit ctx t id rule), found⟩

theorem exists_runCheck_of_mem_runAll {ids : List Nat} (member : d ∈ (runAll ctx rules ids t).2) :
    ∃ rule ∈ rules, ∃ id t', t'.undated = t.undated ∧ d ∈ (runCheck ctx t' id rule.check).2 := by
  induction ids generalizing t with
  | nil => cases member
  | cons id ids ih =>
      rw [runAll_cons] at member
      rcases List.mem_append.mp member with here | later
      · obtain ⟨rule, within, t', same, found⟩ := exists_runCheck_of_mem_runAt here
        exact ⟨rule, within, id, t', same, found⟩
      · obtain ⟨rule, within, id', t', same, found⟩ := ih later
        exact ⟨rule, within, id', t', same.trans (undated_runAt ctx t id rules), found⟩

theorem exists_runCheck_of_mem_run (member : d ∈ run ctx rules t) :
    ∃ rule ∈ rules, ∃ id t', t'.undated = t.undated ∧ d ∈ (runCheck ctx t' id rule.check).2 :=
  exists_runCheck_of_mem_runAll member

section reported

variable {rule : Rule} {dependent : String} {required : List String}
  (check : rule.check = .companion dependent [] required)
include check

theorem mem_visit {t' : SectionTree} (same : t'.undated = t.undated)
    (looks : rule.looksAt t id = true)
    (found : d ∈ checkCompanion ctx t id dependent [] required) : d ∈ (visit ctx t' id rule).2 := by
  have looks' : rule.looksAt t' id = true := by rw [← looksAt_undated, same, looksAt_undated, looks]
  have found' : d ∈ checkCompanion ctx t' id dependent [] required := by
    rwa [← checkCompanion_undated, same, checkCompanion_undated]
  rw [visit, if_pos looks', check]
  exact found'

theorem mem_runAt {t' : SectionTree} (same : t'.undated = t.undated) (member : rule ∈ rules)
    (looks : rule.looksAt t id = true)
    (found : d ∈ checkCompanion ctx t id dependent [] required) :
    d ∈ (runAt ctx id rules t').2 := by
  induction rules generalizing t' with
  | nil => cases member
  | cons first rules ih =>
      rw [runAt_cons]
      apply List.mem_append.mpr
      rcases List.mem_cons.mp member with rfl | later
      · exact .inl (mem_visit check same looks found)
      · exact .inr (ih ((undated_visit ctx t' id first).trans same) later)

theorem mem_runAll {t' : SectionTree} (same : t'.undated = t.undated) {ids : List Nat}
    (within : id ∈ ids) (member : rule ∈ rules) (looks : rule.looksAt t id = true)
    (found : d ∈ checkCompanion ctx t id dependent [] required) :
    d ∈ (runAll ctx rules ids t').2 := by
  induction ids generalizing t' with
  | nil => cases within
  | cons first ids ih =>
      rw [runAll_cons]
      apply List.mem_append.mpr
      rcases List.mem_cons.mp within with rfl | later
      · exact .inl (mem_runAt check same member looks found)
      · exact .inr (ih ((undated_runAt ctx t' first rules).trans same) later)

theorem mem_run_of_checkCompanion (member : rule ∈ rules) (looks : rule.looksAt t id = true)
    (found : d ∈ checkCompanion ctx t id dependent [] required) : d ∈ run ctx rules t := by
  obtain ⟨n, node, -⟩ := (Option.any_eq_true ..).mp looks
  have within := List.mem_range.mpr (SectionTree.lt_size_of_node? node)
  exact mem_runAll check rfl within member looks found

end reported

end Rule

/-! ## The wording of reports -/

def isPlain (text : String) : Bool :=
  text.toList.all fun c => c.isLower || c == '-' || c == ' '

theorem isPlain_append (a b : String) : isPlain (a ++ b) = (isPlain a && isPlain b) := by
  rw [isPlain, String.toList_append, List.all_append, isPlain, isPlain]

theorem isPlain_right (a mark : String) (odd : isPlain mark = false) :
    isPlain (a ++ mark) = false := by
  rw [isPlain_append, odd, Bool.and_false]

theorem isPlain_middle (a mark b : String) (odd : isPlain mark = false) :
    isPlain (a ++ mark ++ b) = false := by
  rw [isPlain_append, isPlain_right a mark odd, Bool.false_and]

namespace Problem

theorem isPlain_unknownName (name : String) : isPlain (unknownName name).message = false :=
  isPlain_right ("unknown name '" ++ name) "'" (by decide)

theorem isPlain_unknownSetting (name : String) (suggestions : List String) :
    isPlain (unknownSetting name suggestions).message = false := by
  cases suggestions with
  | nil => exact isPlain_right ("unknown setting '" ++ name) "'" (by decide)
  | cons first others =>
      exact isPlain_right ("unknown setting '" ++ name ++ "', did you mean " ++
        Suggestion.render (first :: others)) "?" (by decide)

theorem isPlain_deprecatedSetting (name notice : String) :
    isPlain (deprecatedSetting name notice).message = false :=
  isPlain_middle name " is deprecated. " notice (by decide)

theorem isPlain_ineffectiveOnWidget (name widget : String) (widgets : List String) :
    isPlain (ineffectiveOnWidget name widget widgets).message = false :=
  isPlain_middle (name ++ " has no effect on " ++ widget) " widgets, it applies to: "
    (listed widgets)
    (by decide)

theorem isPlain_ineffectiveInSection (name : String) (kind : SectionKind)
    (kinds : List SectionKind) :
    isPlain (ineffectiveInSection name kind kinds).message = false :=
  isPlain_middle (name ++ " has no effect in " ++ bracketed kind.name) ", it applies to: "
    (listed (headers kinds)) (by decide)

theorem isPlain_colorCount (thresholds colors : Nat) :
    isPlain (colorCount thresholds colors).message = false :=
  isPlain_middle ("incorrect colors count: " ++ toString thresholds ++ " thresholds need " ++
    toString (thresholds - 1)) " colors, found " (toString colors) (by decide)

theorem isPlain_rowOverflow (needed available : Float) :
    isPlain (rowOverflow needed available).message = false :=
  isPlain_middle ("widgets in this row need " ++ Decimal.text needed ++ " width-units")
    ", the grid has " (Decimal.text available) (by decide)

theorem isPlain_groupOverflow (needed available : Float) :
    isPlain (groupOverflow needed available).message = false :=
  isPlain_middle ("widgets in this group need " ++ Decimal.text needed ++ " height-units")
    ", the grid has " (Decimal.text available) (by decide)

variable (dependent : String) (required : List String)

theorem message_missingCompanion :
    (missingCompanion dependent [] required).message =
      Text.joined " or " required ++ (" is required if " ++ dependent ++ " is specified") :=
  rfl

theorem emptyValue_ne_missingCompanion (name : String) :
    (emptyValue name).message ≠ (missingCompanion dependent [] required).message := by
  have worded : (emptyValue name).message = name ++ " must not be empty" := rfl
  rw [worded, message_missingCompanion]
  intro same
  have last := congrArg (fun text => text.toList.reverse) same
  simp at last

theorem repeatedSetting_ne_missingCompanion (name : String) :
    (repeatedSetting name).message ≠ (missingCompanion dependent [] required).message := by
  have worded : (repeatedSetting name).message = name ++ " is already defined" := rfl
  rw [worded, message_missingCompanion]
  intro same
  have last := congrArg (fun text => text.toList.reverse) same
  simp at last

end Problem

namespace RuleCheck

def problem? : RuleCheck → Option Problem
  | .companion dependent conditions required =>
      some (.missingCompanion dependent conditions required)
  | .effect name conditions => some (.ineffective name conditions)
  | .order earlier later => some (.dateOrder earlier later)
  | _ => none

def dependent? : RuleCheck → Option String
  | .companion dependent [] _ => some dependent
  | _ => none

end RuleCheck

namespace Layout

theorem isPlain_checkRows (g : Grid) (used : Float) (rows : List (List Box)) :
    ∀ d ∈ g.checkRows used rows, isPlain d.message = false := by
  have row (boxes : List Box) : ∀ d ∈ g.checkRow boxes, isPlain d.message = false := by
    unfold Grid.checkRow
    cases g.width with
    | none => simp
    | some limit =>
        dsimp only
        cases firstOverflow? limit 0 boxes with
        | none => simp
        | some entry => simpa [Diagnostic.ofProblem] using Problem.isPlain_rowOverflow entry.2 limit
  induction rows generalizing used with
  | nil => simp [Grid.checkRows]
  | cons boxes rows ih =>
      rw [Grid.checkRows, List.forall_mem_append]
      refine ⟨row boxes, ?_⟩
      split
      · rename_i limit last _ _
        split
        · simpa [Diagnostic.ofProblem] using Problem.isPlain_groupOverflow _ limit
        · exact ih _
      · exact ih _

end Layout

namespace Rule

variable {t : SectionTree} {ctx : RuleContext} {id : Nat} {d : Diagnostic}

theorem message_checkCompanion {dependent : String} {conditions : List Condition}
    {required : List String} (member : d ∈ checkCompanion ctx t id dependent conditions required) :
    d.message = (Problem.missingCompanion dependent conditions required).message := by
  unfold checkCompanion at member
  split at member
  · cases member
  · dsimp only at member
    split at member
    · rw [List.mem_singleton.mp member]
      rfl
    · cases member

theorem message_checkEffect {name : String} {conditions : List Condition}
    (member : d ∈ checkEffect ctx t id name conditions) :
    d.message = (Problem.ineffective name conditions).message := by
  unfold checkEffect at member
  split at member
  · cases member
  · split at member
    · cases member
    · rw [List.mem_singleton.mp member]
      rfl

theorem message_checkOrder {earlier later : String}
    (member : d ∈ (checkOrder ctx t id earlier later).2) :
    d.message = (Problem.dateOrder earlier later).message := by
  rw [checkOrder_eq] at member
  cases compared : comparedAt? t id earlier later with
  | none =>
      rw [compared] at member
      cases member
  | some places =>
      rw [compared] at member
      dsimp only [Option.elim_some] at member
      unfold orderReport at member
      split at member
      · split at member
        · cases member
        · rw [List.mem_singleton.mp member]
          rfl
      · cases member

theorem isPlain_checkWidgetEffect (member : d ∈ checkWidgetEffect t id) :
    isPlain d.message = false := by
  unfold checkWidgetEffect at member
  split at member
  · split at member
    · cases member
    · obtain ⟨s, -, rfl⟩ := List.mem_map.mp member
      exact Problem.isPlain_ineffectiveOnWidget _ _ _
  · cases member

theorem isPlain_checkSectionEffect (member : d ∈ checkSectionEffect t id) :
    isPlain d.message = false := by
  unfold checkSectionEffect at member
  split at member
  · cases member
  · obtain ⟨s, -, found⟩ := List.mem_filterMap.mp member
    dsimp only at found
    split at found
    · cases found
      exact Problem.isPlain_ineffectiveInSection _ _ _
    · cases found

theorem isPlain_checkColors (member : d ∈ checkColors t id) : isPlain d.message = false := by
  unfold checkColors at member
  split at member
  · split at member
    · split at member
      · split at member
        · cases member
        · rw [List.mem_singleton.mp member]
          exact Problem.isPlain_colorCount _ _
      · cases member
    · cases member
  · cases member

theorem isPlain_layout (member : d ∈ Layout.check t id) : isPlain d.message = false := by
  unfold Layout.check at member
  dsimp only at member
  split at member
  · cases member
  · exact Layout.isPlain_checkRows _ _ _ d member

/-- What a check reports is its problem, or has signs in it that no rule about missing companions
uses. -/
theorem runCheck_wording {c : RuleCheck} (member : d ∈ (runCheck ctx t id c).2) :
    (∃ p ∈ c.problem?, d.message = p.message) ∨ isPlain d.message = false := by
  cases c with
  | companion dependent conditions required => exact .inl ⟨_, rfl, message_checkCompanion member⟩
  | effect name conditions => exact .inl ⟨_, rfl, message_checkEffect member⟩
  | order earlier later => exact .inl ⟨_, rfl, message_checkOrder member⟩
  | widgetEffect => exact .inr (isPlain_checkWidgetEffect member)
  | sectionEffect => exact .inr (isPlain_checkSectionEffect member)
  | colors => exact .inr (isPlain_checkColors member)
  | layout => exact .inr (isPlain_layout member)

/-! ## The registered rules -/

theorem searched_registered : ∀ rule ∈ all, ∀ name ∈ rule.check.dependent?,
    name ∉ SectionTree.scopeNames ∧ rule.kinds = settingSections := by
  decide

theorem isPlain_registered : ∀ rule ∈ all, ∀ name ∈ rule.check.dependent?,
    ∀ p ∈ rule.check.problem?, isPlain p.message = true := by
  decide +kernel

theorem eq_of_message_registered : ∀ rule ∈ all, ∀ rule' ∈ all,
    (rule.check.problem?.map Problem.message).isSome = true →
    rule'.check.problem?.map Problem.message = rule.check.problem?.map Problem.message →
    rule' = rule := by
  decide

variable {rule : Rule} {dependent : String} {required : List String}

theorem isPlain_of_registered (registered : rule ∈ all)
    (check : rule.check = .companion dependent [] required) :
    isPlain (Problem.missingCompanion dependent [] required).message = true :=
  isPlain_registered rule registered dependent (by rw [check]; rfl) _ (by rw [check]; rfl)

theorem exists_checkCompanion_of_mem_run {rules : List Rule} (chosen : ∀ r ∈ rules, r ∈ all)
    (registered : rule ∈ all) (check : rule.check = .companion dependent [] required)
    (member : d ∈ run ctx rules t)
    (worded : d.message = (Problem.missingCompanion dependent [] required).message) :
    ∃ id, d ∈ checkCompanion ctx t id dependent [] required := by
  obtain ⟨other, within, id, t', same, found⟩ := exists_runCheck_of_mem_run member
  rcases runCheck_wording found with ⟨p, reported, message⟩ | odd
  · have texts : other.check.problem?.map Problem.message =
        rule.check.problem?.map Problem.message := by
      rw [Option.mem_def.mp reported, check, Option.map_some, ← message, worded]
      rfl
    obtain rfl := eq_of_message_registered rule registered other (chosen other within)
      (by rw [check]; rfl) texts
    rw [check] at found
    replace found : d ∈ checkCompanion ctx t' id dependent [] required := found
    rw [← checkCompanion_undated, same, checkCompanion_undated] at found
    exact ⟨id, found⟩
  · rw [worded, isPlain_of_registered registered check] at odd
    cases odd

end Rule
end ChartLint
