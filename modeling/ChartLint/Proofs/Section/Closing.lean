import ChartLint.Proofs.Section.Reports

/-!
# When sections are closed

The open path is followed through any headers and settings up to its end. Each section with a header
is closed, and with that checked, one time. Whether it lacks a section can be read off what follows
its header: `Opening.needed` are the names it waits for, `Opening.contents` the sections up to the
next one that takes its place or one further out.

* `OpenPath.closings`: the levels as they are closed. All that is reported for want of a section or
  of settings is reported on them, by `OpenPath.filter_reports`.
* `Level.settled`: what becomes of a level until it is closed, from what follows alone.
* `OpenPath.closings_perm`: the levels that are closed are those that were open or were opened, each
  as it has settled.
* `OpenPath.reports_missingSection`: the main statement.
-/

namespace ChartLint

inductive PathEvent where
  | header (name : Span)
  | setting (name value : String)

def PathEvent.kind? : PathEvent → Option SectionKind
  | .header name => SectionKind.ofName? name.text
  | .setting .. => none

theorem SectionKind.depth_le (kind : SectionKind) : kind.depth ≤ 4 := by
  cases kind <;> decide

def SectionKind.slotAt (opened : Nat) (kind : SectionKind) : Nat :=
  if kind.isInheritable ∧ opened < kind.depth ∧ kind.minDepth ≤ opened then opened else kind.depth

theorem SectionKind.depth_of_isInheritable {kind : SectionKind}
    (inheritable : kind.isInheritable = true) :
    kind.depth = 4 := by
  revert inheritable
  cases kind <;> decide

theorem SectionKind.slotAt_shallow {kind : SectionKind} (shallow : kind.depth < 4) (opened : Nat) :
    kind.slotAt opened = kind.depth := by
  have plain : ¬ kind.isInheritable = true := by
    intro inheritable
    have := depth_of_isInheritable inheritable
    omega
  simp [SectionKind.slotAt, plain]

def Code.ofClosing : Code → Bool
  | .missingSection | .missingSetting => true
  | _ => false

namespace OpenPath

def reports (c : Catalog) (p : OpenPath) : List PathEvent → List Diagnostic
  | [] => p.finish c
  | .header name :: events =>
    let (p, _, found) := p.push c name
    found ++ p.reports c events
  | .setting name value :: events => (p.declare c name value).reports c events

def closed (n : Nat) : List Level → List (Level × List Level)
  | [] => []
  | l :: below => if n ≤ below.length then (l, below) :: closed n below else []

def closings (c : Catalog) (p : OpenPath) : List PathEvent → List (Level × List Level)
  | [] => closed 0 p.levels
  | .header name :: events =>
    let closedHere :=
      (SectionKind.ofName? name.text).elim [] fun kind => closed (p.slot kind) p.levels
    closedHere ++ (p.push c name).1.closings c events
  | .setting name value :: events => (p.declare c name value).closings c events

def room (p : OpenPath) (kind : SectionKind) : List Level :=
  List.replicate (p.slot kind - p.depth) ({} : Level) ++ p.levels.drop (p.depth - p.slot kind)

/-! ## Closing -/

theorem closeTo_eq (c : Catalog) (n : Nat) (levels : List Level) :
    closeTo c n levels =
      (levels.drop (levels.length - n), (closed n levels).flatMap fun x => x.1.missing c x.2) := by
  induction levels with
  | nil => simp [closeTo, closed]
  | cons l below ih =>
      rw [closeTo, closed]
      split
      · rename_i deep
        rw [ih, List.length_cons, Nat.succ_sub deep, List.drop_succ_cons, List.flatMap_cons]
      · rename_i shallow
        rw [Nat.sub_eq_zero_of_le (by simp; omega)]
        rfl

theorem closed_eq_nil {n : Nat} {levels : List Level} (enough : levels.length ≤ n) :
    closed n levels = [] := by
  cases levels with
  | nil => rfl
  | cons l below => exact if_neg (by simp at enough; omega)

theorem map_fst_closed_zero (levels : List Level) : (closed 0 levels).map Prod.fst = levels := by
  induction levels with
  | nil => rfl
  | cons l below ih => simp [closed, ih]

theorem makeRoom_eq (c : Catalog) (p : OpenPath) (header : Span) (kind : SectionKind) :
    p.makeRoom c header kind =
      (p.room kind,
        if p.depth < p.slot kind then
          [.ofProblem (.unexpectedSection kind (SectionKind.atDepth p.depth)) header]
        else (closed (p.slot kind) p.levels).flatMap fun x => x.1.missing c x.2) := by
  unfold makeRoom room
  dsimp only
  split
  · rename_i missing
    rw [Nat.sub_eq_zero_of_le (Nat.le_of_lt missing)]
    rfl
  · rename_i reached
    rw [closeTo_eq, Nat.sub_eq_zero_of_le (Nat.le_of_not_lt reached)]
    rfl

theorem length_room (p : OpenPath) (kind : SectionKind) : (p.room kind).length = p.slot kind := by
  simp [room, depth]
  omega

theorem levels_enter (c : Catalog) (p : OpenPath) (header : Span) (kind : SectionKind) :
    (p.enter c header kind).1.levels =
      .ofHeader header kind :: (p.room kind).map (·.sees kind) := by
  rw [enter, makeRoom_eq]

theorem depth_enter (c : Catalog) (p : OpenPath) (header : Span) (kind : SectionKind) :
    (p.enter c header kind).1.depth = kind.slotAt p.depth + 1 := by
  rw [depth, levels_enter, List.length_cons, List.length_map, length_room]
  rfl

theorem push_known (c : Catalog) (p : OpenPath) {header : Span} {kind : SectionKind}
    (known : SectionKind.ofName? header.text = some kind) :
    p.push c header = ((p.enter c header kind).1, some kind, (p.enter c header kind).2) := by
  rw [push, known]

theorem push_unknown (c : Catalog) (p : OpenPath) {header : Span}
    (unknown : SectionKind.ofName? header.text = none) :
    p.push c header = (p, none, [.ofProblem (.unknownSection header.text) header]) := by
  rw [push, unknown]

theorem depth_declare (c : Catalog) (p : OpenPath) (name value : String) :
    (p.declare c name value).depth = p.depth := by
  unfold declare
  split
  · rfl
  · rename_i levels
    simp [depth, levels]

theorem ofClosing_missing (c : Catalog) (below : List Level) (l : Level) :
    ∀ d ∈ l.missing c below, d.code.ofClosing = true := by
  intro d member
  unfold Level.missing at member
  cases origin : l.origin with
  | none => simp [origin] at member
  | some entry =>
      simp only [origin, List.mem_append, List.mem_map] at member
      rcases member with ⟨group, -, rfl⟩ | member
      · rfl
      · split at member
        · simp at member
        · rw [List.mem_singleton] at member
          exact member ▸ rfl

theorem filter_flatMap_missing (c : Catalog) (checked : List (Level × List Level)) :
    (checked.flatMap fun x => x.1.missing c x.2).filter (·.code.ofClosing) =
      checked.flatMap fun x => x.1.missing c x.2 := by
  rw [List.filter_eq_self]
  intro d member
  obtain ⟨x, -, member⟩ := List.mem_flatMap.mp member
  exact ofClosing_missing c x.2 x.1 d member

theorem filter_enter (c : Catalog) (p : OpenPath) (header : Span) (kind : SectionKind) :
    (p.enter c header kind).2.filter (·.code.ofClosing) =
      (closed (p.slot kind) p.levels).flatMap fun x => x.1.missing c x.2 := by
  have misplaced : (if isMisplaced (p.room kind) kind then
      [Diagnostic.ofProblem (.misplacedSection kind) header] else []).filter (·.code.ofClosing) =
        [] := by
    split <;> rfl
  rw [enter, makeRoom_eq]
  dsimp only
  rw [List.filter_append, misplaced, List.append_nil]
  split
  · rename_i missing
    rw [closed_eq_nil (Nat.le_of_lt missing)]
    rfl
  · exact filter_flatMap_missing c _

theorem filter_reports (c : Catalog) (p : OpenPath) (events : List PathEvent) :
    (p.reports c events).filter (·.code.ofClosing) =
      (p.closings c events).flatMap fun x => x.1.missing c x.2 := by
  induction events generalizing p with
  | nil =>
      rw [reports, finish, closeTo_eq]
      exact filter_flatMap_missing c _
  | cons event events ih =>
      cases event with
      | setting name value => exact ih _
      | header name =>
          rw [reports, closings]
          dsimp only
          rw [List.filter_append, ih, List.flatMap_append]
          cases known : SectionKind.ofName? name.text with
          | none =>
              rw [push_unknown c p known]
              rfl
          | some kind =>
              rw [push_known c p known]
              exact congrArg (· ++ _) (filter_enter c p name kind)

end OpenPath

/-! ## Levels until they are closed -/

namespace Level

/-- What becomes of a level at a depth until it is closed, while a number of levels are open. -/
def settled (c : Catalog) (depth : Nat) : Nat → List PathEvent → Level → Level
  | _, [], l => l
  | opened, .setting name value :: events, l =>
    settled c depth opened events (if depth + 1 = opened then l.declare c name value else l)
  | opened, .header name :: events, l =>
    match SectionKind.ofName? name.text with
    | none => settled c depth opened events l
    | some kind =>
      if kind.slotAt opened ≤ depth then l
      else settled c depth (kind.slotAt opened + 1) events (l.sees kind)

def allSettled (c : Catalog) (opened : Nat) (events : List PathEvent) : List Level → List Level
  | [] => []
  | l :: below => l.settled c below.length opened events :: allSettled c opened events below

theorem origin_settled (c : Catalog) (depth opened : Nat) (events : List PathEvent) (l : Level) :
    (l.settled c depth opened events).origin = l.origin := by
  induction events generalizing opened l with
  | nil => rfl
  | cons event events ih =>
      cases event with
      | setting name value =>
          rw [settled, ih]
          split <;> rfl
      | header name =>
          rw [settled]
          split
          · exact ih opened l
          · split
            · rfl
            · rw [ih, OpenPath.origin_sees]

theorem allSettled_nil (c : Catalog) (opened : Nat) (levels : List Level) :
    allSettled c opened [] levels = levels := by
  induction levels with
  | nil => rfl
  | cons l below ih => rw [allSettled, ih, settled]

theorem allSettled_setting_below (c : Catalog) {opened : Nat} (name value : String)
    (events : List PathEvent) {levels : List Level} (below : levels.length < opened) :
    allSettled c opened (.setting name value :: events) levels =
      allSettled c opened events levels := by
  induction levels with
  | nil => rfl
  | cons l rest ih =>
      rw [List.length_cons] at below
      rw [allSettled, allSettled, ih (by omega), settled, if_neg (by omega)]

theorem allSettled_setting (c : Catalog) (p : OpenPath) (name value : String)
    (events : List PathEvent) :
    allSettled c p.depth (.setting name value :: events) p.levels =
      allSettled c p.depth events (p.declare c name value).levels := by
  unfold OpenPath.declare
  cases levels : p.levels with
  | nil => simp [levels, allSettled]
  | cons l below =>
      have depth : p.depth = below.length + 1 := by simp [OpenPath.depth, levels]
      rw [allSettled, allSettled, allSettled_setting_below c name value events (by omega), settled,
        if_pos depth.symm]

theorem allSettled_unknown (c : Catalog) (opened : Nat) {name : Span} (events : List PathEvent)
    (levels : List Level) (unknown : SectionKind.ofName? name.text = none) :
    allSettled c opened (.header name :: events) levels = allSettled c opened events levels := by
  induction levels with
  | nil => rfl
  | cons l below ih => simp only [allSettled, settled, unknown, ih]

theorem allSettled_known (c : Catalog) (opened : Nat) {name : Span} {kind : SectionKind}
    (events : List PathEvent) (levels : List Level)
    (known : SectionKind.ofName? name.text = some kind) :
    allSettled c opened (.header name :: events) levels =
      (OpenPath.closed (kind.slotAt opened) levels).map Prod.fst ++
        allSettled c (kind.slotAt opened + 1) events
          ((levels.drop (levels.length - kind.slotAt opened)).map (·.sees kind)) := by
  induction levels with
  | nil => simp [allSettled, OpenPath.closed]
  | cons l below ih =>
      rw [allSettled, ih, OpenPath.closed, settled, known]
      dsimp only
      split
      · rename_i deep
        rw [List.length_cons, Nat.succ_sub deep, List.drop_succ_cons]
        rfl
      · rename_i shallow
        rw [OpenPath.closed_eq_nil (by omega), Nat.sub_eq_zero_of_le (by omega),
          Nat.sub_eq_zero_of_le (by simp; omega)]
        simp [allSettled]

theorem allSettled_fill (c : Catalog) (opened n : Nat) (events : List PathEvent)
    (levels : List Level) (kind : SectionKind) :
    (allSettled c opened events
        ((List.replicate n ({} : Level) ++ levels).map (·.sees kind))).filter (·.origin.isSome) =
      (allSettled c opened events (levels.map (·.sees kind))).filter (·.origin.isSome) := by
  induction n with
  | zero => rfl
  | succ n ih =>
      rw [List.replicate_succ, List.cons_append, List.map_cons, allSettled, List.filter_cons, ih,
        if_neg]
      rw [origin_settled, OpenPath.origin_sees]
      simp

end Level

/-! ## Sections with what follows them -/

structure Opening where
  header : Span
  kind : SectionKind
  depth : Nat
  rest : List PathEvent

def openings : Nat → List PathEvent → List Opening
  | _, [] => []
  | opened, .setting .. :: events => openings opened events
  | opened, .header name :: events =>
    match SectionKind.ofName? name.text with
    | none => openings opened events
    | some kind =>
      ⟨name, kind, kind.slotAt opened, events⟩ :: openings (kind.slotAt opened + 1) events

def ownSettings : List PathEvent → List (String × String)
  | [] => []
  | .setting name value :: events => (name, value) :: ownSettings events
  | .header name :: events =>
    if (SectionKind.ofName? name.text).isSome then [] else ownSettings events

def contentsBelow (depth opened : Nat) (events : List PathEvent) : List SectionKind :=
  ((openings opened events).takeWhile fun o => depth < o.depth).map Opening.kind

namespace Opening

def installed (c : Catalog) (settings : List (String × String)) : List (List String) :=
  settings.filterMap fun s => if s.1 = "type" then c.sectionsOf? s.2 else none

/-- The names of the sections of which one has to follow: those of the last known type of a widget,
or else those of its kind. -/
def needed (c : Catalog) (o : Opening) : List String :=
  let usual := o.kind.requiredChildren.map SectionKind.name
  if o.kind = .widget then (installed c (ownSettings o.rest)).getLast?.getD usual else usual

def contents (o : Opening) : List SectionKind :=
  contentsBelow o.depth (o.depth + 1) o.rest

def Lacks (c : Catalog) (o : Opening) : Prop :=
  o.needed c ≠ [] ∧ ∀ kind ∈ o.contents, kind.name ∉ o.needed c

instance (c : Catalog) (o : Opening) : Decidable (o.Lacks c) :=
  inferInstanceAs (Decidable (_ ∧ _))

def level (c : Catalog) (o : Opening) : Level :=
  (Level.ofHeader o.header o.kind).settled c o.depth (o.depth + 1) o.rest

end Opening

/-- Each level with a header is closed one time, as it has settled. -/
theorem OpenPath.closings_perm (c : Catalog) (p : OpenPath) (events : List PathEvent) :
    (((p.closings c events).map Prod.fst).filter (·.origin.isSome)).Perm
      ((Level.allSettled c p.depth events p.levels).filter (·.origin.isSome) ++
        (openings p.depth events).map (·.level c)) := by
  induction events generalizing p with
  | nil =>
      rw [closings, openings, map_fst_closed_zero, Level.allSettled_nil, List.map_nil,
        List.append_nil]
  | cons event events ih =>
      cases event with
      | setting name value =>
          rw [closings, openings, Level.allSettled_setting, ← depth_declare c p name value]
          exact ih _
      | header name =>
          rw [closings]
          cases known : SectionKind.ofName? name.text with
          | none =>
              rw [push_unknown c p known, Level.allSettled_unknown c _ events _ known]
              simp only [openings, known]
              exact ih p
          | some kind =>
              have entered := ih (p.enter c name kind).1
              rw [depth_enter, levels_enter, Level.allSettled, List.length_map, length_room, room,
                List.filter_cons, if_pos (by rw [Level.origin_settled]; rfl),
                Level.allSettled_fill] at entered
              rw [push_known c p known, Level.allSettled_known c _ events _ known]
              simp only [openings, known, List.map_append, List.filter_append, List.map_cons,
                List.append_assoc]
              -- what the header closes is the same on both sides, and the new level comes later
              -- on one of them
              refine (entered.append_left _).trans (List.Perm.append_left _ ?_)
              exact List.perm_middle.symm

/-! ## What a section waits for -/

namespace Level

def sectionReport (l : Level) : List Diagnostic :=
  match l.origin with
  | none => []
  | some (header, _) =>
    if l.awaited.isEmpty then [] else [.ofProblem (.missingSection header.text l.awaited) header]

theorem filter_missing (c : Catalog) (below : List Level) (l : Level) :
    (l.missing c below).filter (·.code == .missingSection) = l.sectionReport := by
  unfold missing sectionReport
  cases l.origin with
  | none => rfl
  | some entry =>
      dsimp only
      rw [List.filter_append]
      have settings (groups : List (List Alternative)) :
          (groups.map fun group => Diagnostic.ofProblem (.missingSettings group) entry.1).filter
            (·.code == .missingSection) = [] := by
        simp [Diagnostic.ofProblem, Problem.code]
      rw [settings, List.nil_append]
      split <;> rfl

def neededAfter (c : Catalog) (l : Level) (settings : List (String × String)) : List String :=
  if l.kind? = some .widget then (Opening.installed c settings).getLast?.getD l.awaited
  else l.awaited

theorem neededAfter_cons (c : Catalog) (l : Level) (name value : String)
    (settings : List (String × String)) :
    l.neededAfter c ((name, value) :: settings) =
      (l.declare c name value).neededAfter c settings := by
  unfold neededAfter declare kind? Opening.installed
  by_cases widget : l.origin.map Prod.snd = some .widget
  · by_cases type : name = "type"
    · cases found : c.sectionsOf? value with
      | none => simp [widget, type, found]
      | some sections => simp [widget, type, found, List.getLast?_cons]
    · simp [widget, type]
  · simp [widget]

def stillNeeded (needed : List String) (kinds : List SectionKind) : List String :=
  if kinds.any fun kind => needed.contains kind.name then [] else needed

theorem stillNeeded_cons (l : Level) (kind : SectionKind) (kinds : List SectionKind) :
    stillNeeded l.awaited (kind :: kinds) = stillNeeded (l.sees kind).awaited kinds := by
  unfold stillNeeded sees
  by_cases met : kind.name ∈ l.awaited
  · simp [met]
  · simp [met]

/-- A level waits for nothing more once one of the sections has followed that it needs. The settings
that say what it needs come first, while it is the innermost. -/
theorem awaited_settled (c : Catalog) (depth opened : Nat) (events : List PathEvent) (l : Level) :
    (l.settled c depth opened events).awaited =
      stillNeeded (if depth + 1 = opened then l.neededAfter c (ownSettings events) else l.awaited)
        (contentsBelow depth opened events) := by
  -- while the level is the innermost its settings count, and from the first section below it on
  -- only the sections do
  induction events generalizing opened l with
  | nil =>
      simp [settled, contentsBelow, openings, ownSettings, neededAfter, Opening.installed,
        stillNeeded]
  | cons event events ih =>
      cases event with
      | setting name value =>
          rw [settled, ih]
          by_cases innermost : depth + 1 = opened
          · simp only [innermost, if_true, contentsBelow, openings, ownSettings, neededAfter_cons]
          · simp only [innermost, if_false, contentsBelow, openings]
      | header name =>
          rw [settled]
          cases known : SectionKind.ofName? name.text with
          | none =>
              have own : ownSettings (.header name :: events) = ownSettings events := by
                simp [ownSettings, known]
              have later : contentsBelow depth opened (.header name :: events) =
                  contentsBelow depth opened events := by
                simp [contentsBelow, openings, known]
              rw [own, later]
              exact ih opened l
          | some kind =>
              have start :
                  (if depth + 1 = opened then l.neededAfter c (ownSettings (.header name :: events))
                    else l.awaited) = l.awaited := by
                simp [ownSettings, known, neededAfter, Opening.installed]
              have later : contentsBelow depth opened (.header name :: events) =
                  if kind.slotAt opened ≤ depth then []
                  else kind :: contentsBelow depth (kind.slotAt opened + 1) events := by
                simp only [contentsBelow, openings, known, List.takeWhile_cons]
                split <;> simp_all
              rw [start, later]
              dsimp only
              split
              · rfl
              · rename_i inside
                rw [ih, if_neg (by omega), stillNeeded_cons]

end Level

namespace Opening

theorem awaited_level (c : Catalog) (o : Opening) :
    (o.level c).awaited = if o.Lacks c then o.needed c else [] := by
  have needed : (Level.ofHeader o.header o.kind).neededAfter c (ownSettings o.rest) =
      o.needed c := by
    simp [Level.neededAfter, Opening.needed, Level.ofHeader, Level.kind?]
  rw [level, Level.awaited_settled, if_pos rfl, needed]
  change Level.stillNeeded _ o.contents = _
  unfold Level.stillNeeded
  split
  · rename_i follows
    obtain ⟨kind, within, named⟩ := List.any_eq_true.mp follows
    have content : ¬ o.Lacks c := fun lacks => lacks.2 kind within (List.contains_iff_mem.mp named)
    rw [if_neg content]
  · rename_i follows
    by_cases any : o.needed c = []
    · simp [any]
    · have lacks : o.Lacks c := by
        refine ⟨any, fun kind within named => follows ?_⟩
        exact List.any_eq_true.mpr ⟨kind, within, List.contains_iff_mem.mpr named⟩
      rw [if_pos lacks]

theorem origin_level (c : Catalog) (o : Opening) : (o.level c).origin = some (o.header, o.kind) :=
  Level.origin_settled ..

theorem sectionReport_level (c : Catalog) (o : Opening) :
    (o.level c).sectionReport =
      if o.Lacks c then [.ofProblem (.missingSection o.header.text (o.needed c)) o.header]
      else [] := by
  rw [Level.sectionReport, origin_level, awaited_level]
  by_cases lacks : o.Lacks c
  · simp [lacks, lacks.1]
  · simp [lacks]

end Opening

namespace OpenPath

theorem closings_perm_openings (c : Catalog) (events : List PathEvent) :
    (((closings c {} events).map Prod.fst).filter (·.origin.isSome)).Perm
      ((openings 0 events).map (·.level c)) :=
  closings_perm c {} events

theorem filter_reports_missingSection (c : Catalog) (events : List PathEvent) :
    (reports c {} events).filter (·.code == .missingSection) =
      (((closings c {} events).map Prod.fst).filter (·.origin.isSome)).flatMap
        Level.sectionReport := by
  have codes : ((reports c {} events).filter (·.code == .missingSection)) =
      ((reports c {} events).filter (·.code.ofClosing)).filter (·.code == .missingSection) := by
    rw [List.filter_filter]
    apply List.filter_congr
    intro d _
    cases d.code <;> rfl
  have filled (levels : List Level) :
      (levels.filter (·.origin.isSome)).flatMap Level.sectionReport =
        levels.flatMap Level.sectionReport := by
    induction levels with
    | nil => rfl
    | cons l levels ih =>
        rw [List.filter_cons, List.flatMap_cons, ← ih]
        cases origin : l.origin with
        | none => simp [Level.sectionReport, origin]
        | some entry => simp
  rw [codes, filter_reports, List.filter_flatMap, filled, List.flatMap_map]
  simp only [Level.filter_missing]

/-- Each section with a known header is checked one time. It is reported for want of a section if
none of those follows that it needs, one time, and otherwise not. -/
theorem reports_missingSection (c : Catalog) (events : List PathEvent) :
    (reports c {} events).filter (·.code.ofClosing) =
        ((closings c {} events).flatMap fun x => x.1.missing c x.2) ∧
      ((closings c {} events).filterMap (·.1.origin)).Perm
        ((openings 0 events).map fun o => (o.header, o.kind)) ∧
      ((reports c {} events).filter (·.code == .missingSection)).Perm
        (((openings 0 events).filter fun o => o.Lacks c).map fun o =>
          .ofProblem (.missingSection o.header.text (o.needed c)) o.header) := by
  refine ⟨filter_reports c {} events, ?_, ?_⟩
  · have origins := (closings_perm_openings c events).filterMap Level.origin
    have same : (fun x : Level × List Level => if x.1.origin.isSome then x.1.origin else none) =
        fun x => x.1.origin := by
      funext x
      cases x.1.origin <;> rfl
    rw [List.filterMap_filter, List.filterMap_map, List.filterMap_map] at origins
    simpa [Opening.origin_level, Function.comp_def, same] using origins
  · rw [filter_reports_missingSection]
    refine ((closings_perm_openings c events).flatMap_right _).trans (.of_eq ?_)
    rw [List.flatMap_map]
    induction openings 0 events with
    | nil => rfl
    | cons o later ih =>
        rw [List.flatMap_cons, ih, Opening.sectionReport_level, List.filter_cons]
        by_cases lacks : o.Lacks c
        · simp [lacks]
        · simp [lacks]

end OpenPath
end ChartLint
