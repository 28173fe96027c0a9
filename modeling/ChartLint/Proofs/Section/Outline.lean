import ChartLint.Proofs.Section.Closing

/-!
# Outlines of sections

An outline is a forest of sections, each in a section that can contain it. Read from the top, its
headers are reported as out of place exactly if one of them does not settle: placeholders outside of
a series, and tags or keys right after tags or keys unless a section of depth three is around them.

* `Outline.admissible_listing`: what the headers of an outline are like when read one by one.
* `OpenPath.Stands`: where the open path stands after some headers.
* `OpenPath.enter_settles` and `OpenPath.reports_admissible_iff`: one more header, and all headers.
* `OpenPath.reports_outline_iff`: the main statement.
-/

namespace ChartLint

namespace SectionKind

theorem mem_parents_of_isInheritable {kind parent : SectionKind}
    (inheritable : kind.isInheritable = true) (shallow : parent.depth < 4) :
    parent ∈ kind.parents := by
  revert inheritable shallow
  cases kind <;> cases parent <;> decide

theorem parents_cases {kind parent : SectionKind} (listed : parent ∈ kind.parents) :
    parent.depth = 3 ∨ kind.isInheritable = true ∨ kind = .placeholders ∧ parent = .widget := by
  revert listed
  cases kind <;> cases parent <;> decide

theorem acceptsParent_of_shallow {kind : SectionKind} (shallow : kind.depth < 4)
    (parent : SectionKind) : kind.acceptsParent parent = true := by
  revert shallow
  cases kind <;> cases parent <;> decide

theorem settles_in_iff {kind host : SectionKind} (deep : kind.depth = 4)
    (listed : host ∈ kind.parents ∨ kind = .placeholders ∧ host.depth = 3) :
    ((kind.isInheritable = true ∨ host.depth = 3) ∧ kind.acceptsParent host = true) ↔
      (kind = .placeholders → host = .series) := by
  revert deep listed
  cases kind <;> cases host <;> decide

theorem not_acceptsParent_of_deep {kind parent : SectionKind} (deep : kind.depth = 4)
    (deep' : parent.depth = 4) : kind.acceptsParent parent = false := by
  revert deep deep'
  cases kind <;> cases parent <;> decide

end SectionKind

/-- Sections side by side: the first one, the sections below it and those beside it. -/
inductive Outline where
  | empty
  | item (kind : SectionKind) (below beside : Outline)

/-- Whether a section stands where its kind says: a root is a configuration, a section of depth four
lies in one of its parents, and any other in a section of depth one less. -/
def SectionKind.FitsIn (kind : SectionKind) : Option SectionKind → Prop
  | none => kind = .configuration
  | some parent => if kind.depth = 4 then parent ∈ kind.parents else parent.depth + 1 = kind.depth

instance (kind : SectionKind) : (parent : Option SectionKind) → Decidable (kind.FitsIn parent)
  | none => inferInstanceAs (Decidable (kind = .configuration))
  | some parent => inferInstanceAs (Decidable
      (if kind.depth = 4 then parent ∈ kind.parents else parent.depth + 1 = kind.depth))

namespace Outline

def listing : Outline → List SectionKind
  | .empty => []
  | .item kind below beside => kind :: (below.listing ++ beside.listing)

def Fits : Option SectionKind → Outline → Prop
  | _, .empty => True
  | parent, .item kind below beside =>
    kind.FitsIn parent ∧ below.Fits (some kind) ∧ beside.Fits parent

instance decidableFits : (parent : Option SectionKind) → (outline : Outline) →
    Decidable (outline.Fits parent)
  | _, .empty => .isTrue trivial
  | parent, .item kind below beside =>
    have := decidableFits (some kind) below
    have := decidableFits parent beside
    inferInstanceAs (Decidable (_ ∧ _ ∧ _))

end Outline

def host? (before : List SectionKind) : Option SectionKind :=
  (before.filter fun kind => kind.depth < 4).getLast?

def Settles (before : List SectionKind) (kind : SectionKind) : Prop :=
  (kind = .placeholders → host? before = some .series) ∧
    (kind.isInheritable = true → before.getLast?.any SectionKind.isInheritable = true →
      (host? before).any (fun host => host.depth == 3) = true)

theorem host?_concat (before : List SectionKind) (kind : SectionKind) :
    host? (before ++ [kind]) = if kind.depth < 4 then some kind else host? before := by
  by_cases shallow : kind.depth < 4
  · simp [host?, shallow]
  · simp [host?, shallow]

/-! ## Reading an outline from the top -/

def SectionKind.Follows (kind : SectionKind) (host : Option SectionKind) : Prop :=
  kind = .configuration ∨
    ∃ h, host = some h ∧
      (kind.depth < 4 ∧ kind.depth ≤ h.depth + 1 ∨
        kind.depth = 4 ∧ (h ∈ kind.parents ∨ kind = .placeholders ∧ h.depth = 3))

def Admissible : Option SectionKind → List SectionKind → Prop
  | _, [] => True
  | host, kind :: kinds =>
    kind.Follows host ∧ Admissible (if kind.depth < 4 then some kind else host) kinds

namespace Outline

structure Within (parent host : SectionKind) : Prop where
  shallow : host.depth < 4
  depth : parent.depth ≤ host.depth
  same : parent.depth = 3 → host = parent

theorem follows_of_fitsIn {kind parent host : SectionKind} (fits : kind.FitsIn (some parent))
    (within : Within parent host) : kind.Follows (some host) := by
  refine .inr ⟨host, rfl, ?_⟩
  change if kind.depth = 4 then parent ∈ kind.parents else parent.depth + 1 = kind.depth at fits
  split at fits
  · rename_i deepest
    refine .inr ⟨deepest, ?_⟩
    rcases SectionKind.parents_cases fits with three | inheritable | ⟨placeholders, widget⟩
    · exact .inl (within.same three ▸ fits)
    · exact .inl (SectionKind.mem_parents_of_isInheritable inheritable within.shallow)
    · subst placeholders widget
      have least : 2 ≤ host.depth := within.depth
      have most := within.shallow
      cases host <;> simp_all [SectionKind.depth, SectionKind.parents]
  · have least := within.depth
    have most := kind.depth_le
    exact .inl ⟨by omega, by omega⟩

theorem eq_empty_of_fits {kind : SectionKind} (deepest : kind.depth = 4) {below : Outline}
    (fits : below.Fits (some kind)) : below = .empty := by
  cases below with
  | empty => rfl
  | item inner below beside =>
      have inside := fits.1
      unfold SectionKind.FitsIn at inside
      cases kind <;> simp [SectionKind.depth] at deepest <;>
        cases inner <;> simp [SectionKind.depth, SectionKind.parents] at inside

theorem admissible_append {parent : SectionKind} {outline : Outline}
    (fits : outline.Fits (some parent))
    {host : SectionKind} (within : Within parent host) {rest : List SectionKind}
    (later : ∀ host, Within parent host → Admissible (some host) rest) :
    Admissible (some host) (outline.listing ++ rest) := by
  -- over any rest, so that the sections beside one are part of what comes after those below it
  induction outline generalizing parent host rest with
  | empty => exact later host within
  | item kind below beside ihBelow ihBeside =>
      obtain ⟨inside, fitsBelow, fitsBeside⟩ := fits
      rw [listing, List.cons_append, List.append_assoc]
      refine ⟨follows_of_fitsIn inside within, ?_⟩
      have beside (host : SectionKind) (within : Within parent host) :
          Admissible (some host) (beside.listing ++ rest) :=
        ihBeside fitsBeside within later
      split
      · rename_i shallow
        have lower : parent.depth + 1 = kind.depth := by
          simpa [SectionKind.FitsIn, Nat.ne_of_lt shallow] using inside
        refine ihBelow fitsBelow ⟨shallow, Nat.le_refl _, fun _ => rfl⟩ ?_
        intro host within
        have := within.depth
        exact beside host ⟨within.shallow, by omega, by omega⟩
      · rename_i deep
        have deepest : kind.depth = 4 := by
          have := kind.depth_le
          omega
        rw [eq_empty_of_fits deepest fitsBelow]
        exact beside host within

theorem admissible_listing {outline : Outline} (fits : outline.Fits none)
    (host : Option SectionKind) : Admissible host outline.listing := by
  induction outline generalizing host with
  | empty => trivial
  | item kind below beside _ ihBeside =>
      obtain ⟨root, fitsBelow, fitsBeside⟩ := fits
      obtain rfl : kind = .configuration := root
      refine ⟨.inl rfl, ?_⟩
      exact admissible_append fitsBelow ⟨by decide, Nat.le_refl _, by decide⟩
        fun host _ => ihBeside fitsBeside (some host)

end Outline

/-! ## Following the headers -/

namespace OpenPath

def innermost? (levels : List Level) : Option SectionKind :=
  levels.head?.bind Level.kind?

/-- Where the path stands after some headers: at the last one if that can have sections below it,
and otherwise one level further in. -/
inductive Stands : List SectionKind → List Level → Prop
  | start : Stands [] []
  | atHost {before : List SectionKind} {kind : SectionKind} {levels : List Level}
      (shallow : kind.depth < 4) (length : levels.length = kind.depth + 1)
      (innermost : innermost? levels = some kind) : Stands (before ++ [kind]) levels
  | inHost {before : List SectionKind} {kind host : SectionKind} {l : Level} {levels : List Level}
      (deep : kind.depth = 4) (last : host? before = some host)
      (settled : kind.isInheritable = true ∨ host.depth = 3) (own : l.kind? = some kind)
      (length : levels.length = host.depth + 1) (innermost : innermost? levels = some host) :
      Stands (before ++ [kind]) (l :: levels)

theorem innermost?_map_sees (levels : List Level) (kind : SectionKind) :
    innermost? (levels.map (·.sees kind)) = innermost? levels := by
  cases levels with
  | nil => rfl
  | cons l below => simp [innermost?, Level.kind?, origin_sees]

theorem innermost?_declare (c : Catalog) (p : OpenPath) (name value : String) :
    innermost? (p.declare c name value).levels = innermost? p.levels := by
  unfold declare
  cases open_ : p.levels with
  | nil => simp [open_]
  | cons l below => rfl

theorem stands_declare (c : Catalog) {p : OpenPath} (name value : String)
    {before : List SectionKind} (stands : Stands before p.levels) :
    Stands before (p.declare c name value).levels := by
  have same := innermost?_declare c p name value
  have depth := depth_declare c p name value
  unfold declare OpenPath.depth at *
  cases open_ : p.levels with
  | nil =>
      simp only [open_] at stands ⊢
      exact stands
  | cons l below =>
      simp only [open_] at stands same depth ⊢
      cases stands with
      | atHost shallow length innermost =>
          exact .atHost shallow (depth.trans length) (same.trans innermost)
      | inHost deep last settled own length innermost =>
          exact .inHost deep last settled own length innermost

theorem not_unexpected_closing (c : Catalog) (checked : List (Level × List Level)) :
    ∀ d ∈ checked.flatMap fun x => x.1.missing c x.2, d.code ≠ .unexpectedSection := by
  intro d member same
  obtain ⟨x, -, member⟩ := List.mem_flatMap.mp member
  have code := ofClosing_missing c x.2 x.1 d member
  rw [same] at code
  cases code

theorem quiet_enter_iff (c : Catalog) (p : OpenPath) (header : Span) (kind : SectionKind) :
    (∀ d ∈ (p.enter c header kind).2, d.code ≠ .unexpectedSection) ↔
      p.slot kind ≤ p.depth ∧
        (innermost? (p.levels.drop (p.depth - p.slot kind))).all kind.acceptsParent = true := by
  rw [enter, makeRoom_eq]
  dsimp only
  by_cases missing : p.depth < p.slot kind
  · rw [if_pos missing]
    constructor
    · intro quiet
      exact absurd rfl (quiet _ (List.mem_append_left _ (List.mem_singleton_self _)))
    · intro reached
      omega
  · have reached : p.slot kind ≤ p.depth := Nat.le_of_not_lt missing
    have kept : p.room kind = p.levels.drop (p.depth - p.slot kind) := by
      rw [room, Nat.sub_eq_zero_of_le reached]
      rfl
    have misplaced : (∀ d ∈ if isMisplaced (p.room kind) kind then
          [Diagnostic.ofProblem (.misplacedSection kind) header] else [],
        d.code ≠ .unexpectedSection) ↔
        (innermost? (p.room kind)).all kind.acceptsParent = true := by
      unfold isMisplaced
      change (∀ d ∈ if (innermost? (p.room kind)).any _ then _ else _, _) ↔ _
      cases innermost? (p.room kind) with
      | none => simp
      | some parent =>
          cases accepts : kind.acceptsParent parent with
          | true => simp [accepts]
          | false => simp [accepts, Diagnostic.ofProblem, Problem.code]
    rw [if_neg missing, List.forall_mem_append, misplaced, kept]
    exact ⟨fun quiet => ⟨reached, quiet.2⟩, fun fits => ⟨not_unexpected_closing c _, fits.2⟩⟩

theorem levels_enter_of_reached (c : Catalog) (p : OpenPath) (header : Span) (kind : SectionKind)
    (reached : p.slot kind ≤ p.depth) :
    (p.enter c header kind).1.levels =
      .ofHeader header kind :: (p.levels.drop (p.depth - p.slot kind)).map (·.sees kind) := by
  rw [levels_enter, room, Nat.sub_eq_zero_of_le reached]
  rfl

theorem slotAt_deep {kind : SectionKind} (deep : kind.depth = 4) {opened : Nat}
    (some : 0 < opened) :
    kind.slotAt opened = if kind.isInheritable ∧ opened < 4 then opened else 4 := by
  unfold SectionKind.slotAt SectionKind.minDepth
  rw [deep]
  by_cases inheritable : kind.isInheritable = true
  · simp [inheritable, Nat.one_le_iff_ne_zero, Nat.ne_of_gt some]
  · simp [inheritable]

section enter

variable (c : Catalog) {p : OpenPath} (header : Span) {before : List SectionKind}
  {kind host : SectionKind}

theorem enter_shallow (before : List SectionKind) (shallow : kind.depth < 4)
    (reached : kind.depth ≤ p.depth) :
    (∀ d ∈ (p.enter c header kind).2, d.code ≠ .unexpectedSection) ∧
      Stands (before ++ [kind]) (p.enter c header kind).1.levels := by
  have slot : p.slot kind = kind.depth := SectionKind.slotAt_shallow shallow p.depth
  constructor
  · rw [quiet_enter_iff, slot]
    refine ⟨reached, ?_⟩
    cases innermost? (p.levels.drop (p.depth - kind.depth)) with
    | none => rfl
    | some parent => exact SectionKind.acceptsParent_of_shallow shallow parent
  · refine .atHost shallow ?_ ?_
    · rw [levels_enter, List.length_cons, List.length_map, length_room, slot]
    · rw [levels_enter]
      rfl

theorem enter_atHost (deep : kind.depth = 4) (shallow : host.depth < 4)
    (last : host? before = some host) (length : p.levels.length = host.depth + 1)
    (innermost : innermost? p.levels = some host) :
    ((∀ d ∈ (p.enter c header kind).2, d.code ≠ .unexpectedSection) ↔
        (kind.isInheritable = true ∨ host.depth = 3) ∧ kind.acceptsParent host = true) ∧
      ((∀ d ∈ (p.enter c header kind).2, d.code ≠ .unexpectedSection) →
        Stands (before ++ [kind]) (p.enter c header kind).1.levels) := by
  have depth : p.depth = host.depth + 1 := length
  have slot : p.slot kind = if kind.isInheritable ∧ p.depth < 4 then p.depth else 4 :=
    slotAt_deep deep (by omega)
  have takes : p.slot kind ≤ p.depth ↔ kind.isInheritable = true ∨ host.depth = 3 := by
    rw [slot]
    by_cases inheritable : kind.isInheritable = true
    · simp only [inheritable, true_and, true_or, iff_true]
      split <;> omega
    · simp [inheritable]
      omega
  have all : p.slot kind ≤ p.depth → p.depth - p.slot kind = 0 := by
    intro reached
    rw [slot]
    split <;> omega
  have quiet : (∀ d ∈ (p.enter c header kind).2, d.code ≠ .unexpectedSection) ↔
      (kind.isInheritable = true ∨ host.depth = 3) ∧ kind.acceptsParent host = true := by
    rw [quiet_enter_iff, takes]
    refine and_congr_right fun fits => ?_
    rw [all (takes.mpr fits), List.drop_zero, innermost]
    rfl
  refine ⟨quiet, fun silent => ?_⟩
  have fits := (quiet.mp silent).1
  have reached := takes.mpr fits
  rw [levels_enter_of_reached c p header kind reached, all reached, List.drop_zero]
  refine .inHost deep last fits rfl ?_ ?_
  · rw [List.length_map, length]
  · rw [innermost?_map_sees, innermost]

theorem enter_inHost {other : SectionKind} {l : Level} {levels : List Level} (deep : kind.depth = 4)
    (deep' : other.depth = 4) (shallow : host.depth < 4) (last : host? before = some host)
    (open_ : p.levels = l :: levels) (own : l.kind? = some other)
    (length : levels.length = host.depth + 1) (innermost : innermost? levels = some host) :
    ((∀ d ∈ (p.enter c header kind).2, d.code ≠ .unexpectedSection) ↔
        host.depth = 3 ∧ kind.acceptsParent host = true) ∧
      ((∀ d ∈ (p.enter c header kind).2, d.code ≠ .unexpectedSection) →
        Stands (before ++ [kind]) (p.enter c header kind).1.levels) := by
  have depth : p.depth = host.depth + 2 := by simp [OpenPath.depth, open_, length]
  have slot : p.slot kind = if kind.isInheritable ∧ p.depth < 4 then p.depth else 4 :=
    slotAt_deep deep (by omega)
  by_cases three : host.depth = 3
  · have slot : p.slot kind = 4 := by rw [slot, if_neg (by omega)]
    have rest : p.levels.drop (p.depth - p.slot kind) = levels := by
      rw [slot, depth, three, open_]
      rfl
    have reached : p.slot kind ≤ p.depth := by omega
    have quiet : (∀ d ∈ (p.enter c header kind).2, d.code ≠ .unexpectedSection) ↔
        host.depth = 3 ∧ kind.acceptsParent host = true := by
      rw [quiet_enter_iff, rest, innermost]
      exact and_congr_left fun _ => ⟨fun _ => three, fun _ => reached⟩
    refine ⟨quiet, fun _ => ?_⟩
    rw [levels_enter_of_reached c p header kind reached, rest]
    refine .inHost deep last (.inr three) rfl ?_ ?_
    · rw [List.length_map, length]
    · rw [innermost?_map_sees, innermost]
  · have loud : ¬ ∀ d ∈ (p.enter c header kind).2, d.code ≠ .unexpectedSection := by
      rw [quiet_enter_iff]
      rintro ⟨reached, accepted⟩
      -- nothing is closed, so that the other section would be the parent
      have same : p.depth - p.slot kind = 0 := by
        rw [slot] at reached ⊢
        split <;> omega
      rw [same, List.drop_zero, open_] at accepted
      have parent : innermost? (l :: levels) = some other := by simp [innermost?, own]
      rw [parent, Option.all_some, SectionKind.not_acceptsParent_of_deep deep deep'] at accepted
      cases accepted
    exact ⟨⟨fun silent => absurd silent loud, fun fits => absurd fits.1 three⟩,
      fun silent => absurd silent loud⟩

end enter

theorem host_of_follows {before : List SectionKind} {kind : SectionKind}
    (follows : kind.Follows (host? before)) (deep : kind.depth = 4) :
    ∃ host, host? before = some host ∧
      (host ∈ kind.parents ∨ kind = .placeholders ∧ host.depth = 3) := by
  rcases follows with rfl | ⟨host, last, shallow | ⟨-, listed⟩⟩
  · simp [SectionKind.depth] at deep
  · omega
  · exact ⟨host, last, listed⟩

theorem reached_of_follows {p : OpenPath} {before : List SectionKind} {kind : SectionKind}
    (stands : Stands before p.levels) (follows : kind.Follows (host? before))
    (shallow : kind.depth < 4) : kind.depth ≤ p.depth := by
  rcases follows with rfl | ⟨host, last, ⟨-, bound⟩ | ⟨deep, -⟩⟩
  · exact Nat.zero_le _
  · unfold depth
    generalize p.levels = levels at stands
    cases stands with
    | start => cases last
    | atHost shallow length =>
        rw [host?_concat, if_pos shallow] at last
        cases last
        omega
    | inHost deep last' _ _ length =>
        rw [host?_concat, deep, if_neg (by decide), last'] at last
        cases last
        rw [List.length_cons]
        omega
  · omega

theorem enter_settles (c : Catalog) {p : OpenPath} (header : Span) {before : List SectionKind}
    {kind : SectionKind} (stands : Stands before p.levels) (follows : kind.Follows (host? before)) :
    ((∀ d ∈ (p.enter c header kind).2, d.code ≠ .unexpectedSection) ↔ Settles before kind) ∧
      (Settles before kind → Stands (before ++ [kind]) (p.enter c header kind).1.levels) := by
  by_cases shallow : kind.depth < 4
  · have settles : Settles before kind := by
      refine ⟨?_, ?_⟩
      · rintro rfl
        simp [SectionKind.depth] at shallow
      · intro inheritable
        have := SectionKind.depth_of_isInheritable inheritable
        omega
    have reached : kind.depth ≤ p.depth := reached_of_follows stands follows shallow
    obtain ⟨quiet, next⟩ := enter_shallow c header before shallow reached
    exact ⟨⟨fun _ => settles, fun _ => quiet⟩, fun _ => next⟩
  · have deep : kind.depth = 4 := by
      have := kind.depth_le
      omega
    obtain ⟨host, last, listed⟩ := host_of_follows follows deep
    have takes := SectionKind.settles_in_iff deep listed
    generalize open_ : p.levels = levels at stands
    cases stands with
    | start => cases last
    | @atHost before own _ shallow length innermost =>
        subst open_
        obtain rfl : own = host := by simpa [host?_concat, shallow] using last
        have plain : ¬ own.isInheritable = true := by
          intro inheritable
          have := SectionKind.depth_of_isInheritable inheritable
          omega
        have settles : Settles (before ++ [own]) kind ↔ (kind = .placeholders → own = .series) := by
          simp [Settles, last, plain]
        obtain ⟨quiet, next⟩ := enter_atHost c header deep shallow last length innermost
        rw [settles, ← takes, ← quiet]
        exact ⟨Iff.rfl, next⟩
    | @inHost before other host' l levels deep' last' settled own length innermost =>
        obtain rfl : host' = host := by simpa [host?_concat, deep', last'] using last
        have shallow : host'.depth < 4 := of_decide_eq_true (List.mem_filter.mp
          (List.mem_of_getLast? last')).2
        have settles : Settles (before ++ [other]) kind ↔
            (kind = .placeholders → host' = .series) ∧
              (kind.isInheritable = true → other.isInheritable = true → host'.depth = 3) := by
          simp [Settles, last]
        obtain ⟨quiet, next⟩ :=
          enter_inHost c header deep deep' shallow last open_ own length innermost
        have same : Settles (before ++ [other]) kind ↔
            host'.depth = 3 ∧ kind.acceptsParent host' = true := by
          rw [settles, ← takes]
          by_cases three : host'.depth = 3
          · simp [three]
          · have inheritable := settled.resolve_right three
            simp only [three, inheritable, or_false, true_implies, false_and, iff_false]
            exact fun settles => settles.2 settles.1.1
        rw [same, ← quiet]
        exact ⟨Iff.rfl, next⟩

theorem reports_admissible_iff (c : Catalog) {p : OpenPath} {before : List SectionKind}
    {events : List PathEvent} (stands : Stands before p.levels)
    (admissible : Admissible (host? before) (events.filterMap PathEvent.kind?)) :
    (∀ d ∈ p.reports c events, d.code ≠ .unexpectedSection) ↔
      ∀ front kind back, events.filterMap PathEvent.kind? = front ++ kind :: back →
        Settles (before ++ front) kind := by
  induction events generalizing p before with
  | nil =>
      have quiet : ∀ d ∈ p.reports c [], d.code ≠ .unexpectedSection := by
        rw [reports, finish, closeTo_eq]
        exact not_unexpected_closing c _
      simpa using quiet
  | cons event events ih =>
      cases event with
      | setting name value => exact ih (stands_declare c name value stands) admissible
      | header name =>
          rw [reports]
          cases known : SectionKind.ofName? name.text with
          | none =>
              have skipped : (PathEvent.header name :: events).filterMap PathEvent.kind? =
                  events.filterMap PathEvent.kind? := List.filterMap_cons_none known
              rw [skipped] at admissible ⊢
              rw [← ih stands admissible, push_unknown c p known]
              simp [Diagnostic.ofProblem, Problem.code]
          | some kind =>
              have listed : (PathEvent.header name :: events).filterMap PathEvent.kind? =
                  kind :: events.filterMap PathEvent.kind? := List.filterMap_cons_some known
              rw [listed] at admissible ⊢
              obtain ⟨follows, later⟩ := admissible
              obtain ⟨quiet, next⟩ := enter_settles c name stands follows
              rw [← host?_concat] at later
              rw [push_known c p known]
              dsimp only
              rw [List.forall_mem_append, quiet]
              constructor
              · rintro ⟨first, others⟩ front kind' back split
                rcases List.cons_eq_append_iff.mp split with ⟨rfl, same⟩ | ⟨front, rfl, rest⟩
                · cases same
                  simpa using first
                · have settles := (ih (next first) later).mp others front kind' back rest
                  simpa using settles
              · intro settles
                have first : Settles before kind := by
                  simpa using settles [] kind _ rfl
                refine ⟨first, (ih (next first) later).mpr ?_⟩
                intro front kind' back rest
                simpa using settles (kind :: front) kind' back (by rw [rest]; rfl)

/-- The headers of an outline, with settings and unknown headers in between, are reported as out of
place exactly if one of them does not settle. -/
theorem reports_outline_iff (c : Catalog) {outline : Outline} (fits : outline.Fits none)
    {events : List PathEvent} (listed : events.filterMap PathEvent.kind? = outline.listing) :
    (∀ d ∈ reports c {} events, d.code ≠ .unexpectedSection) ↔
      ∀ before kind after, outline.listing = before ++ kind :: after → Settles before kind := by
  have admissible := Outline.admissible_listing fits none
  rw [← listed] at admissible ⊢
  exact reports_admissible_iff c .start admissible

/-- Tags of the configuration, and a series and a dropdown with all that can lie in them. -/
theorem reports_outline_iff_series :
    let outline : Outline :=
      .item .configuration (.item .tags .empty (.item .group (.item .widget
        (.item .series (.item .tags .empty (.item .keys .empty (.item .placeholders .empty .empty)))
          (.item .dropdown (.item .option .empty (.item .option .empty .empty)) .empty))
        .empty) .empty)) .empty
    let events : List PathEvent :=
      (["configuration", "tag", "group", "grid", "widget", "series", "tags", "keys", "placeholders",
        "dropdown", "option", "option"].map fun name => .header ⟨name, 0, 0, 0⟩) ++
        [.setting "type" "page"]
    outline.Fits none ∧ events.filterMap PathEvent.kind? = outline.listing ∧
      (∀ d ∈ reports {} {} events, d.code ≠ .unexpectedSection) ∧
      ∀ before kind after, outline.listing = before ++ kind :: after → Settles before kind := by
  intro outline events
  have fits : outline.Fits none := by decide
  have listed : events.filterMap PathEvent.kind? = outline.listing := by decide
  have quiet : ∀ d ∈ reports {} {} events, d.code ≠ .unexpectedSection := by decide
  exact ⟨fits, listed, quiet, (reports_outline_iff _ fits listed).mp quiet⟩

/-- Keys after the tags of a configuration are taken for a section in the tags, and placeholders of
a widget for a section that is too deep, although both stand where their kinds say. -/
theorem reports_outline_unsettled :
    let keys : Outline :=
      .item .configuration (.item .tags .empty (.item .keys .empty .empty)) .empty
    let placeholders : Outline :=
      .item .configuration (.item .group (.item .widget
        (.item .placeholders .empty .empty) .empty) .empty) .empty
    let events : List String → List PathEvent := List.map fun name => .header ⟨name, 0, 0, 0⟩
    (keys.Fits none ∧
      (events ["configuration", "tags", "keys"]).filterMap PathEvent.kind? = keys.listing ∧
      .ofProblem (.misplacedSection .keys) ⟨"keys", 0, 0, 0⟩ ∈
        reports {} {} (events ["configuration", "tags", "keys"])) ∧
    placeholders.Fits none ∧
      (events ["configuration", "group", "widget", "placeholders"]).filterMap PathEvent.kind? =
        placeholders.listing ∧
      .ofProblem (.unexpectedSection .placeholders
          [.series, .dropdown, .column, .node, .link, .property]) ⟨"placeholders", 0, 0, 0⟩ ∈
        reports {} {} (events ["configuration", "group", "widget", "placeholders"]) := by
  decide

end OpenPath
end ChartLint
