import Mathlib.Data.List.Induction
import ChartLint.Proofs.Section.Outline

/-!
# Headers after misplaced ones

A header that comes too deep is reported, and the levels that are missing are filled in, so that the
path is as deep as if nothing had been wrong. Where no section may stand anywhere, the number of
open levels is one more than the depth of the last section, and whether a header is reported as too
deep depends on the header before it alone: `OpenPath.push_recovers`.

* `OpenPath.filter_enter_unexpected` says which reports on its place a header can have.
* `OpenPath.depth_after` is the number of levels after any headers and settings.
-/

namespace ChartLint.OpenPath

def meet (c : Catalog) (p : OpenPath) : PathEvent → OpenPath
  | .header name => (p.push c name).1
  | .setting name value => p.declare c name value

def after (c : Catalog) (events : List PathEvent) : OpenPath :=
  events.foldl (meet c) {}

def reach (events : List PathEvent) : Nat :=
  (events.filterMap PathEvent.kind?).getLast?.elim 0 fun last => last.depth + 1

variable (c : Catalog)

theorem after_concat (events : List PathEvent) (event : PathEvent) :
    after c (events ++ [event]) = (after c events).meet c event := by
  rw [after, List.foldl_append]
  rfl

/-! ## The number of levels -/

theorem slotAt_le (kind : SectionKind) (opened : Nat) : kind.slotAt opened ≤ 4 := by
  have deepest := kind.depth_le
  unfold SectionKind.slotAt
  split <;> omega

theorem depth_push_le {p : OpenPath} (bound : p.depth ≤ 5) (header : Span) :
    (p.push c header).1.depth ≤ 5 := by
  cases known : SectionKind.ofName? header.text with
  | none =>
      rw [push_unknown c p known]
      exact bound
  | some kind =>
      rw [push_known c p known, depth_enter]
      exact Nat.succ_le_succ (slotAt_le kind p.depth)

theorem depth_after_le (events : List PathEvent) : (after c events).depth ≤ 5 := by
  induction events using List.reverseRecOn with
  | nil => exact Nat.zero_le 5
  | append_singleton events event ih =>
      rw [after_concat]
      cases event with
      | header name => exact depth_push_le c ih name
      | setting name value => exact (depth_declare c _ name value).symm ▸ ih

theorem slotAt_plain {kind : SectionKind} (plain : kind.isInheritable = false) (opened : Nat) :
    kind.slotAt opened = kind.depth := by
  simp [SectionKind.slotAt, plain]

theorem depth_meet {event : PathEvent} (plain : ∀ kind ∈ event.kind?, kind.isInheritable = false)
    (p : OpenPath) :
    (p.meet c event).depth = event.kind?.elim p.depth fun kind => kind.depth + 1 := by
  cases event with
  | setting name value => exact depth_declare c p name value
  | header name =>
      rw [PathEvent.kind?] at plain ⊢
      cases known : SectionKind.ofName? name.text with
      | none => rw [meet, push_unknown c p known, Option.elim_none]
      | some kind =>
          rw [meet, push_known c p known, depth_enter, slotAt_plain (plain kind known)]
          rfl

theorem reach_concat (events : List PathEvent) (event : PathEvent) :
    reach (events ++ [event]) = event.kind?.elim (reach events) fun kind => kind.depth + 1 := by
  rw [reach, List.filterMap_append]
  cases kind : event.kind? with
  | none => rw [List.filterMap_cons_none kind, List.filterMap_nil, List.append_nil]; rfl
  | some last => rw [List.filterMap_cons_some kind, List.filterMap_nil, List.getLast?_concat]; rfl

theorem depth_after {events : List PathEvent}
    (plain : ∀ kind ∈ events.filterMap PathEvent.kind?, kind.isInheritable = false) :
    (after c events).depth = reach events := by
  induction events using List.reverseRecOn with
  | nil => rfl
  | append_singleton events event ih =>
      rw [List.filterMap_append, List.forall_mem_append] at plain
      have own : ∀ kind ∈ event.kind?, kind.isInheritable = false := fun kind known =>
        plain.2 kind (List.mem_filterMap.mpr ⟨event, List.mem_singleton_self event, known⟩)
      rw [after_concat, depth_meet c own, reach_concat, ih plain.1]

/-! ## What is reported on the place of a header -/

theorem isMisplaced_filled {p : OpenPath} {kind : SectionKind} (missing : p.depth < p.slot kind) :
    isMisplaced (p.room kind) kind = false := by
  obtain ⟨n, filled⟩ := Nat.exists_eq_succ_of_ne_zero (Nat.sub_ne_zero_of_lt missing)
  rw [room, filled]
  rfl

theorem filter_enter_unexpected (p : OpenPath) (header : Span) (kind : SectionKind) :
    (p.enter c header kind).2.filter (fun d => d.code == .unexpectedSection) =
      if p.depth < p.slot kind then
        [.ofProblem (.unexpectedSection kind (SectionKind.atDepth p.depth)) header]
      else if isMisplaced (p.room kind) kind then [.ofProblem (.misplacedSection kind) header]
      else [] := by
  rw [enter, makeRoom_eq]
  dsimp only
  by_cases missing : p.depth < p.slot kind
  · rw [if_pos missing, if_pos missing, isMisplaced_filled missing]
    rfl
  · have closing : ((closed (p.slot kind) p.levels).flatMap fun x => x.1.missing c x.2).filter
        (fun d => d.code == .unexpectedSection) = [] := by
      rw [List.filter_eq_nil_iff]
      intro d member code
      exact not_unexpected_closing c _ d member (eq_of_beq code)
    rw [if_neg missing, if_neg missing, List.filter_append, closing]
    split <;> rfl

theorem misplacedSection_ne (kind : SectionKind) (expected : List SectionKind) :
    (Problem.misplacedSection kind).message ≠
      (Problem.unexpectedSection kind expected).message := by
  have inside : (Problem.misplacedSection kind).message =
      "[" ++ kind.name ++ "]" ++ " must be inside " ++
        Problem.choice (Problem.headers kind.parents) := rfl
  have unexpected : (Problem.unexpectedSection kind expected).message =
      "unexpected section " ++ Problem.bracketed kind.name ++ ", expected " ++
        Problem.choice (Problem.headers expected) := rfl
  rw [inside, unexpected]
  intro same
  have first := congrArg (fun text => text.toList.head?) same
  simp at first

theorem exists_unexpected_iff (p : OpenPath) (header : Span) (kind : SectionKind) :
    (∃ expected, .ofProblem (.unexpectedSection kind expected) header ∈ (p.enter c header kind).2) ↔
      p.depth < p.slot kind := by
  have only := filter_enter_unexpected c p header kind
  constructor
  · rintro ⟨expected, member⟩
    have chosen : .ofProblem (.unexpectedSection kind expected) header ∈
        (p.enter c header kind).2.filter fun d => d.code == .unexpectedSection :=
      List.mem_filter.mpr ⟨member, rfl⟩
    rw [only] at chosen
    split at chosen
    · assumption
    · split at chosen
      · have same := List.mem_singleton.mp chosen
        exact absurd (congrArg Diagnostic.message same).symm (misplacedSection_ne kind expected)
      · cases chosen
  · intro missing
    rw [if_pos missing] at only
    exact ⟨_, (List.mem_filter.mp (only ▸ List.mem_singleton_self _)).1⟩

/-- A header is reported at most one time for its place, and never more than five levels are open.
If no section so far may stand anywhere, a header is reported as too deep exactly if it lies more
than one level deeper than the section before it, whatever has been reported of the others, and it
is the innermost of as many levels as its depth asks for. -/
theorem push_recovers (before : List PathEvent) (header : Span) :
    let p := after c before
    (p.push c header).2.2.countP (fun d => d.code == .unexpectedSection) ≤ 1 ∧
      p.depth ≤ 5 ∧ (p.push c header).1.depth ≤ 5 ∧
      ∀ kind, SectionKind.ofName? header.text = some kind →
        (∀ other ∈ kind :: before.filterMap PathEvent.kind?, other.isInheritable = false) →
        (p.push c header).1.depth = kind.depth + 1 ∧
          ((∃ expected, .ofProblem (.unexpectedSection kind expected) header ∈
            (p.push c header).2.2) ↔
            reach before < kind.depth) := by
  intro p
  refine ⟨?_, depth_after_le c before, depth_push_le c (depth_after_le c before) header, ?_⟩
  · rw [List.countP_eq_length_filter]
    cases known : SectionKind.ofName? header.text with
    | none =>
        rw [push_unknown c p known]
        exact Nat.zero_le 1
    | some kind =>
        rw [push_known c p known, filter_enter_unexpected]
        split
        · exact Nat.le_refl 1
        · split
          · exact Nat.le_refl 1
          · exact Nat.zero_le 1
  · intro kind known plain
    obtain ⟨own, others⟩ := List.forall_mem_cons.mp plain
    have depth : p.depth = reach before := depth_after c others
    have slot : p.slot kind = kind.depth := slotAt_plain own p.depth
    rw [push_known c p known, depth_enter, slotAt_plain own, exists_unexpected_iff, slot, depth]
    exact ⟨rfl, .rfl⟩

/-- After a widget that has no group, a series is where it belongs. -/
theorem push_recovers_after_widget :
    let headers : List Span := [⟨"configuration", 0, 1, 14⟩, ⟨"widget", 1, 1, 7⟩]
    let p := after {} (headers.map .header)
    (p.push {} ⟨"series", 2, 1, 7⟩).1.depth = 4 ∧
      ¬ ∃ expected, .ofProblem (.unexpectedSection .series expected) ⟨"series", 2, 1, 7⟩ ∈
        (p.push {} ⟨"series", 2, 1, 7⟩).2.2 := by
  intro headers p
  obtain ⟨-, -, -, rest⟩ := push_recovers {} (headers.map .header) ⟨"series", 2, 1, 7⟩
  obtain ⟨depth, reported⟩ := rest .series (by decide) (by decide)
  exact ⟨depth, fun found => absurd (reported.mp found) (by decide)⟩

end ChartLint.OpenPath
