import ChartLint.Diagnostic.Basic
import ChartLint.Setting.Basic
import Mathlib.Data.List.Nodup

/-!
# Repeated declarations

The declarations of a section fall into groups, by the setting and by the arm of a conditional. The
first of a group leads it; unless the setting takes several lines, each later one is a repetition of
the first. All this is about lists, and says what a pass has to find.
-/

namespace ChartLint

/-- A declaration of a setting as it stands in a document. The arm of the innermost conditional
around it is given by the line where the arm begins. -/
structure Occurrence where
  descriptor : Descriptor
  name : Span
  value : Span
  arm : Option Nat

def Diagnostic.isRepetition (d : Diagnostic) : Bool :=
  d.code == .repeatedSetting

namespace Occurrence

def key (o : Occurrence) : String × Option Nat :=
  (o.descriptor.name, o.arm)

def group (os : List Occurrence) (o : Occurrence) : List Occurrence :=
  os.filter fun other => other.key == o.key

def leaders : List Occurrence → List Occurrence
  | [] => []
  | o :: os => o :: (leaders os).filter fun other => other.key != o.key

def repetition (first o : Occurrence) : Diagnostic :=
  { Diagnostic.ofProblem (.repeatedSetting o.descriptor.name) o.name with
    related := [⟨first.name.range, "first declared here"⟩] }

def repeats (seen : List Occurrence) (o : Occurrence) : List Diagnostic :=
  match seen.find? fun other => other.key == o.key with
  | some first => if first.descriptor.multiLine then [] else [first.repetition o]
  | none => []

def repetitions (seen : List Occurrence) : List Occurrence → List Diagnostic
  | [] => []
  | o :: os => repeats seen o ++ repetitions (seen ++ [o]) os

variable {os seen : List Occurrence} {o f : Occurrence}

/-! ## Leaders -/

theorem find?_leaders (os : List Occurrence) (k : String × Option Nat) :
    (leaders os).find? (fun other => other.key == k) = os.find? fun other => other.key == k := by
  induction os with
  | nil => rfl
  | cons o os ih =>
      rw [leaders, List.find?_cons, List.find?_cons]
      cases here : o.key == k with
      | true => rfl
      | false =>
          -- nothing that is left out has this key
          rw [← ih, List.find?_filter]
          have kept : (fun other : Occurrence => decide ((other.key != o.key) = true ∧
              (other.key == k) = true)) = fun other => other.key == k := by
            funext other
            by_cases same : other.key = k
            · have apart : ¬ k = o.key := fun equal => by simp [equal] at here
              simp [same, apart]
            · simp [same]
          rw [kept]

theorem leads_of_mem_leaders (member : f ∈ leaders os) :
    os.find? (fun other => other.key == f.key) = some f := by
  induction os with
  | nil => cases member
  | cons o os ih =>
      rw [leaders, List.mem_cons, List.mem_filter] at member
      rw [List.find?_cons]
      rcases member with rfl | ⟨member, apart⟩
      · rw [beq_self_eq_true]
      · have other : (o.key == f.key) = false := beq_eq_false_iff_ne.mpr (bne_iff_ne.mp apart).symm
        rw [other]
        exact ih member

theorem leaders_append (os others : List Occurrence) :
    leaders (os ++ others) =
      leaders os ++ (leaders others).filter fun o => os.all fun other => o.key != other.key := by
  induction os with
  | nil => simp [leaders]
  | cons a os ih =>
      rw [List.cons_append, leaders, leaders, ih, List.filter_append, List.filter_filter]
      rfl

theorem leaders_concat_of_some (found : (os.find? fun other => other.key == o.key) = some f) :
    leaders (os ++ [o]) = leaders os := by
  have member := List.mem_of_find?_eq_some found
  have same : f.key = o.key := by simpa using List.find?_some found
  have again : (os.all fun other => o.key != other.key) = false := by
    rw [List.all_eq_false]
    exact ⟨f, member, by simp [same]⟩
  rw [leaders_append]
  simp [leaders, again]

theorem leaders_concat_of_none (fresh : (os.find? fun other => other.key == o.key) = none) :
    leaders (os ++ [o]) = leaders os ++ [o] := by
  have alone : (os.all fun other => o.key != other.key) = true := by
    rw [List.all_eq_true]
    intro other member
    have apart := List.find?_eq_none.mp fresh other member
    rw [beq_iff_eq] at apart
    exact bne_iff_ne.mpr (Ne.symm apart)
  rw [leaders_append]
  simp [leaders, alone]

theorem group_concat_of_ne (apart : o.key ≠ f.key) : group (os ++ [o]) f = group os f := by
  simp [group, apart]

theorem group_concat_of_eq (same : o.key = f.key) : group (os ++ [o]) f = group os f ++ [o] := by
  simp [group, same]

theorem group_eq_nil (fresh : (os.find? fun other => other.key == o.key) = none) :
    group os o = [] :=
  List.filter_eq_nil_iff.mpr (List.find?_eq_none.mp fresh)

/-! ## Repetitions in a group -/

theorem isRepetition_of_mem_repeats {d : Diagnostic} (member : d ∈ repeats seen o) :
    d.isRepetition = true := by
  unfold repeats at member
  split at member
  · split at member
    · cases member
    · rw [List.mem_singleton.mp member]
      rfl
  · cases member

section Filter

variable {picked : Diagnostic → Bool} {k : String × Option Nat}

theorem filter_repeats (picks : ∀ first : Occurrence, picked (first.repetition o) = (o.key == k)) :
    (repeats seen o).filter picked = if o.key = k then repeats seen o else [] := by
  unfold repeats
  split
  · rename_i first _
    split
    · simp
    · rw [List.filter_singleton, picks]
      by_cases same : o.key = k
      · simp [same]
      · simp [same, beq_eq_false_iff_ne.mpr same]
  · simp

theorem filter_repetitions_of_some
    (picks : ∀ o ∈ os, ∀ first : Occurrence, picked (first.repetition o) = (o.key == k))
    (found : (seen.find? fun other => other.key == k) = some f) :
    (repetitions seen os).filter picked =
      if f.descriptor.multiLine then []
      else (os.filter fun other => other.key == k).map f.repetition := by
  induction os generalizing seen with
  | nil => simp [repetitions]
  | cons o os ih =>
      obtain ⟨here, later⟩ := List.forall_mem_cons.mp picks
      have still : ((seen ++ [o]).find? fun other => other.key == k) = some f := by
        rw [List.find?_append, found]
        rfl
      rw [repetitions, List.filter_append, filter_repeats here, ih later still, List.filter_cons]
      by_cases same : o.key = k
      · subst same
        rw [if_pos rfl, beq_self_eq_true, if_pos rfl, repeats, found]
        by_cases several : f.descriptor.multiLine = true <;> simp [several]
      · simp [same]

theorem filter_repetitions_of_none
    (picks : ∀ o ∈ os, ∀ first : Occurrence, picked (first.repetition o) = (o.key == k))
    (fresh : (seen.find? fun other => other.key == k) = none)
    (found : (os.find? fun other => other.key == k) = some f) :
    (repetitions seen os).filter picked =
      if f.descriptor.multiLine then []
      else (os.filter fun other => other.key == k).tail.map f.repetition := by
  induction os generalizing seen with
  | nil => cases found
  | cons o os ih =>
      obtain ⟨here, later⟩ := List.forall_mem_cons.mp picks
      rw [List.find?_cons] at found
      rw [repetitions, List.filter_append, filter_repeats here, List.filter_cons]
      by_cases same : o.key = k
      · subst same
        have first : ((seen ++ [o]).find? fun other => other.key == o.key) = some o := by
          simp [List.find?_append, fresh]
        rw [beq_self_eq_true, Option.some.injEq] at found
        rw [if_pos rfl, beq_self_eq_true, if_pos rfl, List.tail_cons, repeats, fresh,
          List.nil_append, ← found]
        exact filter_repetitions_of_some later first
      · have other : (o.key == k) = false := beq_eq_false_iff_ne.mpr same
        have still : ((seen ++ [o]).find? fun other => other.key == k) = none := by
          simp [List.find?_append, fresh, same]
        rw [other] at found
        rw [if_neg same, other, List.nil_append]
        exact ih later still found

end Filter

def isRepetitionAt (os : List Occurrence) (d : Diagnostic) : Bool :=
  d.isRepetition && os.any fun o => d.range == o.name.range

/-- The reports that a group asks for: none if its setting takes several lines, and otherwise one on
each declaration but the first. -/
def groupReports (os : List Occurrence) (f : Occurrence) : List Diagnostic :=
  if f.descriptor.multiLine then [] else (group os f).tail.map f.repetition

theorem filter_repetitions (distinct : (os.map fun o => o.name.range).Nodup)
    (member : f ∈ leaders os) :
    (repetitions [] os).filter (isRepetitionAt (group os f)) = groupReports os f := by
  apply filter_repetitions_of_none _ rfl (leads_of_mem_leaders member)
  intro o within first
  have code : (first.repetition o).isRepetition = true := rfl
  rw [isRepetitionAt, code, Bool.true_and, Bool.eq_iff_iff, List.any_eq_true, beq_iff_eq]
  constructor
  · rintro ⟨other, inGroup, range⟩
    obtain ⟨member, same⟩ := List.mem_filter.mp inGroup
    obtain rfl : o = other := List.inj_on_of_nodup_map distinct within member (beq_iff_eq.mp range)
    exact beq_iff_eq.mp same
  · intro same
    exact ⟨o, List.mem_filter.mpr ⟨within, beq_iff_eq.mpr same⟩, beq_self_eq_true _⟩

theorem nodup_groupReports (distinct : (os.map fun o => o.name.range).Nodup) (f : Occurrence) :
    (groupReports os f).Nodup := by
  unfold groupReports
  split
  · exact List.nodup_nil
  · -- the reports have the ranges of their declarations
    apply List.Nodup.of_map Diagnostic.range
    rw [List.map_map]
    have later : (group os f).tail.Sublist os :=
      (List.tail_sublist _).trans List.filter_sublist
    exact distinct.sublist (later.map _)

end Occurrence
end ChartLint
