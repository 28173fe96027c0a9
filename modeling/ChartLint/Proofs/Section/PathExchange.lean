import Mathlib.Data.List.Forall2
import ChartLint.Section.Path

/-!
# Paths on which two settings change places

What an open path says depends on the values that its levels have for each name, and not on the
order of declarations with different names. So two paths with the same values say the same, and keep
doing so when both are changed in the same way.
-/

namespace ChartLint

structure Level.Mirrors (l l' : Level) : Prop where
  origin : l'.origin = l.origin
  awaited : l'.awaited = l.awaited
  lookup : ∀ name, l'.settings.lookup name = l.settings.lookup name

theorem Level.Mirrors.refl (l : Level) : l.Mirrors l :=
  ⟨rfl, rfl, fun _ => rfl⟩

theorem Level.Mirrors.sees {l l' : Level} (mirrors : l.Mirrors l') (kind : SectionKind) :
    (l.sees kind).Mirrors (l'.sees kind) := by
  unfold Level.sees
  rw [mirrors.awaited]
  split
  · exact ⟨mirrors.origin, rfl, mirrors.lookup⟩
  · exact mirrors

theorem Level.Mirrors.declare {l l' : Level} (mirrors : l.Mirrors l') (c : Catalog)
    (name value : String) :
    (l.declare c name value).Mirrors (l'.declare c name value) := by
  refine ⟨mirrors.origin, ?_, ?_⟩
  · have kind : l'.kind? = l.kind? := congrArg (Option.map Prod.snd) mirrors.origin
    unfold Level.declare
    dsimp only
    rw [kind, mirrors.awaited]
  · intro other
    simp only [Level.declare, List.lookup_cons, mirrors.lookup]

namespace OpenPath

def Mirrors (levels levels' : List Level) : Prop :=
  List.Forall₂ Level.Mirrors levels levels'

variable {levels levels' : List Level} {p p' : OpenPath}

theorem Mirrors.refl (levels : List Level) : Mirrors levels levels :=
  List.forall₂_same.mpr fun l _ => .refl l

theorem Mirrors.visible? (mirrors : Mirrors p.levels p'.levels) (name : String) :
    p'.visible? name = p.visible? name := by
  obtain ⟨levels⟩ := p
  obtain ⟨levels'⟩ := p'
  change Mirrors levels levels' at mirrors
  unfold OpenPath.visible?
  induction mirrors with
  | nil => rfl
  | cons first rest ih => rw [List.findSome?_cons, List.findSome?_cons, first.lookup, ih]

theorem Mirrors.widgetType? (mirrors : Mirrors p.levels p'.levels) :
    p'.widgetType? = p.widgetType? := by
  obtain ⟨levels⟩ := p
  obtain ⟨levels'⟩ := p'
  change Mirrors levels levels' at mirrors
  unfold OpenPath.widgetType?
  induction mirrors with
  | nil => rfl
  | @cons l l' _ _ first rest ih =>
      have kind : l'.kind? = l.kind? := congrArg (Option.map Prod.snd) first.origin
      rw [List.filter_cons, List.filter_cons, kind]
      split
      · rw [List.findSome?_cons, List.findSome?_cons, first.lookup, ih]
      · exact ih

theorem Mirrors.declares (mirrors : Mirrors levels levels') (name : String) :
    levels'.any (·.declares name) = levels.any (·.declares name) := by
  induction mirrors with
  | nil => rfl
  | cons first rest ih =>
      rw [List.any_cons, List.any_cons, ih, Level.declares, Level.declares, first.lookup]

theorem Mirrors.missing (c : Catalog) {l l' : Level} (first : l.Mirrors l')
    (mirrors : Mirrors levels levels') :
    l'.missing c levels' = l.missing c levels := by
  have visible : (fun name => (l' :: levels').any (·.declares name)) =
      fun name => (l :: levels).any (·.declares name) :=
    funext (Mirrors.declares (.cons first mirrors))
  unfold Level.missing
  rw [first.origin, first.awaited, visible]

theorem Mirrors.closeTo (c : Catalog) (n : Nat) (mirrors : Mirrors levels levels') :
    Mirrors (closeTo c n levels).1 (closeTo c n levels').1 ∧
      (OpenPath.closeTo c n levels').2 = (OpenPath.closeTo c n levels).2 := by
  induction mirrors with
  | nil => exact ⟨.nil, rfl⟩
  | cons first rest ih =>
      rw [OpenPath.closeTo, OpenPath.closeTo, rest.length_eq]
      split
      · exact ⟨ih.1, congrArg₂ _ (Mirrors.missing c first rest) ih.2⟩
      · exact ⟨.cons first rest, rfl⟩

theorem Mirrors.makeRoom (c : Catalog) (mirrors : Mirrors p.levels p'.levels) (header : Span)
    (kind : SectionKind) :
    Mirrors (p.makeRoom c header kind).1 (p'.makeRoom c header kind).1 ∧
      (p'.makeRoom c header kind).2 = (p.makeRoom c header kind).2 := by
  have depth : p'.depth = p.depth := mirrors.length_eq.symm
  have slot : p'.slot kind = p.slot kind := by rw [OpenPath.slot, OpenPath.slot, depth]
  unfold OpenPath.makeRoom
  dsimp only
  rw [slot, depth]
  split
  · exact ⟨List.rel_append (Mirrors.refl _) mirrors, rfl⟩
  · exact mirrors.closeTo c _

theorem Mirrors.isMisplaced (mirrors : Mirrors levels levels') (kind : SectionKind) :
    isMisplaced levels' kind = isMisplaced levels kind := by
  unfold OpenPath.isMisplaced
  cases mirrors with
  | nil => rfl
  | cons first rest => simp only [List.head?_cons, Option.bind_some, Level.kind?, first.origin]

theorem Mirrors.enter (c : Catalog) (mirrors : Mirrors p.levels p'.levels) (header : Span)
    (kind : SectionKind) :
    Mirrors (p.enter c header kind).1.levels (p'.enter c header kind).1.levels ∧
      (p'.enter c header kind).2 = (p.enter c header kind).2 := by
  obtain ⟨room, found⟩ := mirrors.makeRoom c header kind
  unfold OpenPath.enter
  generalize p.makeRoom c header kind = made at room found ⊢
  generalize p'.makeRoom c header kind = made' at room found ⊢
  refine ⟨.cons (.refl _) ?_, ?_⟩
  · exact List.forall₂_map_left_iff.mpr (List.forall₂_map_right_iff.mpr
      (room.imp fun _ _ both => both.sees kind))
  · dsimp only
    rw [room.isMisplaced, found]

theorem Mirrors.push (c : Catalog) (mirrors : Mirrors p.levels p'.levels) (header : Span) :
    Mirrors (p.push c header).1.levels (p'.push c header).1.levels ∧
      (p'.push c header).2 = (p.push c header).2 := by
  unfold OpenPath.push
  cases SectionKind.ofName? header.text with
  | none => exact ⟨mirrors, rfl⟩
  | some kind =>
      obtain ⟨entered, found⟩ := mirrors.enter c header kind
      dsimp only
      exact ⟨entered, congrArg (Prod.mk (some kind)) found⟩

theorem Mirrors.declare (c : Catalog) (mirrors : Mirrors p.levels p'.levels) (name value : String) :
    Mirrors (p.declare c name value).levels (p'.declare c name value).levels := by
  unfold OpenPath.declare
  obtain ⟨levels⟩ := p
  obtain ⟨levels'⟩ := p'
  cases mirrors with
  | nil => exact .nil
  | cons first rest => exact .cons (first.declare c name value) rest

theorem Mirrors.finish (c : Catalog) (mirrors : Mirrors p.levels p'.levels) :
    p'.finish c = p.finish c :=
  (mirrors.closeTo c 0).2

theorem mirrors_declare_comm (c : Catalog) (p : OpenPath) {name name' : String}
    (differ : name ≠ name')
    (value value' : String) :
    Mirrors ((p.declare c name value).declare c name' value').levels
      ((p.declare c name' value').declare c name value).levels := by
  obtain ⟨levels⟩ := p
  cases levels with
  | nil => exact .nil
  | cons l below =>
      refine .cons ⟨rfl, ?_, ?_⟩ (Mirrors.refl below)
      · -- only a type asks for sections, and one of the two is none
        by_cases type : name = "type"
        · have other : ¬ name' = "type" := fun type' => differ (type.trans type'.symm)
          simp only [Level.declare, other, and_false, if_false, Option.getD_none]
          rfl
        · simp only [Level.declare, type, and_false, if_false, Option.getD_none]
          rfl
      · intro other
        simp only [Level.declare, List.lookup_cons]
        by_cases first : other = name
        · have second : (other == name') = false :=
            beq_eq_false_iff_ne.mpr fun same => differ (first.symm.trans same)
          simp [second]
        · simp [beq_eq_false_iff_ne.mpr first]

/-! ## Declarations that may be known -/

def declareUnless (c : Catalog) (p : OpenPath) (known : Bool) (name value : String) : OpenPath :=
  if known then p else p.declare c name value

theorem Mirrors.declareUnless (c : Catalog) (mirrors : Mirrors p.levels p'.levels) (known : Bool)
    (name value : String) :
    Mirrors (p.declareUnless c known name value).levels
      (p'.declareUnless c known name value).levels := by
  cases known with
  | false => exact mirrors.declare c name value
  | true => exact mirrors

theorem mirrors_declareUnless_comm (c : Catalog) (p : OpenPath) (known known' : Bool)
    {name name' : String}
    (differ : name ≠ name') (value value' : String) :
    Mirrors ((p.declareUnless c known name value).declareUnless c known' name' value').levels
      ((p.declareUnless c known' name' value').declareUnless c known name value).levels := by
  cases known with
  | false =>
      cases known' with
      | false => exact mirrors_declare_comm c p differ value value'
      | true => exact .refl _
  | true => exact .refl _

end OpenPath
end ChartLint
