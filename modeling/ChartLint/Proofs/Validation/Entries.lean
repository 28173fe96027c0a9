import ChartLint.Proofs.Section.Exchange
import ChartLint.Proofs.Section.PathExchange
import ChartLint.Validation

/-!
# The entries of an open section

An open section takes a declaration in as a new entry, adds its value to an earlier entry with the
same name and arm, or leaves it out and reports it. Which of the three happens to a declaration does
not depend on those with other names, so two of them can change places: `Entry.enter_comm`.
-/

namespace ChartLint

structure Entry where
  face : Face
  broken : Bool
  arm : Nat

namespace Entry

def ofSetting (s : Setting) (arm : Nat) : Entry :=
  ⟨s.face, s.isBroken, arm⟩

def moved (n : Nat) (x : Entry) : Entry :=
  { x with face := x.face.moved n }

def Apart (x y : Entry) : Prop :=
  x.face.Apart y.face

def isSame (x e : Entry) : Bool :=
  e.arm == x.arm && e.face.traits.name == x.face.traits.name

def merge (x e : Entry) : Entry :=
  if x.isSame e then
    { e with face := { e.face with texts := e.face.texts ++ x.face.texts.take 1 } }
  else e

def enter (es : List Entry) (x : Entry) : List Entry :=
  match es.find? x.isSame with
  | none => es ++ [x]
  | some e => if e.face.traits.multiLine then es.map x.merge else es

def repetition (e x : Entry) : Diagnostic :=
  { Diagnostic.ofProblem (.repeatedSetting x.face.traits.name) x.face.name with
    related := [⟨e.face.name.range, "first declared here"⟩] }

def repetitions (es : List Entry) (x : Entry) : List Diagnostic :=
  match es.find? x.isSame with
  | none => []
  | some e => if e.face.traits.multiLine then [] else [repetition e x]

variable {es es' : List Entry} {x y : Entry}

/-! ## Other lines -/

theorem ofSetting_moved {n : Nat} {s s' : Setting} (same : s'.note = s.movedNote n) (arm : Nat) :
    ofSetting s' arm = (ofSetting s arm).moved n :=
  congrArg (fun x => (⟨x.1, x.2, arm⟩ : Entry)) same

theorem isSame_moved (n : Nat) (x e : Entry) : (x.moved n).isSame (e.moved n) = x.isSame e :=
  rfl

theorem merge_moved (n : Nat) (x e : Entry) :
    (x.moved n).merge (e.moved n) = (x.merge e).moved n := by
  unfold merge
  rw [isSame_moved]
  split <;> rfl

theorem find?_map_moved (n : Nat) (es : List Entry) (x : Entry) :
    (es.map (moved n)).find? (x.moved n).isSame = (es.find? x.isSame).map (moved n) := by
  rw [List.find?_map]
  rfl

theorem enter_map_moved (n : Nat) (es : List Entry) (x : Entry) :
    enter (es.map (moved n)) (x.moved n) = (enter es x).map (moved n) := by
  unfold enter
  rw [find?_map_moved]
  cases es.find? x.isSame with
  | none => simp
  | some e =>
      change (if e.face.traits.multiLine then _ else _) = _
      dsimp only
      split
      · rw [List.map_map, List.map_map]
        exact List.map_congr_left fun e _ => merge_moved n x e
      · rfl

theorem repetitions_map_moved (n : Nat) (es : List Entry) (x : Entry) :
    repetitions (es.map (moved n)) (x.moved n) = (repetitions es x).map (Diagnostic.moved n) := by
  unfold repetitions
  rw [find?_map_moved]
  cases es.find? x.isSame with
  | none => rfl
  | some e =>
      change (if e.face.traits.multiLine then _ else _) = _
      dsimp only
      split <;> rfl

/-! ## Another order -/

theorem Apart.isSame (apart : x.Apart y) {e : Entry} (first : x.isSame e = true) :
    y.isSame e = false := by
  rw [Entry.isSame, Bool.and_eq_true, beq_iff_eq, beq_iff_eq] at first
  rw [Entry.isSame, Bool.and_eq_false_iff]
  right
  rw [beq_eq_false_iff_ne, first.2]
  exact apart.1

theorem one_isSame (x : Entry) {a b : Entry} (apart : a.Apart b) (first : x.isSame a = true) :
    x.isSame b = false := by
  rw [isSame, Bool.and_eq_true, beq_iff_eq, beq_iff_eq] at first
  rw [isSame, Bool.and_eq_false_iff]
  right
  rw [beq_eq_false_iff_ne, ← first.2]
  exact Ne.symm apart.1

theorem find?_exchanged (exchanged : Exchanged Apart es es') (x : Entry) :
    es'.find? x.isSame = es.find? x.isSame := by
  rw [← List.head?_filter, ← List.head?_filter,
    exchanged.filter_eq fun _ _ apart first => one_isSame x apart first]

theorem apart_merge {a b : Entry} (apart : a.Apart b) (x : Entry) :
    (x.merge a).Apart (x.merge b) := by
  have kept (e : Entry) : (x.merge e).face.traits = e.face.traits ∧
      (x.merge e).face.name = e.face.name := by
    unfold merge
    split <;> exact ⟨rfl, rfl⟩
  rw [Apart, Face.Apart, (kept a).1, (kept a).2, (kept b).1, (kept b).2]
  exact apart

theorem enter_exchanged (exchanged : Exchanged Apart es es') (x : Entry) :
    Exchanged Apart (enter es x) (enter es' x) := by
  unfold enter
  rw [find?_exchanged exchanged]
  cases es.find? x.isSame with
  | none => exact exchanged.append [x]
  | some e =>
      dsimp only
      split
      · exact exchanged.map x.merge fun _ _ apart => apart_merge apart x
      · exact exchanged

theorem repetitions_exchanged (exchanged : Exchanged Apart es es') (x : Entry) :
    repetitions es' x = repetitions es x := by
  rw [repetitions, repetitions, find?_exchanged exchanged]

theorem merge_of_apart (apart : x.Apart y) {e : Entry} (second : y.isSame e = true) :
    x.merge e = e := by
  have first : x.isSame e = false := by
    cases same : x.isSame e with
    | false => rfl
    | true => rw [apart.isSame same] at second; cases second
  rw [merge, first, if_neg Bool.false_ne_true]

theorem isSame_merge (x y e : Entry) : y.isSame (x.merge e) = y.isSame e := by
  unfold merge
  split <;> rfl

theorem find?_enter (apart : x.Apart y) (es : List Entry) :
    (enter es x).find? y.isSame = es.find? y.isSame := by
  unfold enter
  cases es.find? x.isSame with
  | none =>
      have other : y.isSame x = false := by
        rw [isSame, Bool.and_eq_false_iff]
        exact .inr (beq_eq_false_iff_ne.mpr apart.1)
      rw [List.find?_append, List.find?_singleton, other, if_neg Bool.false_ne_true, Option.or_none]
  | some e =>
      dsimp only
      split
      · rw [List.find?_map, show y.isSame ∘ x.merge = y.isSame from funext (isSame_merge x y)]
        cases found : es.find? y.isSame with
        | none => rfl
        | some e' => rw [Option.map_some, merge_of_apart apart (List.find?_some found)]
      · rfl

theorem repetitions_enter (apart : x.Apart y) (es : List Entry) :
    repetitions (enter es x) y = repetitions es y := by
  rw [repetitions, repetitions, find?_enter apart]

theorem merge_comm (apart : x.Apart y) (e : Entry) : x.merge (y.merge e) = y.merge (x.merge e) := by
  by_cases first : x.isSame e = true
  · have second := apart.isSame first
    have still : y.isSame (x.merge e) = false := (isSame_merge x y e).trans second
    rw [merge.eq_def y, second, if_neg Bool.false_ne_true, merge.eq_def y, still,
      if_neg Bool.false_ne_true]
  · have still : ¬ x.isSame (y.merge e) = true := by rwa [isSame_merge]
    rw [merge.eq_def x, if_neg still, merge.eq_def x, if_neg first]

theorem enter_comm (apart : x.Apart y) (es : List Entry) :
    Exchanged Apart (enter (enter es x) y) (enter (enter es y) x) := by
  have first := find?_enter apart es
  have second := find?_enter (x := y) apart.symm es
  have merged {x y : Entry} (apart : x.Apart y) : x.merge y = y :=
    merge_of_apart apart (by simp [isSame])
  rw [enter.eq_def (enter es x), first, enter.eq_def (enter es y), second, enter.eq_def es x,
    enter.eq_def es y]
  cases es.find? x.isSame with
  | none =>
      cases es.find? y.isSame with
      | none =>
          simp only [List.append_assoc]
          exact .swap es [] apart
      | some e' =>
          dsimp only
          split
          · rw [List.map_append, List.map_cons, List.map_nil, merged (x := y) apart.symm]
            exact .same _
          · exact .same _
  | some e =>
      cases es.find? y.isSame with
      | none =>
          dsimp only
          split
          · rw [List.map_append, List.map_cons, List.map_nil, merged apart]
            exact .same _
          · exact .same _
      | some e' =>
          dsimp only
          split
          · split
            · rw [List.map_map, List.map_map]
              rw [show y.merge ∘ x.merge = x.merge ∘ y.merge
                from funext fun e => (merge_comm apart e).symm]
              exact .same _
            · exact .same _
          · exact .same _

end Entry

/-! ## Declarations of a pass -/

def PendingSection.entries (s : PendingSection) : List Entry :=
  s.settings.map fun entry => .ofSetting entry.1 entry.2

namespace PendingSection

variable {s : PendingSection} {new : Setting} {arm : Nat}

theorem earlier?_entries (s : PendingSection) (new : Setting) (arm : Nat) :
    s.entries.find? (Entry.ofSetting new arm).isSame =
      (s.settings.find? (isSame new.descriptor.name arm)).map fun entry =>
        .ofSetting entry.1 entry.2 := by
  rw [entries, List.find?_map]
  rfl

theorem entries_add (s : PendingSection) (new : Setting) (arm : Nat) :
    (s.add new arm).entries = s.entries ++ [.ofSetting new arm] := by
  rw [entries, add, List.map_append]
  rfl

theorem entries_addValue (s : PendingSection) (new : Setting) (arm : Nat) :
    (s.addValue new.descriptor.name arm new.value).entries =
      s.entries.map (Entry.ofSetting new arm).merge := by
  simp only [entries, addValue, List.map_map]
  apply List.map_congr_left
  intro entry _
  have same : (Entry.ofSetting new arm).isSame (.ofSetting entry.1 entry.2) =
      isSame new.descriptor.name arm entry := rfl
  rw [Function.comp_apply, Function.comp_apply, Entry.merge, same]
  split
  · simp [Entry.ofSetting, Setting.face, Setting.addValue, Setting.values, Setting.isBroken]
  · rfl

end PendingSection

namespace Pass

variable {p : Pass}

theorem declare_entries (env : Environment) {current : PendingSection}
    (pending : p.pending = some current)
    (s : Setting) :
    ∃ next : PendingSection, next.header = current.header ∧ next.kind = current.kind ∧
      next.entries = Entry.enter current.entries (.ofSetting s p.blocks.arm) ∧
      p.declare env s =
        ({ p with
            path := p.path.declareUnless env.catalog
              (current.entries.find? (Entry.ofSetting s p.blocks.arm).isSame).isSome
              s.descriptor.name s.value.text
            pending := some next },
          Entry.repetitions current.entries (.ofSetting s p.blocks.arm)) := by
  unfold declare Entry.enter Entry.repetitions PendingSection.earlier?
  rw [pending, PendingSection.earlier?_entries]
  dsimp only
  cases current.settings.find? (PendingSection.isSame s.descriptor.name p.blocks.arm) with
  | none => exact ⟨current.add s p.blocks.arm, rfl, rfl, current.entries_add s p.blocks.arm, rfl⟩
  | some earlier =>
      change ∃ next, _ ∧ _ ∧ _ = (if earlier.1.descriptor.multiLine then _ else _) ∧ _ =
        (_, if earlier.1.descriptor.multiLine then _ else _)
      dsimp only [Option.map_some]
      split
      · exact ⟨current.addValue s.descriptor.name p.blocks.arm s.value, rfl, rfl,
          current.entries_addValue s p.blocks.arm, rfl⟩
      · exact ⟨current, rfl, rfl, rfl, by rw [← pending]; rfl⟩

end Pass
end ChartLint
