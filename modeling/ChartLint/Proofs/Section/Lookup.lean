import ChartLint.Proofs.Section.Tree
import Mathlib.Data.List.Nodup

/-!
# Which declaration holds

A plain search goes up from a section and takes the first declaration of the nearest section that
has one. What the tree finds is in that section too, but for the scope names it is the last
declaration there: where a section has one declaration for each arm of a condition, a scope name
and any other name lead to different arms.

Notes on dates change nothing about what is found. `SectionTree.undated` is the tree without them,
and each question about declarations has the same answer there.

* `SectionTree.nearestLocal?` is the plain search.
* `SectionTree.ofSections_locate?` says where the two differ.
-/

namespace ChartLint.SectionTree

variable {t : SectionTree}

/-! ## Plain search -/

def nearestLocal? (t : SectionTree) (id : Nat) (name : String) : Option Setting :=
  (t.ancestors id).findSome? fun a => (t.node? a).bind (·.local? name)

theorem isSome_local? (t : SectionTree) (name : String) (a : Nat) :
    ((t.node? a).bind (·.local? name)).isSome = t.declaresAt name a := by
  unfold declaresAt
  cases t.node? a <;> rfl

theorem setting?_head?_declarations (t : SectionTree) (name : String) (id : Nat) :
    (t.declarations name id).head?.bind t.setting? = (t.node? id).bind (·.local? name) := by
  rw [head?_declarations]
  cases found : t.node? id with
  | none => rfl
  | some n =>
      show ((n.localIndex? name).map (Declaration.mk id)).bind t.setting? = n.local? name
      have there (i : Nat) : t.setting? ⟨id, i⟩ = n.settings[i]? := by simp [setting?, found]
      rw [Option.bind_map, SectionNode.local?, List.find?_eq_bind_findIdx?_getElem?]
      exact congrArg _ (funext there)

theorem nearestLocal?_eq (t : SectionTree) (id : Nat) (name : String) :
    t.nearestLocal? id name = (t.nearest id name).head?.bind t.setting? := by
  rw [nearestLocal?, findSome?_ancestors (t.isSome_local? name), nearest]
  cases t.declaring? id name with
  | none => rfl
  | some a => exact (t.setting?_head?_declarations name a).symm

/-! ## First and last -/

theorem nodup_nearest (t : SectionTree) (id : Nat) (name : String) : (t.nearest id name).Nodup := by
  have places (a : Nat) : (t.declarations name a).Nodup := by
    unfold declarations
    cases t.node? a with
    | none => exact List.nodup_nil
    | some n =>
        apply List.Nodup.map
        · intro i j same
          exact congrArg Declaration.index same
        · exact List.nodup_findIdxs
  unfold nearest
  cases t.declaring? id name with
  | none => exact List.nodup_nil
  | some a => exact places a

theorem getLast?_eq_head?_iff {α : Type} {as : List α} (nodup : as.Nodup) :
    as.getLast? = as.head? ↔ as.length ≤ 1 := by
  match as with
  | [] => simp
  | [a] => simp
  | a :: b :: rest =>
      have last : (a :: b :: rest).getLast? = some ((b :: rest).getLast (by simp)) := by
        rw [List.getLast?_cons_cons, List.getLast?_eq_some_getLast (List.cons_ne_nil b rest)]
      have other : (b :: rest).getLast (by simp) ≠ a := by
        intro same
        apply (List.nodup_cons.mp nodup).1
        rw [← same]
        exact List.getLast_mem _
      rw [last]
      simpa using other

/-- The tree finds the last declaration of a scope name and the first of any other name, in the
nearest section that has one. That is what a plain search finds, unless it is a scope name with
more than one declaration in that section. -/
theorem ofSections_locate? (sections : List (Span × SectionKind × List Setting)) (id : Nat)
    (name : String) :
    let t := ofSections sections
    t.nearestLocal? id name = (t.nearest id name).head?.bind t.setting? ∧
      t.find? id name = (if name ∈ scopeNames then (t.nearest id name).getLast?
        else (t.nearest id name).head?).bind t.setting? ∧
      (t.locate? id name = (t.nearest id name).head? ↔
        (name ∈ scopeNames → (t.nearest id name).length ≤ 1)) ∧
      ((name ∈ scopeNames → (t.nearest id name).length ≤ 1) →
        t.find? id name = t.nearestLocal? id name) := by
  intro t
  have located : t.locate? id name =
      if name ∈ scopeNames then (t.nearest id name).getLast? else (t.nearest id name).head? :=
    locate?_eq (shaped_ofSections sections) id name
  have same : t.locate? id name = (t.nearest id name).head? ↔
      (name ∈ scopeNames → (t.nearest id name).length ≤ 1) := by
    rw [located, ← getLast?_eq_head?_iff (t.nodup_nearest id name)]
    by_cases kept : name ∈ scopeNames <;> simp [kept]
  refine ⟨t.nearestLocal?_eq id name, ?_, same, fun single => ?_⟩
  · rw [find?, located]
  · rw [find?, same.mpr single, nearestLocal?_eq]

/-- A section with two declarations of the time its charts end, one for each arm of a condition:
the first is found by a plain search, the second by the tree. -/
theorem find?_second_arm :
    let settings : List Setting := [("2021-06-01", 2), ("2020-02-01", 4)].map fun value =>
      { descriptor := { name := "end-time", type := .date }
        name := ⟨"end-time", value.2, 0, 8⟩, value := ⟨value.1, value.2, 11, 21⟩ }
    let t := ofSections [(⟨"configuration", 0, 1, 14⟩, .configuration, settings)]
    (t.find? 0 "end-time").map (·.value.text) = some "2020-02-01" ∧
      (t.nearestLocal? 0 "end-time").map (·.value.text) = some "2021-06-01" := by
  decide

end ChartLint.SectionTree

/-! ## Notes on dates -/

namespace ChartLint

def Setting.undated (s : Setting) : Setting :=
  { s with date := .unread }

def SectionNode.undated (n : SectionNode) : SectionNode :=
  { n with settings := n.settings.map Setting.undated }

def SectionTree.undated (t : SectionTree) : SectionTree :=
  { t with nodes := t.nodes.map SectionNode.undated }

theorem Setting.undated_dateValue (s : Setting) (dates : DateContext) :
    (s.dateValue dates).1.undated = s.undated := by
  unfold Setting.dateValue
  split
  · rfl
  · split
    · rfl
    · rfl
    · split <;> rfl

theorem SectionNode.local?_undated (n : SectionNode) (name : String) :
    n.undated.local? name = (n.local? name).map Setting.undated :=
  List.find?_map

theorem SectionNode.localIndex?_undated (n : SectionNode) (name : String) :
    n.undated.localIndex? name = n.localIndex? name :=
  List.findIdx?_map

namespace SectionTree

variable (t : SectionTree)

theorem node?_undated (id : Nat) : t.undated.node? id = (t.node? id).map SectionNode.undated :=
  Array.getElem?_map

theorem parent?_undated (id : Nat) : t.undated.parent? id = t.parent? id := by
  rw [parent?, node?_undated, Option.bind_map]
  rfl

theorem chain_undated (fuel id : Nat) : t.undated.chain fuel id = t.chain fuel id := by
  induction fuel generalizing id with
  | zero => rfl
  | succ fuel ih => rw [chain, chain, parent?_undated, funext ih]

theorem ancestors_undated (id : Nat) : t.undated.ancestors id = t.ancestors id :=
  t.chain_undated (id + 1) id

theorem declaresAt_undated (name : String) (id : Nat) :
    t.undated.declaresAt name id = t.declaresAt name id := by
  rw [declaresAt, node?_undated, declaresAt, Option.any_map]
  apply congrArg (Option.any · _)
  funext n
  simp [SectionNode.declares, SectionNode.local?_undated]

theorem locate?_undated (id : Nat) (name : String) :
    t.undated.locate? id name = t.locate? id name := by
  have scope (id : Nat) : (t.undated.node? id).bind (fun n => n.scope.lookup name) =
      (t.node? id).bind fun n => n.scope.lookup name := by
    rw [node?_undated, Option.bind_map]
    rfl
  have places (a : Nat) :
      ((t.undated.node? a).bind fun n => (n.localIndex? name).map fun i => (⟨a, i⟩ : Declaration)) =
        (t.node? a).bind fun n => (n.localIndex? name).map fun i => ⟨a, i⟩ := by
    rw [node?_undated, Option.bind_map]
    apply congrArg (Option.bind _)
    funext n
    exact congrArg _ (n.localIndex?_undated name)
  unfold locate?
  simp only [scope, places, ancestors_undated]

theorem setting?_undated (d : Declaration) :
    t.undated.setting? d = (t.setting? d).map Setting.undated := by
  rw [setting?, node?_undated, Option.bind_map, setting?, Option.map_bind]
  apply congrArg (Option.bind _)
  funext n
  exact List.getElem?_map

theorem find?_undated (id : Nat) (name : String) :
    t.undated.find? id name = (t.find? id name).map Setting.undated := by
  rw [find?, locate?_undated, find?, Option.map_bind]
  exact congrArg (Option.bind _) (funext t.setting?_undated)

theorem node?_putSetting (d : Declaration) (s : Setting) (id : Nat) :
    (t.putSetting d s).node? id =
      (t.node? id).map fun n =>
        if d.node = id then { n with settings := n.settings.set d.index s } else n := by
  rw [putSetting, node?, Array.getElem?_modify]
  split
  · rfl
  · simp [node?]

theorem setting?_putSetting (d d' : Declaration) (s : Setting) :
    (t.putSetting d s).setting? d' =
      if d' = d then (t.setting? d).map fun _ => s else t.setting? d' := by
  obtain ⟨node, index⟩ := d
  obtain ⟨node', index'⟩ := d'
  rw [setting?, node?_putSetting, setting?, setting?]
  by_cases sameNode : node = node'
  · subst sameNode
    cases found : t.node? node with
    | none => simp
    | some n =>
        by_cases sameIndex : index = index'
        · subst sameIndex
          by_cases bound : index < n.settings.length
          · simp [bound]
          · simp [bound]
        · simp [Ne.symm sameIndex, sameIndex]
  · simp [Ne.symm sameNode, sameNode]

theorem setting?_dateValue (dates : DateContext) (d d' : Declaration) :
    (t.dateValue dates d).1.setting? d' =
      if d' = d then (t.setting? d).map fun s => (s.dateValue dates).1 else t.setting? d' := by
  cases found : t.setting? d with
  | none =>
      have unchanged : (t.dateValue dates d).1 = t := by rw [dateValue, found]
      rw [unchanged]
      split
      · rename_i same
        rw [same, found]
        rfl
      · rfl
  | some s =>
      have put : (t.dateValue dates d).1 = t.putSetting d (s.dateValue dates).1 := by
        rw [dateValue, found]
      rw [put, setting?_putSetting, found]
      rfl

theorem undated_putSetting {d : Declaration} {s s' : Setting} (found : t.setting? d = some s)
    (same : s'.undated = s.undated) : (t.putSetting d s').undated = t.undated := by
  obtain ⟨n, node, at_⟩ := Option.bind_eq_some_iff.mp found
  have kept : (n.settings.set d.index s').map Setting.undated = n.settings.map Setting.undated := by
    rw [List.map_set, same]
    apply List.ext_getElem?
    intro i
    rw [List.getElem?_set]
    split
    · rename_i here
      subst here
      rw [List.getElem?_map, at_]
      simp [(List.getElem?_eq_some_iff.mp at_).1]
    · rfl
  have nodes : (t.putSetting d s').undated.nodes = t.undated.nodes := by
    apply Array.ext_getElem?
    intro id
    show (t.putSetting d s').undated.node? id = t.undated.node? id
    rw [node?_undated, node?_putSetting, node?_undated, Option.map_map]
    by_cases here : d.node = id
    · subst here
      rw [node]
      simp [SectionNode.undated, kept]
    · simp [here, Function.comp_def]
  simpa [undated, putSetting] using nodes

theorem undated_dateValue (dates : DateContext) (d : Declaration) :
    (t.dateValue dates d).1.undated = t.undated := by
  unfold dateValue
  cases found : t.setting? d with
  | none => rfl
  | some s => exact t.undated_putSetting found (s.undated_dateValue dates)

end SectionTree
end ChartLint
