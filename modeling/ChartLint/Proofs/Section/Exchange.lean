import Mathlib.Data.Option.Basic
import ChartLint.Proofs.Diagnostic.Exchange
import ChartLint.Proofs.Section.Lookup

/-!
# Sections in which two settings change places

Two trees mirror each other if they differ in the order of two neighbouring settings of one section,
and in the lines on which these stand: `SectionTree.Mirrors`. The two settings have different names,
so all look-ups by name find the same in both trees. Dates do not count here; that the same dates
are known to be broken is part of `SectionTree.Twins`, the relation between two trees that no rule
has looked at yet. Adding a section keeps it: `Twins.add`.
-/

namespace ChartLint

/-! ## Lists -/

/-- A list and the same list, perhaps with two neighbours in the other order. -/
inductive Exchanged {α : Type} (apart : α → α → Prop) : List α → List α → Prop where
  | same (as : List α) : Exchanged apart as as
  | swap (before : List α) {a b : α} (after : List α) (differ : apart a b) :
      Exchanged apart (before ++ a :: b :: after) (before ++ b :: a :: after)

namespace Exchanged

variable {α β : Type} {apart : α → α → Prop} {as bs : List α}

theorem map {apart' : β → β → Prop} (exchanged : Exchanged apart as bs) (f : α → β)
    (kept : ∀ a b, apart a b → apart' (f a) (f b)) : Exchanged apart' (as.map f) (bs.map f) := by
  cases exchanged with
  | same => exact .same _
  | swap before after differ =>
      simp only [List.map_append, List.map_cons]
      exact .swap _ _ (kept _ _ differ)

theorem append (exchanged : Exchanged apart as bs) (more : List α) :
    Exchanged apart (as ++ more) (bs ++ more) := by
  cases exchanged with
  | same => exact .same _
  | swap before after differ =>
      simp only [List.append_assoc, List.cons_append]
      exact .swap _ _ differ

theorem filter_eq (exchanged : Exchanged apart as bs) {p : α → Bool}
    (one : ∀ a b, apart a b → p a = true → p b = false) :
    as.filter p = bs.filter p := by
  cases exchanged with
  | same => rfl
  | @swap before a b after differ =>
      simp only [List.filter_append, List.filter_cons]
      cases first : p a with
      | false => rfl
      | true => rw [one a b differ first]; rfl

end Exchanged

theorem rel_of_map_eq {α β γ : Type} {f : α → γ} {g : β → γ} {a : Option α} {b : Option β}
    (same : b.map g = a.map f) : Option.Rel (fun a b => g b = f a) a b := by
  cases a <;> cases b
  · exact .none
  · cases same
  · cases same
  · exact .some (Option.some.inj same)

/-! ## Settings and sections -/

structure Traits where
  name : String
  widgets : List String
  sections : List String
  multiLine : Bool

def Descriptor.traits (d : Descriptor) : Traits :=
  ⟨d.name, d.widgets, d.sections, d.multiLine⟩

/-- What counts of a setting besides its date and the places of its values. -/
structure Face where
  traits : Traits
  name : Span
  texts : List String

def Setting.face (s : Setting) : Face :=
  ⟨s.descriptor.traits, s.name, s.values.map Span.text⟩

namespace Face

def moved (n : Nat) (f : Face) : Face :=
  { f with name := f.name.moved n }

def Apart (f g : Face) : Prop :=
  f.traits.name ≠ g.traits.name ∧ f.name.line ≠ g.name.line

theorem Apart.symm {f g : Face} (apart : f.Apart g) : g.Apart f :=
  ⟨Ne.symm apart.1, Ne.symm apart.2⟩

theorem Apart.moved {f g : Face} (apart : f.Apart g) (n : Nat) : (f.moved n).Apart (g.moved n) :=
  ⟨apart.1, fun same => apart.2 (movedLine_inj.mp same)⟩

theorem Apart.named {f g : Face} (apart : f.Apart g) {name : String}
    (first : (f.traits.name == name) = true) : (g.traits.name == name) = false := by
  rw [beq_eq_false_iff_ne]
  intro second
  exact apart.1 ((eq_of_beq first).trans second.symm)

end Face

def Setting.Mirrors (n : Nat) (s s' : Setting) : Prop :=
  s'.face = s.face.moved n

namespace Setting.Mirrors

variable {n : Nat} {s s' : Setting}

theorem name (mirrors : s.Mirrors n s') : s'.name = s.name.moved n :=
  congrArg Face.name mirrors

theorem texts (mirrors : s.Mirrors n s') : s'.values.map Span.text = s.values.map Span.text :=
  congrArg Face.texts mirrors

theorem value (mirrors : s.Mirrors n s') : s'.value.text = s.value.text :=
  (List.cons.inj mirrors.texts).1

end Setting.Mirrors

namespace SectionNode

structure Mirrors (n : Nat) (m m' : SectionNode) : Prop where
  header : m'.header = m.header.moved n
  kind : m'.kind = m.kind
  parent : m'.parent = m.parent
  children : m'.children = m.children
  settings :
    Exchanged Face.Apart (m.settings.map fun s => s.face.moved n) (m'.settings.map Setting.face)

variable {n : Nat} {m m' : SectionNode}

theorem Mirrors.undated {k k' : SectionNode} (mirrors : m.Mirrors n m')
    (same : k.undated = m.undated)
    (same' : k'.undated = m'.undated) : k.Mirrors n k' := by
  have faces {k m : SectionNode} (same : k.undated = m.undated) :
      k.settings.map Setting.face = m.settings.map Setting.face := by
    have dated := congrArg (fun k => k.settings.map Setting.face) same
    simp only [SectionNode.undated, List.map_map] at dated
    exact dated
  have moved : k.settings.map (fun s => s.face.moved n) =
      m.settings.map fun s => s.face.moved n := by
    have both := congrArg (List.map (Face.moved n)) (faces same)
    simpa [Function.comp_def] using both
  have field {α : Type} (f : SectionNode → α) (kept : ∀ k, f k.undated = f k) :
      f k = f m ∧ f k' = f m' :=
    ⟨by rw [← kept, same, kept], by rw [← kept, same', kept]⟩
  obtain ⟨header, header'⟩ := field SectionNode.header fun _ => rfl
  obtain ⟨kind, kind'⟩ := field SectionNode.kind fun _ => rfl
  obtain ⟨parent, parent'⟩ := field SectionNode.parent fun _ => rfl
  obtain ⟨children, children'⟩ := field SectionNode.children fun _ => rfl
  exact ⟨by rw [header, header', mirrors.header], by rw [kind, kind', mirrors.kind],
    by rw [parent, parent', mirrors.parent], by rw [children, children', mirrors.children],
    by rw [moved, faces same']; exact mirrors.settings⟩

theorem Mirrors.named (mirrors : m.Mirrors n m') (name : String) :
    (m'.settings.filter fun s => s.descriptor.name == name).map Setting.face =
      (m.settings.filter fun s => s.descriptor.name == name).map fun s => s.face.moved n := by
  have same := mirrors.settings.filter_eq (p := fun f => f.traits.name == name)
    fun _ _ apart => apart.named
  rw [List.filter_map, List.filter_map] at same
  exact same.symm

end SectionNode

namespace SectionTree

structure Mirrors (n : Nat) (t t' : SectionTree) : Prop where
  size : t'.size = t.size
  node : ∀ id, Option.Rel (SectionNode.Mirrors n) (t.node? id) (t'.node? id)
  find : ∀ id name, Option.Rel (Setting.Mirrors n) (t.find? id name) (t'.find? id name)

variable {n : Nat} {t t' : SectionTree}

theorem node_eq {α : Type}
    (node : ∀ id, Option.Rel (SectionNode.Mirrors n) (t.node? id) (t'.node? id))
    {f : Option SectionNode → α}
    (same : ∀ m m', m.Mirrors n m' → f (some m') = f (some m)) (id : Nat) :
    f (t'.node? id) = f (t.node? id) := by
  have related := node id
  generalize t.node? id = m at related ⊢
  generalize t'.node? id = m' at related ⊢
  cases related with
  | some mirrors => exact same _ _ mirrors
  | none => rfl

section Queries

variable (node : ∀ id, Option.Rel (SectionNode.Mirrors n) (t.node? id) (t'.node? id))

include node

theorem parent?_mirror (id : Nat) : t'.parent? id = t.parent? id :=
  node_eq (f := fun m => m.bind SectionNode.parent) node (fun _ _ mirrors => mirrors.parent) id

theorem ancestors_mirror (id : Nat) : t'.ancestors id = t.ancestors id := by
  have same (fuel id : Nat) : t'.chain fuel id = t.chain fuel id := by
    induction fuel generalizing id with
    | zero => rfl
    | succ fuel ih => rw [chain, chain, parent?_mirror node, funext ih]
  exact same (id + 1) id

theorem declaresAt_mirror (name : String) (id : Nat) :
    t'.declaresAt name id = t.declaresAt name id := by
  refine node_eq (f := fun m => m.any (·.declares name)) node ?_ id
  intro m m' mirrors
  have found (m : SectionNode) :
      m.declares name = !(m.settings.filter fun s => s.descriptor.name == name).isEmpty := by
    rw [SectionNode.declares, SectionNode.local?, ← List.head?_filter]
    cases m.settings.filter fun s => s.descriptor.name == name <;> rfl
  have same := congrArg List.isEmpty (mirrors.named name)
  rw [List.isEmpty_map, List.isEmpty_map] at same
  rw [Option.any_some, Option.any_some, found, found, same]

theorem declaring?_mirror (id : Nat) (name : String) :
    t'.declaring? id name = t.declaring? id name := by
  rw [declaring?, declaring?, ancestors_mirror node, funext (declaresAt_mirror node name)]

theorem children_mirror (id : Nat) : t'.children id = t.children id :=
  node_eq (f := fun m => m.elim [] SectionNode.children) node
    (fun _ _ mirrors => mirrors.children) id

theorem widgetOf?_mirror (id : Nat) : t'.widgetOf? id = t.widgetOf? id := by
  have widget (a : Nat) : ((t'.node? a).any fun m => m.kind == .widget) =
      (t.node? a).any fun m => m.kind == .widget :=
    node_eq (f := fun m => m.any fun m => m.kind == .widget) node
      (fun _ _ mirrors => by rw [Option.any_some, Option.any_some, mirrors.kind]) a
  rw [widgetOf?, widgetOf?, ancestors_mirror node, funext widget]

theorem declaredWithin_mirror (name : String) (fuel id : Nat) :
    t'.declaredWithin name fuel id = t.declaredWithin name fuel id := by
  induction fuel generalizing id with
  | zero => rfl
  | succ fuel ih =>
      rw [declaredWithin, declaredWithin, children_mirror node]
      exact congrArg _ (funext fun child => by rw [declaresAt_mirror node, ih])

end Queries

/-! ## The setting that holds -/

def chosen (name : String) (settings : List Setting) : Option Setting :=
  if name ∈ scopeNames then settings.getLast? else settings.head?

theorem map_placesOf (name : String) (settings : List Setting) :
    (placesOf name settings).map (settings[·]?) =
      (settings.filter fun s => s.descriptor.name == name).map some := by
  induction settings using List.reverseRecOn with
  | nil => rfl
  | append_singleton settings s ih =>
      have earlier : (placesOf name settings).map ((settings ++ [s])[·]?) =
          (placesOf name settings).map (settings[·]?) := by
        apply List.map_congr_left
        intro i member
        obtain ⟨s, at_, -⟩ := mem_placesOf.mp member
        exact List.getElem?_append_left (List.getElem?_eq_some_iff.mp at_).1
      rw [placesOf_concat, List.map_append, earlier, ih, List.filter_append, List.map_append]
      by_cases same : s.descriptor.name = name <;> simp [same]

theorem bind_of_map_eq {α β : Type} {g : α → Option β} {as : List α} {bs : List β}
    (same : as.map g = bs.map some) :
    as.head?.bind g = bs.head? ∧ as.getLast?.bind g = bs.getLast? := by
  have joined {x : Option α} {y : Option β} (same : x.map g = y.map some) : x.bind g = y := by
    cases x <;> cases y <;> simp_all
  have first := congrArg List.head? same
  have last := congrArg List.getLast? same
  rw [List.head?_map, List.head?_map] at first
  rw [List.getLast?_map, List.getLast?_map] at last
  exact ⟨joined first, joined last⟩

theorem find?_eq_chosen (shaped : t.Shaped) (id : Nat) (name : String) :
    t.find? id name = (t.declaring? id name).bind fun a => (t.node? a).bind fun m =>
      chosen name (m.settings.filter fun s => s.descriptor.name == name) := by
  rw [find?, locate?_eq shaped, nearest]
  cases declaring : t.declaring? id name with
  | none => split <;> rfl
  | some a =>
      rw [Option.elim_some, Option.bind_some, declarations]
      cases found : t.node? a with
      | none => split <;> rfl
      | some m =>
          have at_ : (fun i => t.setting? ⟨a, i⟩) = (m.settings[·]?) := by
            funext i
            simp [setting?, found]
          obtain ⟨first, last⟩ := bind_of_map_eq (map_placesOf name m.settings)
          rw [Option.elim_some, Option.bind_some, chosen]
          split
          · rw [List.getLast?_map, Option.bind_map, ← last]
            exact congrArg _ at_
          · rw [List.head?_map, Option.bind_map, ← first]
            exact congrArg _ at_

/-! ## Trees that no rule has looked at -/

end SectionTree

def Setting.note (s : Setting) : Face × Bool :=
  (s.face, s.isBroken)

def Setting.movedNote (n : Nat) (s : Setting) : Face × Bool :=
  (s.face.moved n, s.isBroken)

theorem Setting.map_movedNote {s t : Option Setting}
    (same : s.map Setting.note = t.map Setting.note)
    (n : Nat) : s.map (Setting.movedNote n) = t.map (Setting.movedNote n) := by
  have moved := congrArg (Option.map fun x : Face × Bool => (x.1.moved n, x.2)) same
  rw [Option.map_map, Option.map_map] at moved
  exact moved

theorem Setting.name_of_note {n : Nat} {s s' : Setting} (same : s'.note = s.movedNote n) :
    s'.descriptor.name = s.descriptor.name :=
  congrArg (fun x => x.1.traits.name) same

theorem Setting.value_of_note {n : Nat} {s s' : Setting} (same : s'.note = s.movedNote n) :
    s'.value.text = s.value.text :=
  Setting.Mirrors.value (congrArg Prod.fst same)

structure SectionNode.Twins (n : Nat) (m m' : SectionNode) : Prop where
  header : m'.header = m.header.moved n
  kind : m'.kind = m.kind
  parent : m'.parent = m.parent
  children : m'.children = m.children
  notes : Exchanged (fun x y => x.1.Apart y.1) (m.settings.map (Setting.movedNote n))
    (m'.settings.map Setting.note)

namespace SectionNode.Twins

variable {n : Nat} {m m' : SectionNode}

theorem mirrors (twins : m.Twins n m') : m.Mirrors n m' where
  header := twins.header
  kind := twins.kind
  parent := twins.parent
  children := twins.children
  settings := by
    have faces := @Exchanged.map _ _ _ _ _ Face.Apart twins.notes Prod.fst fun _ _ apart => apart
    simp only [List.map_map] at faces
    exact faces

theorem named (twins : m.Twins n m') (name : String) :
    (m'.settings.filter fun s => s.descriptor.name == name).map Setting.note =
      (m.settings.filter fun s => s.descriptor.name == name).map (Setting.movedNote n) := by
  have same := twins.notes.filter_eq (p := fun x => x.1.traits.name == name)
    fun _ _ apart => apart.named
  rw [List.filter_map, List.filter_map] at same
  exact same.symm

end SectionNode.Twins

namespace SectionTree

structure Twins (n : Nat) (t t' : SectionTree) : Prop where
  shaped : t.Shaped
  shaped' : t'.Shaped
  size : t'.size = t.size
  roots : t'.roots = t.roots
  trail : t'.trail = t.trail
  last : t'.last = t.last
  node : ∀ id, Option.Rel (SectionNode.Twins n) (t.node? id) (t'.node? id)

namespace Twins

variable {n : Nat} {t t' : SectionTree}

theorem node_mirrors (twins : t.Twins n t') (id : Nat) :
    Option.Rel (SectionNode.Mirrors n) (t.node? id) (t'.node? id) := by
  have related := twins.node id
  generalize t.node? id = m at related ⊢
  generalize t'.node? id = m' at related ⊢
  cases related with
  | some both => exact .some both.mirrors
  | none => exact .none

theorem find (twins : t.Twins n t') (id : Nat) (name : String) :
    (t'.find? id name).map Setting.note = (t.find? id name).map (Setting.movedNote n) := by
  rw [find?_eq_chosen twins.shaped, find?_eq_chosen twins.shaped',
    declaring?_mirror twins.node_mirrors]
  cases t.declaring? id name with
  | none => rfl
  | some a =>
      rw [Option.bind_some, Option.bind_some]
      have related := twins.node a
      generalize t.node? a = m at related ⊢
      generalize t'.node? a = m' at related ⊢
      cases related with
      | none => rfl
      | some both =>
          have named := both.named name
          rw [Option.bind_some, Option.bind_some, chosen, chosen]
          split
          · rw [← List.getLast?_map, named, List.getLast?_map]
          · rw [← List.head?_map, named, List.head?_map]

theorem mirrors (twins : t.Twins n t') : t.Mirrors n t' where
  size := twins.size
  node := twins.node_mirrors
  find := by
    intro id name
    have same := congrArg (Option.map Prod.fst) (twins.find id name)
    rw [Option.map_map, Option.map_map] at same
    exact rel_of_map_eq same

/-! ## One more section -/

theorem kind_eq (twins : t.Twins n t') (id : Nat) :
    (t'.node? id).map SectionNode.kind = (t.node? id).map SectionNode.kind :=
  node_eq (f := fun m => m.map SectionNode.kind) twins.node_mirrors
    (fun _ _ mirrors => congrArg some mirrors.kind) id

theorem parentFor?_eq (twins : t.Twins n t') (kind : SectionKind) :
    t'.parentFor? kind = t.parentFor? kind := by
  have takes (id : Nat) : t'.takes kind id = t.takes kind id := by
    refine node_eq (f := fun m => m.any fun m => m.kind.depth < 4 && kind.acceptsParent m.kind)
      twins.node_mirrors ?_ id
    intro m m' mirrors
    rw [Option.any_some, Option.any_some, mirrors.kind]
  have deep : t'.deepParent? kind = t.deepParent? kind := by
    rw [deepParent?, deepParent?, twins.last, twins.trail, funext takes,
      show t'.ancestors = t.ancestors from funext (ancestors_mirror twins.node_mirrors)]
  have lastKind : t'.lastKind? = t.lastKind? := by
    unfold lastKind?
    rw [twins.last]
    cases t.last with
    | none => rfl
    | some id => exact twins.kind_eq id
  rw [parentFor?, parentFor?, twins.roots, lastKind, twins.last, deep, twins.trail]

variable {header : Span} {kind : SectionKind} {settings settings' : List Setting}

theorem node_attach (twins : t.Twins n t') (here : header.moved n = header)
    (notes : Exchanged (fun x y => x.1.Apart y.1) (settings.map (Setting.movedNote n))
      (settings'.map Setting.note)) (parent : Option Nat) (id : Nat) :
    Option.Rel (SectionNode.Twins n) ((t.attach header kind settings parent).node? id)
      ((t'.attach header kind settings' parent).node? id) := by
  rw [node?_attach, node?_attach, twins.size]
  split
  · exact .some ⟨here.symm, rfl, rfl, rfl, notes⟩
  · have related := twins.node id
    generalize t.node? id = m at related ⊢
    generalize t'.node? id = m' at related ⊢
    cases related with
    | none => exact .none
    | some both =>
        simp only [Option.map_some]
        split
        · exact .some ⟨both.header, both.kind, both.parent, congrArg (· ++ [t.size]) both.children,
            both.notes⟩
        · exact .some both

theorem add (twins : t.Twins n t') (here : header.moved n = header)
    (notes : Exchanged (fun x y => x.1.Apart y.1) (settings.map (Setting.movedNote n))
      (settings'.map Setting.note)) :
    (t.add header kind settings).1.Twins n (t'.add header kind settings').1 := by
  have shaped := shaped_add twins.shaped header kind settings
  have shaped' := shaped_add twins.shaped' header kind settings'
  have attached (parent : Option Nat) (shaped : (t.attach header kind settings parent).Shaped)
      (shaped' : (t'.attach header kind settings' parent).Shaped) :
      (t.attach header kind settings parent).Twins n (t'.attach header kind settings' parent) := by
    have above : (parent.bind t'.node?).map SectionNode.kind =
        (parent.bind t.node?).map SectionNode.kind := by
      cases parent with
      | none => rfl
      | some p => exact twins.kind_eq p
    refine ⟨shaped, shaped', ?_, ?_, ?_, ?_, twins.node_attach here notes parent⟩
    · rw [size_attach, size_attach, twins.size]
    · simp only [attach, twins.roots, twins.size]
    · simp only [attach, above, twins.trail, twins.size]
    · simp only [attach, twins.size]
  unfold SectionTree.add at shaped shaped' ⊢
  rw [twins.parentFor?_eq] at shaped' ⊢
  split
  · simp only [*, if_true] at shaped shaped'
    exact attached none shaped shaped'
  · rename_i inner
    rw [if_neg inner] at shaped shaped'
    cases found : t.parentFor? kind with
    | none => exact twins
    | some p =>
        rw [found] at shaped shaped'
        exact attached (some p) shaped shaped'

end Twins

/-! ## Places of settings that change places -/

def Twin (t t' : SectionTree) (d d' : Declaration) : Prop :=
  ∃ id name, t.locate? id name = some d ∧ t'.locate? id name = some d'

variable {n : Nat} {t t' : SectionTree}

theorem locate?_congr (shaped : t.Shaped) {id id' : Nat} {name : String}
    (same : t.declaring? id name = t.declaring? id' name) :
    t.locate? id name = t.locate? id' name := by
  rw [locate?_eq shaped, locate?_eq shaped, nearest, nearest, same]

theorem Twins.locate (twins : t.Twins n t') (id : Nat) (name : String) :
    Option.Rel (t.Twin t') (t.locate? id name) (t'.locate? id name) := by
  have same : (t'.locate? id name).isSome = (t.locate? id name).isSome := by
    rw [Bool.eq_iff_iff, locate?_isSome_iff twins.shaped, locate?_isSome_iff twins.shaped',
      ancestors_mirror twins.node_mirrors]
    simp only [declaresAt_mirror twins.node_mirrors]
  cases found : t.locate? id name with
  | none =>
      rw [found, Option.isSome_none, Option.isSome_eq_false_iff, Option.isNone_iff_eq_none] at same
      rw [same]
      exact .none
  | some d =>
      rw [found, Option.isSome_some] at same
      obtain ⟨d', found'⟩ := Option.isSome_iff_exists.mp same
      rw [found']
      exact .some ⟨id, name, found, found'⟩

theorem eq_of_twin (shaped : t.Shaped) (shaped' : t'.Shaped)
    (declaring : ∀ id name, t'.declaring? id name = t.declaring? id name) {d d' e' : Declaration}
    (twin : t.Twin t' d d') (other : t.Twin t' d e') : d' = e' := by
  obtain ⟨id, name, found, found'⟩ := twin
  obtain ⟨id₂, name₂, found₂, found₂'⟩ := other
  obtain ⟨owner, s, at_, named⟩ := mem_nearest (locate?_mem shaped found)
  obtain ⟨owner₂, s₂, at₂, named₂⟩ := mem_nearest (locate?_mem shaped found₂)
  obtain rfl := Option.some.inj (at_.symm.trans at₂)
  obtain rfl : name = name₂ := named.symm.trans named₂
  have same : t'.declaring? id name = t'.declaring? id₂ name := by
    rw [declaring, declaring, owner, owner₂]
  rw [locate?_congr shaped' same, found₂'] at found'
  exact (Option.some.inj found').symm

namespace Twins

variable {d d' e e' : Declaration}

theorem eq_iff (twins : t.Twins n t') (twin : t.Twin t' d d') (other : t.Twin t' e e') :
    d = e ↔ d' = e' := by
  have declaring := declaring?_mirror twins.node_mirrors
  have symm {d d' : Declaration} (twin : t.Twin t' d d') : t'.Twin t d' d := by
    obtain ⟨id, name, found, found'⟩ := twin
    exact ⟨id, name, found', found⟩
  constructor
  · rintro rfl
    exact eq_of_twin twins.shaped twins.shaped' declaring twin other
  · rintro rfl
    exact eq_of_twin twins.shaped' twins.shaped (fun id name => (declaring id name).symm)
      (symm twin) (symm other)

theorem setting (twins : t.Twins n t') (twin : t.Twin t' d d') :
    (t'.setting? d').map Setting.note = (t.setting? d).map (Setting.movedNote n) := by
  obtain ⟨id, name, found, found'⟩ := twin
  have same := twins.find id name
  rwa [find?, find?, found, found', Option.bind_some, Option.bind_some] at same

end Twins

theorem Mirrors.undated {u u' : SectionTree} (mirrors : t.Mirrors n t')
    (same : u.undated = t.undated)
    (same' : u'.undated = t'.undated) : u.Mirrors n u' := by
  have size {u t : SectionTree} (same : u.undated = t.undated) : u.size = t.size := by
    have sizes := congrArg SectionTree.size same
    simpa [SectionTree.undated, SectionTree.size] using sizes
  refine ⟨by rw [size same', size same, mirrors.size], ?_, ?_⟩
  · intro id
    have related := mirrors.node id
    have left := congrArg (·.node? id) same
    have right := congrArg (·.node? id) same'
    simp only [node?_undated] at left right
    generalize t.node? id = m at related left
    generalize t'.node? id = m' at related right
    cases related with
    | none =>
        rw [Option.map_eq_none_iff.mp left, Option.map_eq_none_iff.mp right]
        exact .none
    | some both =>
        obtain ⟨k, at_, dated⟩ := Option.map_eq_some_iff.mp left
        obtain ⟨k', at', dated'⟩ := Option.map_eq_some_iff.mp right
        rw [at_, at']
        exact .some (both.undated dated dated')
  · intro id name
    have related := mirrors.find id name
    have left := congrArg (·.find? id name) same
    have right := congrArg (·.find? id name) same'
    simp only [find?_undated] at left right
    generalize t.find? id name = s at related left
    generalize t'.find? id name = s' at related right
    cases related with
    | none =>
        rw [Option.map_eq_none_iff.mp left, Option.map_eq_none_iff.mp right]
        exact .none
    | some both =>
        obtain ⟨k, at_, dated⟩ := Option.map_eq_some_iff.mp left
        obtain ⟨k', at', dated'⟩ := Option.map_eq_some_iff.mp right
        rw [at_, at']
        have face {s k : Setting} (dated : k.undated = s.undated) : k.face = s.face :=
          congrArg (fun s => (⟨s.descriptor.traits, s.name, s.values.map Span.text⟩ : Face)) dated
        exact .some (by rw [Setting.Mirrors, face dated, face dated']; exact both)

end SectionTree

end ChartLint
