import ChartLint.Section.Tree
import Mathlib.Data.List.Basic
import Mathlib.Data.List.Induction

/-!
# The shape of the section tree

Whatever sections are added, the nodes form a forest of configurations: numbers grow from parents to
children, children and parents name each other, depths grow from parents to children except for a
series in a column, and the scope record of a node leads to the nearest declaration.

The invariant is `SectionTree.Shaped`. Each of its fields is an equation or a bound for one node, so
that one more node leaves the old ones alone; the statements about all sections around a node follow
by going up.

* `SectionTree.shaped_add` and `SectionTree.shaped_ofSections`: adding keeps the shape.
* `SectionTree.Grows`: what adding leaves of the sections that are there, and of what they see.
* `SectionTree.locate?_eq`: which declaration of the nearest section is found.
* `SectionTree.find?_isSome_iff`: a setting holds in a section if one of the sections around it
  declares it.
* `SectionTree.ofSections_sound`: the main statement.
-/

namespace ChartLint

def SectionKind.LiesUnder (kind parent : SectionKind) : Prop :=
  parent.depth < kind.depth ∨ kind = .series ∧ parent = .column

theorem SectionKind.depth_eq_zero_iff {kind : SectionKind} :
    kind.depth = 0 ↔ kind = .configuration := by
  cases kind <;> decide

namespace SectionTree

variable {t : SectionTree}

/-! ## One more node -/

def inherited (t : SectionTree) (parent : Option Nat) : List (String × Declaration) :=
  (parent.bind t.node?).elim [] SectionNode.scope

theorem lt_size_of_node? {id : Nat} {n : SectionNode} (found : t.node? id = some n) : id < t.size :=
  (Array.getElem?_eq_some_iff.mp found).1

theorem exists_node? {id : Nat} (bound : id < t.size) : ∃ n, t.node? id = some n :=
  ⟨t.nodes[id], Array.getElem?_eq_getElem bound⟩

section attach

variable (t) (header : Span) (kind : SectionKind) (settings : List Setting) (parent : Option Nat)

theorem size_attach : (t.attach header kind settings parent).size = t.size + 1 := by
  cases parent <;> simp [attach, size]

theorem node?_attach (id : Nat) :
    (t.attach header kind settings parent).node? id =
      if id = t.size then
        some
          { header, kind, settings, parent,
            scope := scopeOf t.size settings (t.inherited parent) }
      else
        (t.node? id).map fun n =>
          if parent = some id then { n with children := n.children ++ [t.size] } else n := by
  cases parent with
  | none => simp [attach, node?, size, inherited, Array.getElem?_push]
  | some p =>
      simp only [attach, node?, size, inherited, Array.getElem?_push, Array.size_modify,
        Array.getElem?_modify, Option.some.injEq]
      split
      · rfl
      · by_cases same : p = id
        · simp [same]
        · simp [same]

theorem node?_attach_new :
    (t.attach header kind settings parent).node? t.size =
      some { header, kind, settings, parent,
             scope := scopeOf t.size settings (t.inherited parent) } := by
  rw [node?_attach, if_pos rfl]

theorem parent?_attach_new : (t.attach header kind settings parent).parent? t.size = parent := by
  rw [parent?, node?_attach_new]
  rfl

end attach

/-! ## Trees that grow -/

def Grows (t t' : SectionTree) : Prop :=
  ∀ id n, t.node? id = some n → ∃ more, t'.node? id = some { n with children := n.children ++ more }

theorem Grows.refl (t : SectionTree) : t.Grows t :=
  fun _ _ found => ⟨[], by simpa using found⟩

theorem grows_attach (t : SectionTree) (header : Span) (kind : SectionKind)
    (settings : List Setting) (parent : Option Nat) :
    t.Grows (t.attach header kind settings parent) := by
  intro id n found
  have old : id ≠ t.size := Nat.ne_of_lt (lt_size_of_node? found)
  rw [node?_attach, if_neg old, found]
  by_cases same : parent = some id
  · exact ⟨[t.size], by simp [same]⟩
  · exact ⟨[], by simp [same]⟩

theorem Grows.node?_of_lt {t' : SectionTree} (grows : t.Grows t') {id : Nat} {n : SectionNode}
    (bound : id < t.size) (node : t'.node? id = some n) :
    ∃ m more, t.node? id = some m ∧ n = { m with children := m.children ++ more } := by
  obtain ⟨m, found⟩ := exists_node? bound
  obtain ⟨more, kept⟩ := grows id m found
  exact ⟨m, more, found, Option.some.inj (node.symm.trans kept)⟩

theorem Grows.parent?_eq {t' : SectionTree} (grows : t.Grows t') {id : Nat} (bound : id < t.size) :
    t'.parent? id = t.parent? id := by
  obtain ⟨n, found⟩ := exists_node? bound
  obtain ⟨more, kept⟩ := grows id n found
  simp [parent?, found, kept]

theorem Grows.declaresAt_eq {t' : SectionTree} (grows : t.Grows t') {id : Nat}
    (bound : id < t.size) (name : String) : t'.declaresAt name id = t.declaresAt name id := by
  obtain ⟨n, found⟩ := exists_node? bound
  obtain ⟨more, kept⟩ := grows id n found
  simp [declaresAt, found, kept, SectionNode.declares, SectionNode.local?]

theorem Grows.inherited_eq {t' : SectionTree} (grows : t.Grows t') {parent : Option Nat}
    (bound : ∀ p ∈ parent, p < t.size) : t'.inherited parent = t.inherited parent := by
  cases parent with
  | none => rfl
  | some p =>
      obtain ⟨n, found⟩ := exists_node? (bound p rfl)
      obtain ⟨more, kept⟩ := grows p n found
      simp [inherited, found, kept]

/-! ## The shape -/

structure Shaped (t : SectionTree) : Prop where
  parent : ∀ {id n p}, t.node? id = some n → n.parent = some p →
    p < id ∧ ∃ m, t.node? p = some m ∧ n.kind.LiesUnder m.kind
  root : ∀ {id n}, t.node? id = some n → n.parent = none → n.kind = .configuration
  children : ∀ {id n}, t.node? id = some n →
    n.children = (List.range t.size).filter fun c => t.parent? c = some id
  roots : t.roots = (List.range t.size).filter fun id => t.parent? id = none
  scope : ∀ {id n}, t.node? id = some n → n.scope = scopeOf id n.settings (t.inherited n.parent)
  trail : ∀ entry ∈ t.trail, ∃ n, t.node? entry.2 = some n ∧ n.kind.depth = entry.1
  last : ∀ {id}, t.last = some id → id < t.size

theorem shaped_empty : Shaped {} where
  parent found := by simp [node?] at found
  root found := by simp [node?] at found
  children found := by simp [node?] at found
  roots := rfl
  scope found := by simp [node?] at found
  trail := by simp
  last found := by simp at found

theorem filter_range_succ (n : Nat) (p : Nat → Bool) :
    (List.range (n + 1)).filter p = (List.range n).filter p ++ if p n then [n] else [] := by
  rw [List.range_succ, List.filter_append]
  cases holds : p n <;> simp [holds]

theorem filter_parent?_attach (t : SectionTree) (header : Span) (kind : SectionKind)
    (settings : List Setting) (parent sought : Option Nat) :
    ((List.range (t.attach header kind settings parent).size).filter fun c =>
        (t.attach header kind settings parent).parent? c = sought) =
      ((List.range t.size).filter fun c => t.parent? c = sought) ++
        if parent = sought then [t.size] else [] := by
  rw [size_attach, filter_range_succ, parent?_attach_new]
  congr 1
  · apply List.filter_congr
    intro c member
    rw [(t.grows_attach header kind settings parent).parent?_eq (List.mem_range.mp member)]
  · simp

theorem trail_attach (t : SectionTree) (header : Span) (kind : SectionKind)
    (settings : List Setting) (parent : Option Nat) :
    (t.attach header kind settings parent).trail =
      if kind = .series ∧ (parent.bind t.node?).map SectionNode.kind = some .column then t.trail
      else (kind.depth, t.size) :: t.trail.filter fun entry => entry.1 < kind.depth :=
  rfl

theorem node?_attach_cases {header : Span} {kind : SectionKind} {settings : List Setting}
    {parent : Option Nat} {id : Nat} {n : SectionNode}
    (found : (t.attach header kind settings parent).node? id = some n) :
    (id = t.size ∧ n = { header, kind, settings, parent,
                         scope := scopeOf t.size settings (t.inherited parent) }) ∨
      ∃ m, t.node? id = some m ∧
        n = { m with children := m.children ++ if parent = some id then [t.size] else [] } := by
  rw [node?_attach] at found
  split at found
  · rename_i same
    exact .inl ⟨same, (Option.some.inj found).symm⟩
  · obtain ⟨m, old, rfl⟩ := Option.map_eq_some_iff.mp found
    refine .inr ⟨m, old, ?_⟩
    split <;> simp

theorem parent?_ne_size (shaped : t.Shaped) : ∀ c < t.size, ¬ t.parent? c = some t.size := by
  intro c bound link
  obtain ⟨n, node, link⟩ := Option.bind_eq_some_iff.mp link
  have lower := (shaped.parent node link).1
  omega

theorem mem_trail_attach (shaped : t.Shaped) {header : Span} {kind : SectionKind}
    {settings : List Setting} {parent : Option Nat} :
    ∀ entry ∈ (t.attach header kind settings parent).trail,
      ∃ n, (t.attach header kind settings parent).node? entry.2 = some n ∧
        n.kind.depth = entry.1 := by
  have old : ∀ entry ∈ t.trail, ∃ n,
      (t.attach header kind settings parent).node? entry.2 = some n ∧ n.kind.depth = entry.1 := by
    intro entry member
    obtain ⟨m, found, depth⟩ := shaped.trail entry member
    obtain ⟨more, kept⟩ := t.grows_attach header kind settings parent entry.2 m found
    exact ⟨_, kept, depth⟩
  rw [trail_attach]
  split
  · exact old
  · intro entry member
    rcases List.mem_cons.mp member with rfl | member
    · exact ⟨_, t.node?_attach_new header kind settings parent, rfl⟩
    · exact old entry (List.mem_filter.mp member).1

theorem shaped_attach (shaped : t.Shaped) (header : Span) {kind : SectionKind}
    (settings : List Setting) {parent : Option Nat}
    (placed : ∀ p ∈ parent, ∃ m, t.node? p = some m ∧ kind.LiesUnder m.kind)
    (root : parent = none → kind = .configuration) :
    (t.attach header kind settings parent).Shaped := by
  have grows := t.grows_attach header kind settings parent
  have keeps {id : Nat} {m : SectionNode} (old : t.node? id = some m) :
      ∃ n, (t.attach header kind settings parent).node? id = some n ∧ n.kind = m.kind := by
    obtain ⟨more, kept⟩ := grows id m old
    exact ⟨_, kept, rfl⟩
  have above : ∀ p ∈ parent, p < t.size := by
    intro p member
    obtain ⟨m, old, -⟩ := placed p member
    exact lt_size_of_node? old
  refine ⟨?parent, ?root, ?children, ?roots, ?scope, ?trail, ?last⟩
  case parent =>
    intro id n p found link
    rcases node?_attach_cases found with ⟨rfl, rfl⟩ | ⟨m, old, rfl⟩
    · obtain ⟨m, old, lies⟩ := placed p link
      obtain ⟨n, kept, kind⟩ := keeps old
      exact ⟨above p link, n, kept, kind ▸ lies⟩
    · obtain ⟨lower, m', old', lies⟩ := shaped.parent old link
      obtain ⟨n, kept, kind⟩ := keeps old'
      exact ⟨lower, n, kept, kind ▸ lies⟩
  case root =>
    intro id n found free
    rcases node?_attach_cases found with ⟨rfl, rfl⟩ | ⟨m, old, rfl⟩
    · exact root free
    · exact shaped.root (n := m) old free
  case children =>
    intro id n found
    rw [filter_parent?_attach]
    rcases node?_attach_cases found with ⟨rfl, rfl⟩ | ⟨m, old, rfl⟩
    · -- nothing lies below the new node yet
      have other : ¬ parent = some t.size := fun link => Nat.lt_irrefl _ (above _ link)
      simpa [other] using parent?_ne_size shaped
    · exact congrArg (· ++ _) (shaped.children old)
  case roots =>
    rw [filter_parent?_attach, ← shaped.roots]
    cases parent <;> simp [attach]
  case scope =>
    intro id n found
    rcases node?_attach_cases found with ⟨rfl, rfl⟩ | ⟨m, old, rfl⟩
    · exact congrArg (scopeOf t.size settings) (grows.inherited_eq above).symm
    · have bound : ∀ p ∈ m.parent, p < t.size := fun p link =>
        Nat.lt_trans (shaped.parent old link).1 (lt_size_of_node? old)
      exact (shaped.scope old).trans (congrArg _ (grows.inherited_eq bound).symm)
  case trail => exact mem_trail_attach shaped
  case last =>
    intro id found
    obtain rfl : t.size = id := by simpa [attach] using found
    rw [size_attach]
    exact Nat.lt_succ_self _

/-! ## The way up -/

theorem parent?_lt (shaped : t.Shaped) {id p : Nat} (link : t.parent? id = some p) : p < id := by
  obtain ⟨n, node, link⟩ := Option.bind_eq_some_iff.mp link
  exact (shaped.parent node link).1

theorem chain_eq_chain (shaped : t.Shaped) {k l id : Nat} (enough : id < k) (enough' : id < l) :
    t.chain k id = t.chain l id := by
  induction k generalizing l id with
  | zero => omega
  | succ k ih =>
      obtain ⟨l, rfl⟩ : ∃ l', l = l' + 1 := ⟨l - 1, by omega⟩
      rw [chain, chain]
      cases link : t.parent? id with
      | none => rfl
      | some p =>
          have lower := parent?_lt shaped link
          exact congrArg (id :: ·) (ih (by omega) (by omega))

theorem ancestors_eq (shaped : t.Shaped) (id : Nat) :
    t.ancestors id = id :: (t.parent? id).elim [] t.ancestors := by
  rw [ancestors, chain]
  cases link : t.parent? id with
  | none => rfl
  | some p =>
      have lower := parent?_lt shaped link
      exact congrArg (id :: ·) (chain_eq_chain shaped lower (Nat.lt_succ_self p))

theorem mem_ancestors_iff (shaped : t.Shaped) {id a : Nat} :
    a ∈ t.ancestors id ↔ a = id ∨ ∃ p, t.parent? id = some p ∧ a ∈ t.ancestors p := by
  rw [ancestors_eq shaped]
  cases t.parent? id <;> simp

theorem up_induction (shaped : t.Shaped) {motive : Nat → Prop}
    (step : ∀ id, (∀ p, t.parent? id = some p → motive p) → motive id) (id : Nat) : motive id :=
  Nat.strongRecOn id fun id ih => step id fun p link => ih p (parent?_lt shaped link)

theorem le_of_mem_ancestors (shaped : t.Shaped) {id a : Nat} (member : a ∈ t.ancestors id) :
    a ≤ id := by
  induction id using up_induction shaped with
  | step id ih =>
      rcases (mem_ancestors_iff shaped).mp member with rfl | ⟨p, link, member⟩
      · exact Nat.le_refl _
      · exact Nat.le_of_lt (Nat.lt_of_le_of_lt (ih p link member) (parent?_lt shaped link))

theorem ancestors_getLast? (shaped : t.Shaped) {id : Nat} (bound : id < t.size) :
    ∃ root ∈ t.roots, (t.ancestors id).getLast? = some root := by
  induction id using up_induction shaped with
  | step id ih =>
      rw [ancestors_eq shaped]
      cases link : t.parent? id with
      | none =>
          refine ⟨id, ?_, rfl⟩
          rw [shaped.roots]
          simp [bound, link]
      | some p =>
          have lower := parent?_lt shaped link
          obtain ⟨root, member, last⟩ := ih p link (by omega)
          exact ⟨root, member, by simp [List.getLast?_cons, last]⟩

theorem Grows.ancestors_eq {t' : SectionTree} (grows : t.Grows t') (shaped : t.Shaped)
    (shaped' : t'.Shaped) {id : Nat} (bound : id < t.size) : t'.ancestors id = t.ancestors id := by
  induction id using up_induction shaped with
  | step id ih =>
      rw [SectionTree.ancestors_eq shaped, SectionTree.ancestors_eq shaped', grows.parent?_eq bound]
      cases link : t.parent? id with
      | none => rfl
      | some p =>
          have lower := parent?_lt shaped link
          exact congrArg (id :: ·) (ih p link (by omega))

/-! ## The place of a new section -/

/-- The sections whose way up a new section can be placed on: the last one, and those of the trail
that are not deepest. -/
def Front (t : SectionTree) (id : Nat) : Prop :=
  t.last = some id ∨ ∃ depth < 4, (depth, id) ∈ t.trail

theorem parentFor?_placed (shaped : t.Shaped) {kind : SectionKind} {p : Nat}
    (found : t.parentFor? kind = some p) :
    (kind = .series ∧ t.lastKind? = some .column ∧ t.last = some p) ∨
      ∃ id m, t.Front id ∧ p ∈ t.ancestors id ∧ t.node? p = some m ∧ m.kind.depth < kind.depth := by
  have self (id : Nat) : id ∈ t.ancestors id := List.mem_cons_self
  unfold parentFor? at found
  split at found
  · cases found
  · split at found
    · rename_i column
      exact .inl ⟨column.1, column.2, found⟩
    · right
      split at found
      · rename_i deepest
        unfold deepParent? at found
        split at found
        · rename_i first
          cases found
          have taken : t.takes kind p = true := List.find?_some first
          obtain ⟨m, node, fits⟩ := (Option.any_eq_true ..).mp taken
          rw [Bool.and_eq_true, decide_eq_true_eq] at fits
          have member := List.mem_of_find?_eq_some first
          cases last : t.last with
          | none => simp [last] at member
          | some id =>
              rw [last] at member
              exact ⟨id, m, .inl last, member, node, Nat.lt_of_lt_of_le fits.1 deepest⟩
        · -- no section on the way up takes it: the last one of depth three has to
          have member : (3, p) ∈ t.trail := by
            obtain ⟨before, after, split, -⟩ := List.lookup_eq_some_iff.mp found
            simp [split]
          obtain ⟨m, node, depth⟩ := shaped.trail (3, p) member
          exact ⟨p, m, .inr ⟨3, by decide, member⟩, self p, node, depth ▸ deepest⟩
      · rename_i shallow
        obtain ⟨entry, first, rfl⟩ := Option.map_eq_some_iff.mp found
        have member := List.mem_of_find?_eq_some first
        have lower : entry.1 < kind.depth := by simpa using List.find?_some first
        obtain ⟨m, node, depth⟩ := shaped.trail entry member
        exact ⟨entry.2, m, .inr ⟨entry.1, by omega, member⟩, self _, node, depth ▸ lower⟩

theorem parentFor?_liesUnder (shaped : t.Shaped) {kind : SectionKind} {p : Nat}
    (found : t.parentFor? kind = some p) : ∃ m, t.node? p = some m ∧ kind.LiesUnder m.kind := by
  rcases parentFor?_placed shaped found with ⟨rfl, column, last⟩ | ⟨id, m, -, -, node, lower⟩
  · obtain ⟨m, node, column⟩ := Option.map_eq_some_iff.mp column
    rw [last] at node
    exact ⟨m, node, .inr ⟨rfl, column⟩⟩
  · exact ⟨m, node, .inl lower⟩

theorem add_cases (t : SectionTree) (header : Span) (kind : SectionKind) (settings : List Setting) :
    (kind = .configuration ∧
        (t.add header kind settings).1 = t.attach header kind settings none) ∨
      (∃ p, t.parentFor? kind = some p ∧ kind.depth ≠ 0 ∧
        (t.add header kind settings).1 = t.attach header kind settings (some p)) ∨
      t.parentFor? kind = none ∧ kind.depth ≠ 0 ∧ (t.add header kind settings).1 = t := by
  unfold add
  split
  · rename_i outermost
    exact .inl ⟨SectionKind.depth_eq_zero_iff.mp outermost, rfl⟩
  · rename_i inner
    cases found : t.parentFor? kind with
    | some p => exact .inr (.inl ⟨p, rfl, inner, rfl⟩)
    | none => exact .inr (.inr ⟨rfl, inner, rfl⟩)

theorem lt_size_of_node?_add {header : Span} {kind : SectionKind} {settings : List Setting}
    {id : Nat}
    {n : SectionNode} (node : (t.add header kind settings).1.node? id = some n)
    (other : n.header ≠ header) : id < t.size := by
  have attached {parent : Option Nat}
      (node : (t.attach header kind settings parent).node? id = some n) : id < t.size := by
    rcases node?_attach_cases node with ⟨-, rfl⟩ | ⟨m, old, -⟩
    · exact absurd rfl other
    · exact lt_size_of_node? old
  rcases t.add_cases header kind settings with ⟨-, same⟩ | ⟨p, -, -, same⟩ | ⟨-, -, same⟩
  · exact attached (same ▸ node)
  · exact attached (same ▸ node)
  · rw [same] at node
    exact lt_size_of_node? node

theorem grows_add (t : SectionTree) (header : Span) (kind : SectionKind) (settings : List Setting) :
    t.Grows (t.add header kind settings).1 := by
  rcases t.add_cases header kind settings with ⟨-, same⟩ | ⟨p, -, -, same⟩ | ⟨-, -, same⟩
  · exact same ▸ t.grows_attach header kind settings none
  · exact same ▸ t.grows_attach header kind settings (some p)
  · rw [same]
    exact .refl t

theorem shaped_add (shaped : t.Shaped) (header : Span) (kind : SectionKind)
    (settings : List Setting) : (t.add header kind settings).1.Shaped := by
  rcases t.add_cases header kind settings with ⟨root, same⟩ | ⟨p, found, -, same⟩ | ⟨-, -, same⟩
  · exact same ▸ shaped_attach shaped header settings (by simp) fun _ => root
  · have placed : ∀ q ∈ some p, ∃ m, t.node? q = some m ∧ kind.LiesUnder m.kind := by
      rintro q ⟨⟩
      exact parentFor?_liesUnder shaped found
    exact same ▸ shaped_attach shaped header settings placed (by simp)
  · rw [same]
    exact shaped

/-! ## Declarations -/

theorem declaring?_eq (shaped : t.Shaped) (id : Nat) (name : String) :
    t.declaring? id name =
      if t.declaresAt name id then some id else (t.parent? id).bind (t.declaring? · name) := by
  rw [declaring?, ancestors_eq shaped, List.find?_cons]
  cases t.declaresAt name id with
  | true => rfl
  | false => cases t.parent? id <;> rfl

def placesOf (name : String) (settings : List Setting) : List Nat :=
  settings.findIdxs fun s => s.descriptor.name == name

theorem mem_placesOf {name : String} {settings : List Setting} {i : Nat} :
    i ∈ placesOf name settings ↔ ∃ s, settings[i]? = some s ∧ s.descriptor.name = name := by
  rw [placesOf, List.mem_findIdxs_iff_exists_getElem_pos]
  constructor
  · rintro ⟨bound, named⟩
    exact ⟨settings[i], List.getElem?_eq_getElem bound, by simpa using named⟩
  · rintro ⟨s, at_, named⟩
    obtain ⟨bound, rfl⟩ := List.getElem?_eq_some_iff.mp at_
    exact ⟨bound, by simpa using named⟩

theorem placesOf_concat (name : String) (settings : List Setting) (s : Setting) :
    placesOf name (settings ++ [s]) =
      placesOf name settings ++ if s.descriptor.name = name then [settings.length] else [] := by
  simp [placesOf, List.findIdxs_append]

theorem lookup_scopeOf (id : Nat) (settings : List Setting)
    (inherited : List (String × Declaration)) {name : String} (kept : name ∈ scopeNames) :
    (scopeOf id settings inherited).lookup name =
      ((placesOf name settings).getLast?.map (Declaration.mk id)).or (inherited.lookup name) := by
  -- the record is built from the first setting on, so one more setting at the end goes on top
  induction settings using List.reverseRecOn with
  | nil => rfl
  | append_singleton settings s ih =>
      have last : scopeOf id (settings ++ [s]) inherited =
          if scopeNames.contains s.descriptor.name then
            (s.descriptor.name, ⟨id, settings.length⟩) :: scopeOf id settings inherited
          else scopeOf id settings inherited := by
        simp [scopeOf, List.zipIdx_append, List.foldl_append]
      rw [last, placesOf_concat]
      by_cases same : s.descriptor.name = name
      · rw [same, if_pos (List.contains_iff_mem.mpr kept), List.lookup_cons_self]
        simp
      · rw [if_neg same, List.append_nil, ← ih]
        split
        · rw [List.lookup_cons, beq_false_of_ne (Ne.symm same)]
        · rfl

theorem declaresAt_iff {id : Nat} {n : SectionNode} (found : t.node? id = some n) (name : String) :
    t.declaresAt name id = true ↔ ∃ s ∈ n.settings, s.descriptor.name = name := by
  simp [declaresAt, found, SectionNode.declares, SectionNode.local?]

def declarations (t : SectionTree) (name : String) (id : Nat) : List Declaration :=
  (t.node? id).elim [] fun n => (placesOf name n.settings).map (Declaration.mk id)

theorem mem_declarations {name : String} {id : Nat} {d : Declaration} :
    d ∈ t.declarations name id ↔
      d.node = id ∧ ∃ s, t.setting? d = some s ∧ s.descriptor.name = name := by
  obtain ⟨node, index⟩ := d
  cases found : t.node? id with
  | none =>
      simp only [declarations, found, Option.elim_none, List.not_mem_nil, false_iff]
      rintro ⟨rfl, s, at_, -⟩
      simp [setting?, found] at at_
  | some n =>
      simp only [declarations, found, Option.elim_some, List.mem_map, mem_placesOf,
        Declaration.mk.injEq]
      constructor
      · rintro ⟨i, ⟨s, at_, named⟩, rfl, rfl⟩
        exact ⟨rfl, s, by simp [setting?, found, at_], named⟩
      · rintro ⟨rfl, s, at_, named⟩
        exact ⟨index, ⟨s, by simpa [setting?, found] using at_, named⟩, rfl, rfl⟩

theorem declarations_eq_nil_iff {name : String} {id : Nat} :
    t.declarations name id = [] ↔ t.declaresAt name id = false := by
  cases found : t.node? id with
  | none => simp [declarations, declaresAt, found]
  | some n =>
      rw [← Bool.not_eq_true, declaresAt_iff found]
      simp [declarations, found, placesOf, List.findIdxs_eq_nil_iff]

def nearest (t : SectionTree) (id : Nat) (name : String) : List Declaration :=
  (t.declaring? id name).elim [] (t.declarations name)

theorem nearest_eq (shaped : t.Shaped) (id : Nat) (name : String) :
    t.nearest id name =
      if t.declaresAt name id then t.declarations name id
      else (t.parent? id).elim [] (t.nearest · name) := by
  rw [nearest, declaring?_eq shaped]
  split
  · rfl
  · cases t.parent? id <;> rfl

theorem mem_nearest {id : Nat} {name : String} {d : Declaration} (member : d ∈ t.nearest id name) :
    t.declaring? id name = some d.node ∧ ∃ s, t.setting? d = some s ∧ s.descriptor.name = name := by
  unfold nearest at member
  cases declaring : t.declaring? id name with
  | none => simp [declaring] at member
  | some a =>
      rw [declaring] at member
      obtain ⟨rfl, named⟩ := mem_declarations.mp member
      exact ⟨rfl, named⟩

theorem nearest_eq_nil_iff {id : Nat} {name : String} :
    t.nearest id name = [] ↔ t.declaring? id name = none := by
  unfold nearest
  cases declaring : t.declaring? id name with
  | none => simp
  | some a =>
      have declares : t.declaresAt name a = true := List.find?_some declaring
      simp [declarations_eq_nil_iff, declares]

theorem lookup_scope (shaped : t.Shaped) {name : String} (kept : name ∈ scopeNames) {id : Nat}
    {n : SectionNode} (found : t.node? id = some n) :
    n.scope.lookup name = (t.nearest id name).getLast? := by
  induction id using up_induction shaped generalizing n with
  | step id ih =>
      have here : t.declarations name id = (placesOf name n.settings).map (Declaration.mk id) := by
        simp [declarations, found]
      rw [nearest_eq shaped, shaped.scope found, lookup_scopeOf id n.settings _ kept,
        ← List.getLast?_map, ← here]
      cases declares : t.declaresAt name id with
      | true =>
          have some_ : (t.declarations name id).getLast?.isSome := by
            simpa [declarations_eq_nil_iff] using declares
          rw [if_pos rfl, Option.or_of_isSome some_]
      | false =>
          rw [declarations_eq_nil_iff.mpr declares, if_neg Bool.false_ne_true]
          cases link : n.parent with
          | none => simp [inherited, parent?, found, link]
          | some p =>
              obtain ⟨lower, m, node, -⟩ := shaped.parent found link
              have linked : t.parent? id = some p := by simp [parent?, found, link]
              simpa [inherited, node, linked] using ih p linked node

theorem head?_placesOf (name : String) (settings : List Setting) :
    (placesOf name settings).head? = settings.findIdx? fun s => s.descriptor.name == name := by
  induction settings with
  | nil => rfl
  | cons s settings ih =>
      rw [placesOf, List.findIdxs_cons, List.findIdx?_cons]
      split
      · rfl
      · rw [List.findIdxs_start, List.head?_map, ← ih, placesOf]

theorem head?_declarations (t : SectionTree) (name : String) (id : Nat) :
    (t.declarations name id).head? =
      (t.node? id).bind fun n => (n.localIndex? name).map (Declaration.mk id) := by
  cases found : t.node? id with
  | none => simp [declarations, found]
  | some n =>
      simp [declarations, found, List.head?_map, head?_placesOf, SectionNode.localIndex?]

theorem findSome?_eq_bind {α β : Type} (f : α → Option β) (as : List α) :
    as.findSome? f = (as.find? fun a => (f a).isSome).bind f := by
  induction as with
  | nil => rfl
  | cons a as ih =>
      rw [List.findSome?_cons, List.find?_cons]
      cases value : f a with
      | none => exact ih
      | some b => exact value.symm

theorem findSome?_ancestors {β : Type} {name : String} {f : Nat → Option β}
    (declares : ∀ a, (f a).isSome = t.declaresAt name a) (id : Nat) :
    (t.ancestors id).findSome? f = (t.declaring? id name).bind f := by
  rw [findSome?_eq_bind, funext declares]
  rfl

theorem locate?_eq (shaped : t.Shaped) (id : Nat) (name : String) :
    t.locate? id name =
      if name ∈ scopeNames then (t.nearest id name).getLast? else (t.nearest id name).head? := by
  unfold locate?
  by_cases kept : name ∈ scopeNames
  · rw [if_pos (List.contains_iff_mem.mpr kept), if_pos kept]
    cases node : t.node? id with
    | none =>
        rw [nearest_eq shaped]
        simp [declaresAt, parent?, node]
    | some n => exact lookup_scope shaped kept node
  · rw [if_neg (mt List.contains_iff_mem.mp kept), if_neg kept]
    simp only [← head?_declarations]
    have declares (a : Nat) : (t.declarations name a).head?.isSome = t.declaresAt name a := by
      cases declares : t.declaresAt name a with
      | true => simpa [declarations_eq_nil_iff] using declares
      | false => rw [declarations_eq_nil_iff.mpr declares]; rfl
    rw [findSome?_ancestors declares, nearest]
    cases t.declaring? id name <;> rfl

theorem locate?_mem (shaped : t.Shaped) {id : Nat} {name : String} {d : Declaration}
    (found : t.locate? id name = some d) : d ∈ t.nearest id name := by
  rw [locate?_eq shaped] at found
  split at found
  · exact List.mem_of_getLast? found
  · exact List.mem_of_head? found

theorem locate?_spec (shaped : t.Shaped) {id : Nat} {name : String} {d : Declaration}
    (found : t.locate? id name = some d) : ∃ s, t.setting? d = some s ∧ s.descriptor.name = name :=
  (mem_nearest (locate?_mem shaped found)).2

theorem locate?_isSome_iff (shaped : t.Shaped) (id : Nat) (name : String) :
    (t.locate? id name).isSome ↔ ∃ a ∈ t.ancestors id, t.declaresAt name a = true := by
  have declaring : t.nearest id name ≠ [] ↔ ∃ a ∈ t.ancestors id, t.declaresAt name a = true := by
    simp [nearest_eq_nil_iff, declaring?]
  rw [← declaring, locate?_eq shaped]
  split <;> simp

theorem find?_isSome_iff (shaped : t.Shaped) (id : Nat) (name : String) :
    (t.find? id name).isSome ↔ ∃ a ∈ t.ancestors id, t.declaresAt name a = true := by
  rw [← locate?_isSome_iff shaped, find?]
  cases found : t.locate? id name with
  | none => simp
  | some d =>
      obtain ⟨s, at_, -⟩ := locate?_spec shaped found
      simp [at_]

/-! ## Trees of documents -/

def ofSections (sections : List (Span × SectionKind × List Setting)) : SectionTree :=
  sections.foldl (fun t s => (t.add s.1 s.2.1 s.2.2).1) {}

theorem shaped_ofSections (sections : List (Span × SectionKind × List Setting)) :
    (ofSections sections).Shaped := by
  unfold ofSections
  generalize start : ({} : SectionTree) = t
  have shaped : t.Shaped := start ▸ shaped_empty
  clear start
  induction sections generalizing t with
  | nil => exact shaped
  | cons s sections ih => exact ih _ (shaped_add shaped s.1 s.2.1 s.2.2)

structure Sound (t : SectionTree) : Prop where
  parent_lt : ∀ {id p}, t.parent? id = some p → p < id
  /-- The way up goes on to the parent, ... -/
  up : ∀ id, t.ancestors id = id :: (t.parent? id).elim [] t.ancestors
  /-- ... and ends at a root. -/
  up_ends : ∀ id < t.size, ∃ root ∈ t.roots, (t.ancestors id).getLast? = some root
  /-- A section is one time among those below its parent and not among others. -/
  count_children : ∀ p c, (t.children p).count c = if t.parent? c = some p then 1 else 0
  children_increase : ∀ p, (t.children p).Pairwise (· < ·)
  roots_increase : t.roots.Pairwise (· < ·)
  mem_roots : ∀ id, id ∈ t.roots ↔ ∃ n, t.node? id = some n ∧ n.parent = none
  root_kind : ∀ id ∈ t.roots, ∃ n, t.node? id = some n ∧ n.kind = .configuration
  /-- Depths grow on the way down, except from a column to a series. -/
  depth : ∀ id n p, t.node? id = some n → n.parent = some p →
    ∃ m, t.node? p = some m ∧
      (m.kind.depth < n.kind.depth ∨ n.kind = .series ∧ m.kind = .column)
  /-- The record of a node has a name if the node or one around it declares the name, ... -/
  scope_isSome : ∀ id n, t.node? id = some n → ∀ name ∈ scopeNames,
    ((n.scope.lookup name).isSome ↔ ∃ a ∈ t.ancestors id, t.declaresAt name a = true)
  /-- ... and leads to a setting of that name in the nearest such node. -/
  scope_nearest : ∀ id n, t.node? id = some n → ∀ name ∈ scopeNames, ∀ d,
    n.scope.lookup name = some d →
      t.declaring? id name = some d.node ∧
        ∃ s, t.setting? d = some s ∧ s.descriptor.name = name

theorem children_eq (shaped : t.Shaped) (p : Nat) :
    t.children p = (List.range t.size).filter fun c => t.parent? c = some p := by
  unfold children
  cases node : t.node? p with
  | some n => exact shaped.children node
  | none =>
      symm
      rw [Option.elim_none, List.filter_eq_nil_iff]
      intro c member link
      have lower := parent?_lt shaped (of_decide_eq_true link)
      have bound := List.mem_range.mp member
      have within : p < t.size := by omega
      obtain ⟨n, found⟩ := exists_node? within
      simp [node] at found

theorem mem_roots_iff (shaped : t.Shaped) (id : Nat) :
    id ∈ t.roots ↔ ∃ n, t.node? id = some n ∧ n.parent = none := by
  rw [shaped.roots, List.mem_filter, List.mem_range]
  constructor
  · rintro ⟨bound, free⟩
    obtain ⟨n, node⟩ := exists_node? bound
    exact ⟨n, node, by simpa [parent?, node] using free⟩
  · rintro ⟨n, node, free⟩
    exact ⟨lt_size_of_node? node, by simp [parent?, node, free]⟩

theorem sound_of_shaped (shaped : t.Shaped) : t.Sound where
  parent_lt := parent?_lt shaped
  up := ancestors_eq shaped
  up_ends _ := ancestors_getLast? shaped
  count_children p c := by
    rw [children_eq shaped, List.Nodup.count (List.nodup_range.filter _)]
    have within : t.parent? c = some p → c < t.size := by
      intro link
      obtain ⟨n, node, -⟩ := Option.bind_eq_some_iff.mp link
      exact lt_size_of_node? node
    simp only [List.mem_filter, List.mem_range, decide_eq_true_eq]
    exact if_congr ⟨And.right, fun link => ⟨within link, link⟩⟩ rfl rfl
  children_increase p := children_eq shaped p ▸ List.pairwise_lt_range.filter _
  roots_increase := shaped.roots ▸ List.pairwise_lt_range.filter _
  mem_roots := mem_roots_iff shaped
  root_kind id member := by
    obtain ⟨n, node, free⟩ := (mem_roots_iff shaped id).mp member
    exact ⟨n, node, shaped.root node free⟩
  depth _ _ _ node link := (shaped.parent node link).2
  scope_isSome id n node name kept := by
    have located := locate?_isSome_iff shaped id name
    rw [locate?, if_pos (List.contains_iff_mem.mpr kept), node] at located
    exact located
  scope_nearest id n node name kept d leads := by
    rw [lookup_scope shaped kept node] at leads
    exact mem_nearest (List.mem_of_getLast? leads)

/-- Sections of any kinds with any settings, in any order, make a forest of configurations. -/
theorem ofSections_sound (sections : List (Span × SectionKind × List Setting)) :
    (ofSections sections).Sound :=
  sound_of_shaped (shaped_ofSections sections)

end SectionTree
end ChartLint
