import Mathlib.Data.Nat.Find
import ChartLint.Proofs.Section.Inheritance

/-!
# The place of a section in the tree

The tree keeps the last section of each depth that is still open, and from that it finds the parent
of the next one. Here the parent is said by the kinds and the parents of the sections that are in
the tree, in their order: `SectionTree.Belongs`. That a section is put where it belongs is
`SectionTree.add_belongs`.

* `SectionTree.Current`: what it is for a section to be on the trail.
* `SectionTree.Charted` ties the trail and the last section to the nodes, `charted_ofSections` has
  it for every tree that is built by adding.
* `SectionTree.find?_trail` and `SectionTree.lookup_trail` read the trail off the nodes.
-/

namespace ChartLint.SectionTree

variable {t : SectionTree}

/-! ## What is known of the sections in the tree -/

def kindAt? (t : SectionTree) (id : Nat) : Option SectionKind :=
  (t.node? id).map SectionNode.kind

def parentKind? (t : SectionTree) (id : Nat) : Option SectionKind :=
  (t.parent? id).bind t.kindAt?

def Above (t : SectionTree) (depth id : Nat) : Prop :=
  ∃ kind ∈ t.kindAt? id, kind.depth < depth

def Standing (t : SectionTree) (id : Nat) : Prop :=
  (∃ kind ∈ t.kindAt? id, kind.depth = 3) ∧ t.parentKind? id ≠ some .column

def Latest (holds : Nat → Prop) (id : Nat) : Prop :=
  holds id ∧ ∀ later > id, ¬ holds later

/-- The nearest section around the last one, or that one itself, that takes a section which lies
deepest. -/
def Nearest (t : SectionTree) (kind : SectionKind) (id : Nat) : Prop :=
  ∃ last, last + 1 = t.size ∧ (t.ancestors last).find? (t.takes kind) = some id

/-- The last section of depth three, in case nothing of less depth came after it. -/
def Open (t : SectionTree) (id : Nat) : Prop :=
  Latest t.Standing id ∧ ∀ later > id, ¬ t.Above 3 later

inductive Place where
  | root
  | under (parent : Nat)
  | nowhere

def addTo (t : SectionTree) (header : Span) (kind : SectionKind) (settings : List Setting) :
    Place → SectionTree × Option Nat
  | .root => (t.attach header kind settings none, some t.size)
  | .under parent => (t.attach header kind settings (some parent), some t.size)
  | .nowhere => (t, none)

inductive Belongs (t : SectionTree) (previous : Option SectionKind) (kind : SectionKind) :
    Place → Prop
  | root (outermost : kind.depth = 0) : Belongs t previous kind .root
  | column {last : Nat} (series : kind = .series) (after : previous = some .column)
      (newest : last + 1 = t.size) : Belongs t previous kind (.under last)
  | inner {parent : Nat} (inside : 1 ≤ kind.depth) (shallow : kind.depth ≤ 3)
      (apart : ¬ (kind = .series ∧ previous = some .column))
      (latest : Latest (t.Above kind.depth) parent) : Belongs t previous kind (.under parent)
  | rootless (inside : 1 ≤ kind.depth) (shallow : kind.depth ≤ 3) (empty : t.roots = []) :
      Belongs t previous kind .nowhere
  | taken {parent : Nat} (deepest : kind.depth = 4) (nearest : t.Nearest kind parent) :
      Belongs t previous kind (.under parent)
  | leftover {parent : Nat} (deepest : kind.depth = 4) (untaken : ∀ id, ¬ t.Nearest kind id)
      (opened : t.Open parent) : Belongs t previous kind (.under parent)
  | unplaced (deepest : kind.depth = 4) (untaken : ∀ id, ¬ t.Nearest kind id)
      (closed : ∀ id, ¬ t.Open id) : Belongs t previous kind .nowhere

theorem Latest.unique {holds : Nat → Prop} {id id' : Nat} (latest : Latest holds id)
    (latest' : Latest holds id') : id = id' := by
  by_contra other
  rcases Nat.lt_or_gt_of_ne other with before | after
  · exact latest.2 id' before latest'.1
  · exact latest'.2 id after latest.1

theorem exists_latest {holds : Nat → Prop} {bound id : Nat} (below : ∀ i, holds i → i < bound)
    (here : holds id) : ∃ last, id ≤ last ∧ Latest holds last := by
  classical
  have start : id ≤ bound := Nat.le_of_lt (below id here)
  refine ⟨Nat.findGreatest holds bound, Nat.le_findGreatest start here,
    Nat.findGreatest_spec start here, ?_⟩
  intro later after holding
  exact Nat.findGreatest_is_greatest after (Nat.le_of_lt (below later holding)) holding

theorem lt_size_of_kindAt? {id : Nat} {kind : SectionKind} (found : t.kindAt? id = some kind) :
    id < t.size := by
  obtain ⟨n, node, -⟩ := Option.map_eq_some_iff.mp found
  exact lt_size_of_node? node

theorem Above.lt_size {depth id : Nat} (above : t.Above depth id) : id < t.size := by
  obtain ⟨kind, found, -⟩ := above
  exact lt_size_of_kindAt? found

/-! ## The trail -/

/-- A series in a column, which leaves no trace on the trail. -/
def Nested (t : SectionTree) (id : Nat) : Prop :=
  t.kindAt? id = some .series ∧ t.parentKind? id = some .column

/-- The last section of its depth, with nothing of less depth after it. -/
def Current (t : SectionTree) (depth id : Nat) : Prop :=
  (∃ kind ∈ t.kindAt? id, kind.depth = depth) ∧ ¬ t.Nested id ∧
    ∀ later > id, ∀ kind ∈ t.kindAt? later, t.Nested later ∨ depth < kind.depth

section attach

variable (header : Span) (kind : SectionKind) (settings : List Setting) {parent : Option Nat}

theorem kindAt?_attach (parent : Option Nat) (id : Nat) :
    (t.attach header kind settings parent).kindAt? id =
      if id = t.size then some kind else t.kindAt? id := by
  rw [kindAt?, node?_attach]
  split
  · rfl
  · rw [kindAt?, Option.map_map]
    congr 1
    funext n
    simp only [Function.comp_apply]
    split <;> rfl

theorem kindAt?_attach_new (parent : Option Nat) :
    (t.attach header kind settings parent).kindAt? t.size = some kind := by
  rw [kindAt?_attach, if_pos rfl]

theorem kindAt?_attach_old (parent : Option Nat) {id : Nat} (other : id ≠ t.size) :
    (t.attach header kind settings parent).kindAt? id = t.kindAt? id := by
  rw [kindAt?_attach, if_neg other]

theorem nested_attach_new (above : ∀ p ∈ parent, p < t.size) :
    (t.attach header kind settings parent).Nested t.size ↔
      kind = .series ∧ parent.bind t.kindAt? = some .column := by
  have around : (t.attach header kind settings parent).parentKind? t.size =
      parent.bind t.kindAt? := by
    rw [parentKind?, parent?_attach_new]
    apply Option.bind_congr
    intro p link
    exact kindAt?_attach_old header kind settings parent (Nat.ne_of_lt (above p link))
  rw [Nested, kindAt?_attach_new, around, Option.some.injEq]

theorem nested_attach_old (shaped : t.Shaped) (parent : Option Nat) {id : Nat}
    (bound : id < t.size) :
    (t.attach header kind settings parent).Nested id ↔ t.Nested id := by
  have grows := t.grows_attach header kind settings parent
  have around : (t.attach header kind settings parent).parentKind? id = t.parentKind? id := by
    rw [parentKind?, grows.parent?_eq bound]
    apply Option.bind_congr
    intro p link
    have lower := parent?_lt shaped link
    exact kindAt?_attach_old header kind settings parent (by omega)
  rw [Nested, kindAt?_attach_old header kind settings parent (Nat.ne_of_lt bound), around, Nested]

theorem current_attach_new (above : ∀ p ∈ parent, p < t.size) (depth : Nat) :
    (t.attach header kind settings parent).Current depth t.size ↔
      depth = kind.depth ∧ ¬ (kind = .series ∧ parent.bind t.kindAt? = some .column) := by
  rw [Current, nested_attach_new header kind settings above, kindAt?_attach_new]
  constructor
  · rintro ⟨⟨k, own, same⟩, apart, -⟩
    obtain rfl := Option.some.inj own
    exact ⟨same.symm, apart⟩
  · rintro ⟨same, apart⟩
    refine ⟨⟨kind, rfl, same.symm⟩, apart, ?_⟩
    intro later after k found
    have bound := lt_size_of_kindAt? found
    rw [size_attach] at bound
    omega

theorem current_attach_old (shaped : t.Shaped) (above : ∀ p ∈ parent, p < t.size) (depth : Nat)
    {id : Nat} (bound : id < t.size) :
    (t.attach header kind settings parent).Current depth id ↔
      t.Current depth id ∧
        (kind = .series ∧ parent.bind t.kindAt? = some .column ∨ depth < kind.depth) := by
  have kinds {i : Nat} (lower : i < t.size) :=
    kindAt?_attach_old header kind settings parent (Nat.ne_of_lt lower)
  have nested {i : Nat} (lower : i < t.size) :=
    nested_attach_old header kind settings shaped parent lower
  rw [Current, kinds bound, nested bound, Current]
  constructor
  · rintro ⟨own, apart, others⟩
    refine ⟨⟨own, apart, ?_⟩, ?_⟩
    · intro later after k found
      have lower := lt_size_of_kindAt? found
      rw [← nested lower]
      exact others later after k ((kinds lower).trans found)
    · rw [← nested_attach_new header kind settings above]
      exact others t.size bound kind (kindAt?_attach_new header kind settings parent)
  · rintro ⟨⟨own, apart, others⟩, newest⟩
    refine ⟨own, apart, ?_⟩
    intro later after k found
    by_cases new : later = t.size
    · subst new
      rw [kindAt?_attach_new] at found
      obtain rfl := Option.some.inj found
      rwa [nested_attach_new header kind settings above]
    · rw [kindAt?_attach_old header kind settings parent new] at found
      rw [nested (lt_size_of_kindAt? found)]
      exact others later after k found

end attach

theorem Current.lt_size {depth id : Nat} (current : t.Current depth id) : id < t.size := by
  obtain ⟨⟨kind, found, -⟩, -⟩ := current
  exact lt_size_of_kindAt? found

structure Charted (t : SectionTree) : Prop where
  shaped : t.Shaped
  last : ∀ id, t.last = some id ↔ id + 1 = t.size
  trail : ∀ depth id, (depth, id) ∈ t.trail ↔ t.Current depth id
  sorted : t.trail.Pairwise fun entry deeper => deeper.1 < entry.1

theorem charted_empty : Charted {} where
  shaped := shaped_empty
  last id := by simp [size]
  trail depth id := by simp [Current, kindAt?, node?]
  sorted := .nil

theorem mem_trail_attach_iff (charted : t.Charted) (header : Span) {kind : SectionKind}
    (settings : List Setting) {parent : Option Nat} (above : ∀ p ∈ parent, p < t.size)
    (depth id : Nat) :
    (depth, id) ∈ (t.attach header kind settings parent).trail ↔
      (t.attach header kind settings parent).Current depth id := by
  have around : (parent.bind t.node?).map SectionNode.kind = parent.bind t.kindAt? := by
    rw [Option.map_bind]
    rfl
  rw [trail_attach, around]
  by_cases old : id < t.size
  · rw [current_attach_old header kind settings charted.shaped above depth old, ← charted.trail]
    have other : id ≠ t.size := Nat.ne_of_lt old
    split
    · rename_i nested
      simp [nested]
    · rename_i apart
      simp [apart, other]
  · have fresh (d : Nat) : (d, id) ∉ t.trail :=
      fun member => old ((charted.trail d id).mp member).lt_size
    by_cases new : id = t.size
    · subst new
      rw [current_attach_new header kind settings above]
      split
      · rename_i nested
        simp [nested, fresh]
      · rename_i apart
        simp [apart, fresh]
    · apply iff_of_false
      · split <;> simp [fresh, new]
      · intro current
        have bound := current.lt_size
        rw [size_attach] at bound
        omega

theorem charted_attach (charted : t.Charted) (header : Span) {kind : SectionKind}
    (settings : List Setting) {parent : Option Nat}
    (shaped : (t.attach header kind settings parent).Shaped) (above : ∀ p ∈ parent, p < t.size) :
    (t.attach header kind settings parent).Charted where
  shaped := shaped
  last id := by
    rw [size_attach, Nat.add_right_cancel_iff, eq_comm]
    exact Option.some_inj
  trail := mem_trail_attach_iff charted header settings above
  sorted := by
    rw [trail_attach]
    split
    · exact charted.sorted
    · rw [List.pairwise_cons]
      refine ⟨?_, charted.sorted.filter _⟩
      intro entry member
      exact of_decide_eq_true (List.mem_filter.mp member).2

theorem charted_add (charted : t.Charted) (header : Span) (kind : SectionKind)
    (settings : List Setting) : (t.add header kind settings).1.Charted := by
  have shaped := shaped_add charted.shaped header kind settings
  rcases t.add_cases header kind settings with ⟨-, same⟩ | ⟨p, found, -, same⟩ | ⟨-, -, same⟩
  · rw [same] at shaped ⊢
    exact charted_attach charted header settings shaped (by simp)
  · rw [same] at shaped ⊢
    apply charted_attach charted header settings shaped
    rintro q ⟨⟩
    obtain ⟨m, node, -⟩ := parentFor?_liesUnder charted.shaped found
    exact lt_size_of_node? node
  · rw [same]
    exact charted

theorem ofSections_concat (sections : List (Span × SectionKind × List Setting))
    (last : Span × SectionKind × List Setting) :
    ofSections (sections ++ [last]) = ((ofSections sections).add last.1 last.2.1 last.2.2).1 := by
  rw [ofSections, List.foldl_append]
  rfl

theorem charted_ofSections (sections : List (Span × SectionKind × List Setting)) :
    (ofSections sections).Charted := by
  induction sections using List.reverseRecOn with
  | nil => exact charted_empty
  | append_singleton sections last ih =>
      rw [ofSections_concat]
      exact charted_add ih last.1 last.2.1 last.2.2

/-! ## What is read off the trail -/

theorem roots_eq_nil_iff (shaped : t.Shaped) : t.roots = [] ↔ t.size = 0 := by
  constructor
  · intro empty
    by_contra filled
    obtain ⟨n, node⟩ := exists_node? (Nat.pos_of_ne_zero filled)
    rw [node?_eq_none_of_roots shaped empty] at node
    cases node
  · intro empty
    rw [shaped.roots, empty]
    rfl

theorem Current.unique {depth id id' : Nat} (current : t.Current depth id)
    (current' : t.Current depth id') : id = id' := by
  have first {i j : Nat} (one : t.Current depth i) (other : t.Current depth j) : ¬ i < j := by
    intro before
    obtain ⟨⟨kind, found, same⟩, apart, -⟩ := other
    rcases one.2.2 j before kind found with nested | deeper
    · exact apart nested
    · exact absurd same (Nat.ne_of_gt deeper)
  exact Nat.le_antisymm (Nat.le_of_not_lt (first current' current))
    (Nat.le_of_not_lt (first current current'))

theorem exists_current_of_latest {depth id : Nat} (shallow : depth ≤ 3)
    (latest : Latest (t.Above depth) id) : ∃ own < depth, t.Current own id := by
  obtain ⟨⟨kind, found, lower⟩, last⟩ := latest
  refine ⟨kind.depth, lower, ⟨kind, found, rfl⟩, ?_, ?_⟩
  · rintro ⟨series, -⟩
    obtain rfl := Option.some.inj (found.symm.trans series)
    exact absurd (Nat.lt_of_lt_of_le lower shallow) (by decide)
  · intro later after k at_
    have high : ¬ k.depth < depth := fun lower => last later after ⟨k, at_, lower⟩
    right
    omega

theorem fst_le_of_find? {trail : List (Nat × Nat)} {depth : Nat} {entry other : Nat × Nat}
    (sorted : trail.Pairwise fun entry deeper => deeper.1 < entry.1)
    (first : (trail.find? fun entry => entry.1 < depth) = some entry) (member : other ∈ trail)
    (lower : other.1 < depth) : other.1 ≤ entry.1 := by
  obtain ⟨-, before, after, rfl, skipped⟩ := List.find?_eq_some_iff_append.mp first
  rw [List.pairwise_append, List.pairwise_cons] at sorted
  rcases List.mem_append.mp member with early | late
  · simpa [lower] using skipped other early
  · rcases List.mem_cons.mp late with rfl | late
    · exact Nat.le_refl _
    · exact Nat.le_of_lt (sorted.2.1.1 other late)

theorem find?_trail (charted : t.Charted) {depth : Nat} (shallow : depth ≤ 3) (id : Nat) :
    (t.trail.find? fun entry => entry.1 < depth).map Prod.snd = some id ↔
      Latest (t.Above depth) id := by
  have found {i : Nat}
      (found : (t.trail.find? fun entry => entry.1 < depth).map Prod.snd = some i) :
      Latest (t.Above depth) i := by
    obtain ⟨⟨own, j⟩, first, same⟩ := Option.map_eq_some_iff.mp found
    obtain rfl : j = i := same
    have lower : own < depth := by simpa using List.find?_some first
    have current := (charted.trail own j).mp (List.mem_of_find?_eq_some first)
    obtain ⟨kind, at_, same⟩ := current.1
    have here : t.Above depth j := ⟨kind, at_, same ▸ lower⟩
    obtain ⟨last, reached, latest⟩ := exists_latest (fun i above => above.lt_size) here
    suffices same : j = last from same ▸ latest
    by_contra other
    -- the last one would be on the trail too, deeper than the entry that was found
    obtain ⟨own', lower', current'⟩ := exists_current_of_latest shallow latest
    obtain ⟨kind', at_', same'⟩ := current'.1
    have member := (charted.trail own' last).mpr current'
    have bound : own' ≤ own := fst_le_of_find? charted.sorted first member lower'
    rcases current.2.2 last (Nat.lt_of_le_of_ne reached other) kind' at_' with nested | deeper
    · exact current'.2.1 nested
    · omega
  constructor
  · exact found
  · intro latest
    obtain ⟨own, lower, current⟩ := exists_current_of_latest shallow latest
    have some_ : ((t.trail.find? fun entry => entry.1 < depth).map Prod.snd).isSome := by
      rw [Option.isSome_map, List.find?_isSome]
      exact ⟨(own, id), (charted.trail own id).mpr current, decide_eq_true lower⟩
    obtain ⟨other, first⟩ := Option.isSome_iff_exists.mp some_
    rw [first, (found first).unique latest]

theorem nested_iff (shaped : t.Shaped) {id : Nat} {kind : SectionKind}
    (found : t.kindAt? id = some kind)
    (depth : kind.depth = 3) : t.Nested id ↔ t.parentKind? id = some .column := by
  refine ⟨And.right, fun column => ⟨?_, column⟩⟩
  obtain ⟨p, link, around⟩ := Option.bind_eq_some_iff.mp column
  obtain ⟨n, node, above⟩ := Option.bind_eq_some_iff.mp link
  obtain ⟨m, node', column⟩ := Option.map_eq_some_iff.mp around
  obtain ⟨-, m', same, lies⟩ := shaped.parent node above
  obtain rfl : m = m' := Option.some.inj (node'.symm.trans same)
  have own : n.kind = kind := Option.some.inj ((congrArg (Option.map _) node).symm.trans found)
  rw [own, column] at lies
  rcases lies with lower | ⟨series, -⟩
  · rw [depth] at lower
    exact absurd lower (by decide)
  · rw [found, series]

theorem current_three_iff (shaped : t.Shaped) (id : Nat) : t.Current 3 id ↔ t.Open id := by
  constructor
  · rintro ⟨⟨kind, found, depth⟩, apart, others⟩
    refine ⟨⟨⟨⟨kind, found, depth⟩, mt (nested_iff shaped found depth).mpr apart⟩, ?_⟩, ?_⟩
    · rintro later after ⟨⟨k, found, depth⟩, free⟩
      rcases others later after k found with nested | deeper
      · exact free nested.2
      · omega
    · rintro later after ⟨k, found, lower⟩
      rcases others later after k found with nested | deeper
      · obtain rfl := Option.some.inj (found.symm.trans nested.1)
        exact absurd lower (by decide)
      · omega
  · rintro ⟨⟨⟨⟨kind, found, depth⟩, free⟩, last⟩, covered⟩
    refine ⟨⟨kind, found, depth⟩, mt And.right free, ?_⟩
    intro later after k at_
    have high : ¬ k.depth < 3 := fun lower => covered later after ⟨k, at_, lower⟩
    by_cases same : k.depth = 3
    · left
      by_contra apart
      exact last later after ⟨⟨k, at_, same⟩, mt (nested_iff shaped at_ same).mpr apart⟩
    · right
      omega

theorem lookup_trail (charted : t.Charted) (id : Nat) :
    t.trail.lookup 3 = some id ↔ t.Open id := by
  rw [← current_three_iff charted.shaped]
  have found {i : Nat} (found : t.trail.lookup 3 = some i) : t.Current 3 i := by
    obtain ⟨before, after, split, -⟩ := List.lookup_eq_some_iff.mp found
    rw [← charted.trail, split]
    simp
  refine ⟨found, fun current => ?_⟩
  cases first : t.trail.lookup 3 with
  | none =>
      have absent := List.lookup_eq_none_iff.mp first (3, id) ((charted.trail 3 id).mpr current)
      simp at absent
  | some other => rw [(found first).unique current]

/-! ## The place of a section -/

theorem nearest_iff (charted : t.Charted) (kind : SectionKind) (id : Nat) :
    (t.last.elim [] t.ancestors).find? (t.takes kind) = some id ↔ t.Nearest kind id := by
  constructor
  · intro found
    cases last : t.last with
    | none => simp [last] at found
    | some newest =>
        rw [last] at found
        exact ⟨newest, (charted.last newest).mp last, found⟩
  · rintro ⟨newest, last, found⟩
    rw [(charted.last newest).mpr last]
    exact found

theorem deepParent?_eq_some_iff (charted : t.Charted) (kind : SectionKind) (id : Nat) :
    t.deepParent? kind = some id ↔
      t.Nearest kind id ∨ (∀ other, ¬ t.Nearest kind other) ∧ t.Open id := by
  simp only [← nearest_iff charted, ← lookup_trail charted, deepParent?]
  split
  · rename_i other found
    simp [found]
  · rename_i absent
    simp [absent]

def placeFor (t : SectionTree) (kind : SectionKind) : Place :=
  if kind.depth = 0 then .root else (t.parentFor? kind).elim .nowhere .under

theorem add_eq_addTo (t : SectionTree) (header : Span) (kind : SectionKind)
    (settings : List Setting) :
    t.add header kind settings = t.addTo header kind settings (t.placeFor kind) := by
  unfold add placeFor
  split
  · rfl
  · cases t.parentFor? kind <;> rfl

section parent

variable {kind : SectionKind} (filled : t.roots ≠ [])
include filled

theorem parentFor?_column (column : kind = .series ∧ t.lastKind? = some .column) :
    t.parentFor? kind = t.last := by
  rw [parentFor?, if_neg (by simpa using filled), if_pos column]

theorem parentFor?_inner (charted : t.Charted)
    (apart : ¬ (kind = .series ∧ t.lastKind? = some .column)) (shallow : kind.depth ≤ 3)
    (id : Nat) :
    t.parentFor? kind = some id ↔ Latest (t.Above kind.depth) id := by
  rw [parentFor?, if_neg (by simpa using filled), if_neg apart, if_neg (by omega)]
  exact find?_trail charted shallow id

theorem exists_parentFor? (charted : t.Charted) (inside : 1 ≤ kind.depth)
    (shallow : kind.depth ≤ 3) :
    ∃ id, t.parentFor? kind = some id := by
  by_cases column : kind = .series ∧ t.lastKind? = some .column
  · obtain ⟨n, found, -⟩ := Option.map_eq_some_iff.mp column.2
    obtain ⟨last, newest, -⟩ := Option.bind_eq_some_iff.mp found
    exact ⟨last, (parentFor?_column filled column).trans newest⟩
  · obtain ⟨root, member⟩ := List.exists_mem_of_ne_nil _ filled
    obtain ⟨n, node, free⟩ := (mem_roots_iff charted.shaped root).mp member
    have outermost : n.kind = .configuration := charted.shaped.root node free
    have above : t.Above kind.depth root := by
      refine ⟨n.kind, congrArg (Option.map _) node, ?_⟩
      rw [outermost]
      exact inside
    obtain ⟨last, -, latest⟩ := exists_latest (fun i above => above.lt_size) above
    exact ⟨last, (parentFor?_inner filled charted column shallow last).mpr latest⟩

end parent

theorem parentFor?_rootless (empty : t.roots = []) (kind : SectionKind) :
    t.parentFor? kind = none := by
  rw [parentFor?, empty]
  rfl

theorem roots_ne_nil_of_lt (shaped : t.Shaped) {id : Nat} (bound : id < t.size) : t.roots ≠ [] := by
  rw [Ne, roots_eq_nil_iff shaped]
  omega

theorem parentFor?_deepest (charted : t.Charted) {kind : SectionKind} (deepest : kind.depth = 4)
    (id : Nat) :
    t.parentFor? kind = some id ↔
      t.Nearest kind id ∨ (∀ other, ¬ t.Nearest kind other) ∧ t.Open id := by
  by_cases empty : t.roots = []
  · have size := (roots_eq_nil_iff charted.shaped).mp empty
    rw [parentFor?_rootless empty]
    apply iff_of_false
    · intro found
      cases found
    · rintro (⟨last, newest, -⟩ | ⟨-, ⟨⟨⟨⟨k, found, -⟩, -⟩, -⟩, -⟩⟩)
      · omega
      · have bound := lt_size_of_kindAt? found
        omega
  · have other : ¬ (kind = .series ∧ t.lastKind? = some .column) := by
      rintro ⟨rfl, -⟩
      exact absurd deepest (by decide)
    rw [parentFor?, if_neg (by simpa using empty), if_neg other, if_pos (Nat.le_of_eq deepest.symm)]
    exact deepParent?_eq_some_iff charted kind id

theorem open_of_column (charted : t.Charted) {last : Nat} (newest : t.last = some last)
    (column : t.kindAt? last = some .column) : t.Open last := by
  have size := (charted.last last).mp newest
  rw [← current_three_iff charted.shaped]
  refine ⟨⟨.column, column, rfl⟩, ?_, ?_⟩
  · rintro ⟨series, -⟩
    rw [column] at series
    cases series
  · intro later after kind found
    have bound := lt_size_of_kindAt? found
    omega

theorem left_out (charted : t.Charted) (filled : t.roots ≠ []) {kind : SectionKind}
    (inside : kind.depth ≠ 0) (unplaced : t.parentFor? kind = none) :
    kind.depth = 4 ∧ t.lastKind? ≠ some .column := by
  have absent (id : Nat) : t.parentFor? kind ≠ some id := by simp [unplaced]
  have bound := kind.depth_le
  have deepest : kind.depth = 4 := by
    by_contra other
    obtain ⟨id, found⟩ : ∃ id, t.parentFor? kind = some id :=
      exists_parentFor? filled charted (by omega) (by omega)
    exact absent id found
  have placed := parentFor?_deepest charted deepest
  refine ⟨deepest, fun column => ?_⟩
  obtain ⟨n, found, own⟩ := Option.map_eq_some_iff.mp column
  obtain ⟨last, newest, node⟩ := Option.bind_eq_some_iff.mp found
  have opened : t.Open last := open_of_column charted newest (by rw [kindAt?, node, ← own]; rfl)
  have untaken (id : Nat) : ¬ t.Nearest kind id := fun nearest =>
    absent id ((placed id).mpr (.inl nearest))
  exact absent last ((placed last).mpr (.inr ⟨untaken, opened⟩))

theorem lastKind?_ofSections (sections : List (Span × SectionKind × List Setting))
    (filled : (ofSections sections).roots ≠ []) :
    (ofSections sections).lastKind? = some .column ↔
      (sections.getLast?.map fun s => s.2.1) = some .column := by
  rcases List.eq_nil_or_concat sections with rfl | ⟨before, last, rfl⟩
  · exact absurd rfl filled
  · rw [List.concat_eq_append] at filled ⊢
    rw [List.getLast?_concat, Option.map_some]
    rw [ofSections_concat] at filled ⊢
    rcases (ofSections before).add_cases last.1 last.2.1 last.2.2 with
      ⟨-, same⟩ | ⟨p, -, -, same⟩ | ⟨unplaced, inside, same⟩
    · rw [same, lastKind?_attach]
    · rw [same, lastKind?_attach]
    · rw [same] at filled ⊢
      obtain ⟨deepest, other⟩ := left_out (charted_ofSections before) filled inside unplaced
      apply iff_of_false other
      intro column
      rw [Option.some.inj column] at deepest
      exact absurd deepest (by decide)

section belongs

variable {previous : Option SectionKind} {kind : SectionKind} (charted : t.Charted)
  (follows : t.roots ≠ [] → (t.lastKind? = some .column ↔ previous = some .column))
include charted follows

theorem Belongs.eq_placeFor {place : Place} (belongs : t.Belongs previous kind place) :
    place = t.placeFor kind := by
  have parent {p : Nat} (inside : kind.depth ≠ 0) (found : t.parentFor? kind = some p) :
      .under p = t.placeFor kind := by
    rw [placeFor, if_neg inside, found]
    rfl
  have absent (inside : kind.depth ≠ 0) (missing : ∀ p, t.parentFor? kind ≠ some p) :
      .nowhere = t.placeFor kind := by
    rw [placeFor, if_neg inside, Option.eq_none_iff_forall_ne_some.mpr missing]
    rfl
  cases belongs with
  | root outermost => rw [placeFor, if_pos outermost]
  | column series after newest =>
      have filled := roots_ne_nil_of_lt charted.shaped (Nat.lt_of_succ_le (Nat.le_of_eq newest))
      apply parent (by rw [series]; decide)
      rw [parentFor?_column filled ⟨series, (follows filled).mpr after⟩]
      exact (charted.last _).mpr newest
  | inner inside shallow apart latest =>
      have filled := roots_ne_nil_of_lt charted.shaped latest.1.lt_size
      apply parent (by omega)
      rw [← follows filled] at apart
      exact (parentFor?_inner filled charted apart shallow _).mpr latest
  | rootless inside shallow empty =>
      apply absent (by omega)
      simp [parentFor?_rootless empty]
  | taken deepest nearest =>
      apply parent (by omega)
      exact (parentFor?_deepest charted deepest _).mpr (.inl nearest)
  | leftover deepest untaken opened =>
      apply parent (by omega)
      exact (parentFor?_deepest charted deepest _).mpr (.inr ⟨untaken, opened⟩)
  | unplaced deepest untaken closed =>
      apply absent (by omega)
      intro p found
      rcases (parentFor?_deepest charted deepest p).mp found with nearest | ⟨-, opened⟩
      · exact untaken p nearest
      · exact closed p opened

theorem belongs_placeFor : t.Belongs previous kind (t.placeFor kind) := by
  have bound := kind.depth_le
  unfold placeFor
  split
  · rename_i outermost
    exact .root outermost
  · rename_i inside
    by_cases deepest : kind.depth = 4
    · have placed := parentFor?_deepest charted deepest
      cases found : t.parentFor? kind with
      | some p =>
          rcases (placed p).mp found with nearest | ⟨untaken, opened⟩
          · exact .taken deepest nearest
          · exact .leftover deepest untaken opened
      | none =>
          have untaken (id : Nat) : ¬ t.Nearest kind id := fun nearest => by
            simpa [found] using (placed id).mpr (.inl nearest)
          have closed (id : Nat) : ¬ t.Open id := fun opened => by
            simpa [found] using (placed id).mpr (.inr ⟨untaken, opened⟩)
          exact .unplaced deepest untaken closed
    · have shallow : kind.depth ≤ 3 := by omega
      have inner : 1 ≤ kind.depth := by omega
      by_cases empty : t.roots = []
      · rw [parentFor?_rootless empty]
        exact .rootless inner shallow empty
      · obtain ⟨p, found⟩ := exists_parentFor? empty charted inner shallow
        rw [found]
        by_cases column : kind = .series ∧ t.lastKind? = some .column
        · rw [parentFor?_column empty column] at found
          exact .column column.1 ((follows empty).mp column.2) ((charted.last p).mp found)
        · have latest := (parentFor?_inner empty charted column shallow p).mp found
          rw [follows empty] at column
          exact .inner inner shallow column latest

end belongs

/-- Each section has one place where it belongs, and goes there: a configuration becomes a root, a
series right after a column goes into it, any other section that is not deepest goes under the last
section of less depth, and a deepest one goes to the nearest section that takes it, or else to the
last one of depth three that is still open. -/
theorem add_belongs (sections : List (Span × SectionKind × List Setting)) (header : Span)
    (kind : SectionKind) (settings : List Setting) :
    let t := ofSections sections
    ∃ place, (∀ other, t.Belongs (sections.getLast?.map fun s => s.2.1) kind other ↔
      other = place) ∧
      t.add header kind settings = t.addTo header kind settings place := by
  intro t
  have charted := charted_ofSections sections
  have follows := lastKind?_ofSections sections
  refine ⟨t.placeFor kind, fun other => ⟨?_, ?_⟩, t.add_eq_addTo header kind settings⟩
  · exact Belongs.eq_placeFor charted follows
  · rintro rfl
    exact belongs_placeFor charted follows

end ChartLint.SectionTree
