import ChartLint.Proofs.Section.Closing
import ChartLint.Proofs.Section.Tree

/-!
# The path and the tree

What is around a section is known twice: by the levels of the open path, which are closed by depth
alone, and by the tree, which finds a parent for each section that is complete. Here the two are
compared. Each section that the tree has around another one is a level below that one's level, or
it is a column with a series in it: such a series is put into the column, while the path closes the
column before it.

* `SectionTree.Covered`: the sections that new ones can be placed under have their settings at the
  levels of their depths.
* `SectionTree.LevelsMatch`: for each open level whose section is in the tree, the settings around
  the section are those at the level and below.
* `SectionTree.Agrees` has both, `SectionTree.agrees_room` and `SectionTree.agrees_add` keep them.
* `SectionTree.explained_missing`: a group that a level lacks is not met in the tree either.
-/

namespace ChartLint

theorem SectionKind.LiesUnder.depth_le {kind parent : SectionKind} (lies : kind.LiesUnder parent) :
    parent.depth ≤ kind.depth := by
  rcases lies with lower | ⟨rfl, rfl⟩
  · exact Nat.le_of_lt lower
  · decide

theorem Requirement.unmet_subset (r : Requirement) {visible visible' : String → Bool}
    (less : ∀ name, visible' name = true → visible name = true) :
    r.unmet visible ⊆ r.unmet visible' := by
  have met (a : Alternative) : a.isMet visible' = true → a.isMet visible = true := by
    simpa [Alternative.isMet] using fun all name member => less name (all name member)
  intro group missing
  unfold unmet at missing ⊢
  split at missing
  · cases missing
  · rename_i needed
    have needed' : ¬ r.waivers.any visible' = true := by
      simp only [List.any_eq_true, not_exists, not_and] at needed ⊢
      exact fun name member seen => needed name member (less name seen)
    rw [if_neg needed']
    simp only [List.mem_filter, Bool.not_eq_true', List.any_eq_false] at missing ⊢
    exact ⟨missing.1, fun a member seen => missing.2 a member (met a seen)⟩

/-! ## Levels by depth -/

theorem Level.declares_sees (l : Level) (kind : SectionKind) (name : String) :
    (l.sees kind).declares name = l.declares name := by
  unfold Level.sees
  split <;> rfl

theorem Level.declares_declare (c : Catalog) (l : Level) (name value sought : String) :
    (l.declare c name value).declares sought = (sought == name || l.declares sought) := by
  unfold Level.declares Level.declare
  rw [List.lookup_cons]
  cases sought == name <;> rfl

namespace OpenPath

def levelAt? (levels : List Level) (depth : Nat) : Option Level :=
  levels.reverse[depth]?

theorem mem_of_levelAt? {levels : List Level} {depth : Nat} {l : Level}
    (found : levelAt? levels depth = some l) : l ∈ levels :=
  List.mem_reverse.mp (List.mem_of_getElem? found)

theorem levelAt?_cons_length (l : Level) (below : List Level) :
    levelAt? (l :: below) below.length = some l := by
  simp [levelAt?]

theorem levelAt?_cons {below : List Level} {depth : Nat} {found : Level} (l : Level)
    (at_ : levelAt? below depth = some found) : levelAt? (l :: below) depth = some found := by
  have bound := (List.getElem?_eq_some_iff.mp at_).1
  rw [levelAt?, List.reverse_cons, List.getElem?_append_left bound]
  exact at_

theorem levelAt?_room {p : OpenPath} {kind : SectionKind} {depth : Nat} {l : Level}
    (at_ : levelAt? p.levels depth = some l) (outside : depth < kind.depth) :
    levelAt? ((p.room kind).map (·.sees kind)) depth = some (l.sees kind) := by
  have bound : depth < p.levels.length := by simpa using (List.getElem?_eq_some_iff.mp at_).1
  have within : depth < p.levels.length - (p.depth - p.slot kind) := by
    unfold slot OpenPath.depth
    split <;> omega
  have kept : (p.room kind).reverse[depth]? = p.levels.reverse[depth]? := by
    rw [room, List.reverse_append, List.getElem?_append_left (by simpa using within),
      List.reverse_drop, List.getElem?_take_of_lt within]
  rw [levelAt?, ← List.map_reverse, List.getElem?_map, kept]
  exact congrArg (Option.map _) at_

end OpenPath

namespace SectionTree

variable {t t' : SectionTree}

/-! ## Columns with a series -/

def nestsSeries (t : SectionTree) (id : Nat) : Bool :=
  (t.node? id).any fun n =>
    n.kind == .column && n.children.any fun child => (t.node? child).any fun m => m.kind == .series

theorem nestsSeries_iff {id : Nat} : t.nestsSeries id = true ↔
    ∃ n, t.node? id = some n ∧ n.kind = .column ∧
      ∃ child ∈ n.children, ∃ m, t.node? child = some m ∧ m.kind = .series := by
  simp [nestsSeries, Option.any_eq_true]

theorem Grows.nestsSeries (grows : t.Grows t') {id : Nat} (nests : t.nestsSeries id = true) :
    t'.nestsSeries id = true := by
  obtain ⟨n, node, column, child, member, m, node', series⟩ := nestsSeries_iff.mp nests
  obtain ⟨more, kept⟩ := grows id n node
  obtain ⟨more', kept'⟩ := grows child m node'
  exact nestsSeries_iff.mpr
    ⟨_, kept, column, child, List.mem_append_left more member, _, kept', series⟩

theorem nestsSeries_attach {p : Nat} {m : SectionNode} (node : t.node? p = some m)
    (column : m.kind = .column) (header : Span) (settings : List Setting) :
    (t.attach header .series settings (some p)).nestsSeries p = true := by
  have old : p ≠ t.size := Nat.ne_of_lt (lt_size_of_node? node)
  have kept : (t.attach header .series settings (some p)).node? p =
      some { m with children := m.children ++ [t.size] } := by
    rw [node?_attach, if_neg old, node]
    simp
  exact nestsSeries_iff.mpr ⟨_, kept, column, t.size, by simp, _,
    t.node?_attach_new header .series settings (some p), rfl⟩

/-! ## Depths on the way up -/

theorem depth_le_of_mem_ancestors (shaped : t.Shaped) {id a : Nat} {n m : SectionNode}
    (member : a ∈ t.ancestors id) (node : t.node? id = some n) (above : t.node? a = some m) :
    m.kind.depth ≤ n.kind.depth := by
  induction id using up_induction shaped generalizing n with
  | step id ih =>
      rcases (mem_ancestors_iff shaped).mp member with rfl | ⟨p, link, member⟩
      · rw [node] at above
        cases above
        exact Nat.le_refl _
      · have linked : n.parent = some p := by simpa [parent?, node] using link
        obtain ⟨-, q, node', lies⟩ := shaped.parent node linked
        exact Nat.le_trans (ih p link member node') lies.depth_le

theorem ancestors_trans (shaped : t.Shaped) {id p a : Nat} (member : p ∈ t.ancestors id)
    (above : a ∈ t.ancestors p) : a ∈ t.ancestors id := by
  induction id using up_induction shaped with
  | step id ih =>
      rcases (mem_ancestors_iff shaped).mp member with rfl | ⟨q, link, member⟩
      · exact above
      · exact (mem_ancestors_iff shaped).mpr (.inr ⟨q, link, ih q link member⟩)

theorem lt_size_of_mem_ancestors (shaped : t.Shaped) {id a : Nat} (bound : id < t.size)
    (member : a ∈ t.ancestors id) : a < t.size :=
  Nat.lt_of_le_of_lt (le_of_mem_ancestors shaped member) bound

/-! ## Fronts -/

/-- What the trail is like besides: it starts at the last root, and a column that is the last
section is its only section of depth three. -/
structure Trailed (t : SectionTree) : Prop where
  root : t.roots ≠ [] → ∃ id, (0, id) ∈ t.trail
  column : t.lastKind? = some .column → ∀ id, (3, id) ∈ t.trail → t.last = some id

theorem trailed_empty : Trailed {} where
  root filled := absurd rfl filled
  column column := by simp [lastKind?] at column

theorem lastKind?_attach (t : SectionTree) (header : Span) (kind : SectionKind)
    (settings : List Setting) (parent : Option Nat) :
    (t.attach header kind settings parent).lastKind? = some kind := by
  have last : (t.attach header kind settings parent).last = some t.size := rfl
  rw [lastKind?, last, Option.bind_some, node?_attach_new]
  rfl

theorem trailed_attach (trailed : t.Trailed) (header : Span) {kind : SectionKind}
    (settings : List Setting) {parent : Option Nat} (root : parent = none ↔ kind.depth = 0) :
    (t.attach header kind settings parent).Trailed := by
  constructor
  · intro filled
    rw [trail_attach]
    cases parent with
    | none => exact ⟨t.size, by simp [root.mp rfl]⟩
    | some p =>
        have inner : 0 < kind.depth := by
          have := mt root.mpr (by simp)
          omega
        obtain ⟨id, member⟩ := trailed.root (by simpa [attach] using filled)
        refine ⟨id, ?_⟩
        split
        · exact member
        · exact List.mem_cons_of_mem _ (List.mem_filter.mpr ⟨member, by simpa using inner⟩)
  · intro column id member
    rw [lastKind?_attach] at column
    obtain rfl := Option.some.inj column
    rw [trail_attach, if_neg (by simp)] at member
    obtain rfl : id = t.size := by simpa [SectionKind.depth] using member
    rfl

theorem roots_eq_nil (trailed : t.Trailed) {kind : SectionKind} (inner : 0 < kind.depth)
    (shallow : kind.depth < 4) (unplaced : t.parentFor? kind = none) : t.roots = [] := by
  by_contra filled
  obtain ⟨id, member⟩ := trailed.root filled
  rw [parentFor?, if_neg (by simpa using filled)] at unplaced
  split at unplaced
  · rename_i column
    simp [lastKind?, unplaced] at column
  · rw [if_neg (by omega)] at unplaced
    simp only [Option.map_eq_none_iff, List.find?_eq_none, decide_eq_true_eq] at unplaced
    exact unplaced _ member inner

theorem node?_eq_none_of_roots (shaped : t.Shaped) (empty : t.roots = []) (id : Nat) :
    t.node? id = none := by
  cases node : t.node? id with
  | none => rfl
  | some n =>
      obtain ⟨root, member, -⟩ := ancestors_getLast? shaped (lt_size_of_node? node)
      simp [empty] at member

theorem front_attach (shaped : t.Shaped) (trailed : t.Trailed) {header : Span} {kind : SectionKind}
    {settings : List Setting} {parent : Option Nat}
    (placed : ∀ p ∈ parent, t.parentFor? kind = some p)
    {id : Nat} (front : (t.attach header kind settings parent).Front id) :
    id = t.size ∨ parent = some id ∨ ∃ depth < kind.depth, depth < 4 ∧ (depth, id) ∈ t.trail := by
  rcases front with last | ⟨depth, bound, member⟩
  · exact .inl (Option.some.inj last).symm
  · rw [trail_attach] at member
    split at member
    · rename_i column
      obtain ⟨rfl, column⟩ := column
      obtain ⟨m, found, column⟩ := Option.map_eq_some_iff.mp column
      obtain ⟨p, link, node⟩ := Option.bind_eq_some_iff.mp found
      -- the trail stays as it is, and the one section of depth three on it is the column
      by_cases three : depth = 3
      · subst three
        rcases parentFor?_placed shaped (placed p link)
          with ⟨-, last, same⟩ | ⟨-, m', -, -, node', lower⟩
        · have top := trailed.column last id member
          rw [same] at top
          exact .inr (.inl (link.trans top))
        · rw [node] at node'
          cases node'
          rw [column] at lower
          exact absurd lower (by decide)
      · exact .inr (.inr ⟨depth, by simp [SectionKind.depth]; omega, bound, member⟩)
    · rcases List.mem_cons.mp member with same | member
      · exact .inl (Prod.mk.inj same).2
      · obtain ⟨member, lower⟩ := List.mem_filter.mp member
        exact .inr (.inr ⟨depth, of_decide_eq_true lower, bound, member⟩)

/-! ## Settings at levels -/

/-- The settings of a section are all at the outermost levels, up to a number of them, unless it is
a column with a series in it. -/
def Held (t : SectionTree) (number : Nat) (levels : List Level) (a : Nat) : Prop :=
  t.nestsSeries a = true ∨ ∀ name, t.declaresAt name a = true →
    ∃ depth < number, ∃ l, OpenPath.levelAt? levels depth = some l ∧ l.declares name = true

theorem Held.cons {number : Nat} {levels : List Level} {a : Nat} (held : t.Held number levels a)
    (l : Level) : t.Held number (l :: levels) a := by
  refine held.imp_right fun held name declares => ?_
  obtain ⟨depth, bound, found, at_, declared⟩ := held name declares
  exact ⟨depth, bound, found, OpenPath.levelAt?_cons l at_, declared⟩

theorem Held.grows {number : Nat} {levels : List Level} {a : Nat} (held : t.Held number levels a)
    (grows : t.Grows t') (bound : a < t.size) : t'.Held number levels a :=
  held.imp grows.nestsSeries fun held name declares =>
    held name (grows.declaresAt_eq bound name ▸ declares)

theorem Held.any {number : Nat} {levels : List Level} {a : Nat} (held : t.Held number levels a) :
    t.nestsSeries a = true ∨
      ∀ name, t.declaresAt name a = true → levels.any (·.declares name) = true := by
  refine held.imp_right fun held name declares => ?_
  obtain ⟨depth, -, l, at_, declared⟩ := held name declares
  exact List.any_eq_true.mpr ⟨l, OpenPath.mem_of_levelAt? at_, declared⟩

theorem Held.room {p : OpenPath} {kind : SectionKind} {number a : Nat}
    (held : t.Held number p.levels a) (outside : number ≤ kind.depth) :
    t.Held number ((p.room kind).map (·.sees kind)) a := by
  refine held.imp_right fun held name declares => ?_
  obtain ⟨depth, bound, l, at_, declared⟩ := held name declares
  have kept := OpenPath.levelAt?_room at_ (Nat.lt_of_lt_of_le bound outside)
  exact ⟨depth, bound, _, kept, (Level.declares_sees l kind name).trans declared⟩

/-- The sections of less depth than a limit on the way up from the fronts have their settings at the
levels up to their own. -/
def Covered (t : SectionTree) (limit : Nat) (levels : List Level) : Prop :=
  ∀ id a n, t.Front id → a ∈ t.ancestors id → t.node? a = some n → n.kind.depth < limit →
    t.Held (n.kind.depth + 1) levels a

theorem held_attach (shaped : t.Shaped) {kind : SectionKind} {below : List Level}
    (covered : t.Covered kind.depth below) {p : Nat} (found : t.parentFor? kind = some p)
    (header : Span) (settings : List Setting) {a : Nat} {n : SectionNode}
    (member : a ∈ t.ancestors p) (node : t.node? a = some n) :
    (t.attach header kind settings (some p)).Held (n.kind.depth + 1) below a := by
  have grows := t.grows_attach header kind settings (some p)
  have old := lt_size_of_node? node
  rcases parentFor?_placed shaped found
    with ⟨rfl, column, last⟩ | ⟨id, m, front, above, node', lower⟩
  · obtain ⟨m, node', column⟩ := Option.map_eq_some_iff.mp column
    rw [last, Option.bind_some] at node'
    -- the column is not on the path any more, but what is around it still is
    rcases (mem_ancestors_iff shaped).mp member with rfl | ⟨q, link, above⟩
    · exact .inl (nestsSeries_attach node' column header settings)
    · have linked : m.parent = some q := by simpa [parent?, node'] using link
      obtain ⟨-, m', parent, lies⟩ := shaped.parent node' linked
      have outside : m'.kind.depth < 3 := by
        rcases lies with lower | ⟨series, -⟩
        · rw [column] at lower
          exact lower
        · rw [column] at series
          cases series
      have depth := depth_le_of_mem_ancestors shaped above parent node
      exact (covered p a n (.inl last) member node (Nat.lt_of_le_of_lt depth outside)).grows grows
        old
  · have depth := depth_le_of_mem_ancestors shaped member node' node
    exact (covered id a n front (ancestors_trans shaped above member) node
      (Nat.lt_of_le_of_lt depth lower)).grows grows old

theorem mem_ancestors_attach (shaped : t.Shaped) {header : Span} {kind : SectionKind}
    {settings : List Setting} {parent : Option Nat}
    (shaped' : (t.attach header kind settings parent).Shaped) {a : Nat}
    (member : a ∈ (t.attach header kind settings parent).ancestors t.size) :
    a = t.size ∨ ∃ p, parent = some p ∧ p < t.size ∧ a ∈ t.ancestors p := by
  rcases (mem_ancestors_iff shaped').mp member with same | ⟨p, link, member⟩
  · exact .inl same
  · have lower := parent?_lt shaped' link
    rw [parent?_attach_new] at link
    rw [(t.grows_attach header kind settings parent).ancestors_eq shaped shaped' lower] at member
    exact .inr ⟨p, link, lower, member⟩

structure Entered (header : Span) (kind : SectionKind) (settings : List Setting) (l : Level)
    (below : List Level) : Prop where
  origin : l.origin = some (header, kind)
  height : kind.depth < 4 → below.length = kind.depth
  declared : ∀ s ∈ settings, l.declares s.descriptor.name = true

theorem Entered.headers {header : Span} {kind : SectionKind} {settings : List Setting} {l : Level}
    {below : List Level} (entered : Entered header kind settings l below)
    (earlier : ∀ l ∈ below, ∀ origin ∈ l.origin, origin.1.line < header.line) :
    ∀ l' ∈ l :: below, ∀ origin ∈ l'.origin, origin.1.line < header.line + 1 := by
  rw [List.forall_mem_cons]
  constructor
  · intro origin opened
    rw [entered.origin, Option.mem_some] at opened
    subst opened
    exact Nat.lt_succ_self _
  · exact fun l' member origin opened => Nat.lt_succ_of_lt (earlier l' member origin opened)

section attach

variable {header : Span} {kind : SectionKind} {settings : List Setting} {parent : Option Nat}
  {l : Level} {below : List Level}

theorem covered_attach (shaped : t.Shaped) (trailed : t.Trailed)
    (placed : ∀ p ∈ parent, t.parentFor? kind = some p)
    (shaped' : (t.attach header kind settings parent).Shaped)
    (covered : t.Covered kind.depth below) (entered : Entered header kind settings l below) :
    (t.attach header kind settings parent).Covered 4 (l :: below) := by
  have grows := t.grows_attach header kind settings parent
  intro id a n front member node bound
  have around {p : Nat} (link : parent = some p) (above : a ∈ t.ancestors p) (lower : p < t.size) :
      (t.attach header kind settings parent).Held (n.kind.depth + 1) (l :: below) a := by
    obtain ⟨m, more, old, rfl⟩ :=
      grows.node?_of_lt (lt_size_of_mem_ancestors shaped lower above) node
    subst link
    exact (held_attach shaped covered (placed p rfl) header settings above old).cons l
  rcases front_attach shaped trailed placed front with rfl | link | ⟨depth, lower, shallow, entry⟩
  · rcases mem_ancestors_attach shaped shaped' member with rfl | ⟨p, link, lower, member⟩
    · rw [node?_attach_new] at node
      obtain rfl := Option.some.inj node
      -- the level of the new section is the innermost, at the depth of the section
      refine .inr fun name declares => ⟨below.length, ?_, l, OpenPath.levelAt?_cons_length l below,
        ?_⟩
      · exact Nat.lt_succ_of_le (Nat.le_of_eq (entered.height bound))
      · obtain ⟨s, member, rfl⟩ := (declaresAt_iff (t.node?_attach_new ..) name).mp declares
        exact entered.declared s member
    · exact around link member lower
  · obtain ⟨m, known, -⟩ := parentFor?_liesUnder shaped (placed id link)
    have lower := lt_size_of_node? known
    rw [grows.ancestors_eq shaped shaped' lower] at member
    exact around link member lower
  · obtain ⟨m, known, depth_eq⟩ := shaped.trail _ entry
    have old := lt_size_of_node? known
    rw [grows.ancestors_eq shaped shaped' old] at member
    have old' := lt_size_of_mem_ancestors shaped old member
    obtain ⟨n', more, node', rfl⟩ := grows.node?_of_lt old' node
    have outside := depth_le_of_mem_ancestors shaped member known node'
    rw [depth_eq] at outside
    have held := covered id a n' (.inr ⟨depth, shallow, entry⟩) member node'
      (Nat.lt_of_le_of_lt outside lower)
    exact (held.grows grows old').cons l

end attach

/-! ## Levels and their sections -/

/-- What the tree says about the section of a level, if it has it: which section it is, and that its
settings and those of the sections around it are at the level or below. -/
def LevelMatches (t : SectionTree) (l : Level) (below : List Level) : Prop :=
  ∀ header kind, l.origin = some (header, kind) →
    ∀ id n, t.node? id = some n → n.header.line = header.line →
      n.header = header ∧ n.kind = kind ∧
        ∀ a ∈ t.ancestors id, (a ≠ id ∧ t.nestsSeries a = true) ∨
          ∀ name, t.declaresAt name a = true → (l :: below).any (·.declares name) = true

def LevelsMatch (t : SectionTree) : List Level → Prop
  | [] => True
  | l :: below => t.LevelMatches l below ∧ t.LevelsMatch below

theorem LevelMatches.grows {l : Level} {below : List Level} (matched : t.LevelMatches l below)
    (grows : t.Grows t') (shaped : t.Shaped) (shaped' : t'.Shaped)
    (apart : ∀ origin ∈ l.origin, ∀ id n, t'.node? id = some n → n.header.line = origin.1.line →
      id < t.size) : t'.LevelMatches l below := by
  intro header kind origin id n node line
  have old := apart _ origin id n node line
  obtain ⟨m, more, node', rfl⟩ := grows.node?_of_lt old node
  obtain ⟨sameHeader, sameKind, around⟩ := matched header kind origin id m node' line
  refine ⟨sameHeader, sameKind, fun a member => ?_⟩
  rw [grows.ancestors_eq shaped shaped' old] at member
  refine (around a member).imp (And.imp_right grows.nestsSeries) fun held name declares => ?_
  rw [grows.declaresAt_eq (lt_size_of_mem_ancestors shaped old member)] at declares
  exact held name declares

theorem LevelsMatch.grows {levels : List Level} (matched : t.LevelsMatch levels)
    (grows : t.Grows t') (shaped : t.Shaped) (shaped' : t'.Shaped)
    (apart : ∀ l ∈ levels, ∀ origin ∈ l.origin, ∀ id n, t'.node? id = some n →
      n.header.line = origin.1.line → id < t.size) : t'.LevelsMatch levels := by
  induction levels with
  | nil => trivial
  | cons l below ih =>
      obtain ⟨first, others⟩ := List.forall_mem_cons.mp apart
      exact ⟨matched.1.grows grows shaped shaped' first, ih matched.2 others⟩

theorem LevelsMatch.drop {levels : List Level} (matched : t.LevelsMatch levels) (number : Nat) :
    t.LevelsMatch (levels.drop number) := by
  induction number generalizing levels with
  | zero => exact matched
  | succ number ih =>
      cases levels with
      | nil => exact matched
      | cons l below => exact ih matched.2

theorem LevelsMatch.fill {levels : List Level} (matched : t.LevelsMatch levels) (number : Nat) :
    t.LevelsMatch (List.replicate number ({} : Level) ++ levels) := by
  induction number with
  | zero => exact matched
  | succ number ih =>
      refine ⟨fun header kind origin => ?_, ih⟩
      cases origin

theorem any_declares_map_sees (levels : List Level) (kind : SectionKind) (name : String) :
    (levels.map (·.sees kind)).any (·.declares name) = levels.any (·.declares name) := by
  rw [List.any_map]
  exact congrArg levels.any (funext fun l => l.declares_sees kind name)

theorem LevelsMatch.map_sees {levels : List Level} (matched : t.LevelsMatch levels)
    (kind : SectionKind) : t.LevelsMatch (levels.map (·.sees kind)) := by
  induction levels with
  | nil => trivial
  | cons l below ih =>
      refine ⟨?_, ih matched.2⟩
      intro header kind' origin id n node line
      rw [OpenPath.origin_sees] at origin
      obtain ⟨sameHeader, sameKind, around⟩ := matched.1 header kind' origin id n node line
      refine ⟨sameHeader, sameKind,
        fun a member => (around a member).imp_right fun held name declares => ?_⟩
      exact (any_declares_map_sees (l :: below) kind name).trans (held name declares)

theorem levelMatches_attach {header : Span} {kind : SectionKind} {settings : List Setting}
    {parent : Option Nat} {l : Level} {below : List Level} (shaped : t.Shaped)
    (placed : ∀ p ∈ parent, t.parentFor? kind = some p)
    (shaped' : (t.attach header kind settings parent).Shaped)
    (covered : t.Covered kind.depth below) (entered : Entered header kind settings l below)
    (earlier : ∀ id n, t.node? id = some n → n.header.line < header.line) :
    (t.attach header kind settings parent).LevelMatches l below := by
  intro header' kind' origin id n node line
  rw [entered.origin] at origin
  cases origin
  rcases node?_attach_cases node with ⟨rfl, rfl⟩ | ⟨m, old, rfl⟩
  · refine ⟨rfl, rfl, fun a member => ?_⟩
    rcases mem_ancestors_attach shaped shaped' member with rfl | ⟨p, rfl, lower, member⟩
    · refine .inr fun name declares => ?_
      obtain ⟨s, member, rfl⟩ := (declaresAt_iff node name).mp declares
      rw [List.any_cons, entered.declared s member]
      rfl
    · have old := lt_size_of_mem_ancestors shaped lower member
      obtain ⟨m, known⟩ := exists_node? old
      have held := held_attach shaped covered (placed p rfl) header settings member known
      refine held.any.imp (fun nests => ⟨Nat.ne_of_lt old, nests⟩) fun held name declares => ?_
      rw [List.any_cons, held name declares, Bool.or_true]
  · exact absurd line (Nat.ne_of_lt (earlier id m old))

/-! ## Agreement -/

/-- The path and the tree agree on what is around the current line. All sections are from lines
before a number. -/
structure Agrees (no limit : Nat) (t : SectionTree) (levels : List Level) : Prop where
  shaped : t.Shaped
  trailed : t.Trailed
  covered : t.Covered limit levels
  matched : t.LevelsMatch levels
  nodes : ∀ id n, t.node? id = some n → n.header.line < no
  headers : ∀ l ∈ levels, ∀ origin ∈ l.origin, origin.1.line < no

theorem agrees_empty : Agrees 0 4 {} [] where
  shaped := shaped_empty
  trailed := trailed_empty
  covered id a n _ _ node := by simp [node?] at node
  matched := trivial
  nodes id n node := by simp [node?] at node
  headers := by simp

theorem Agrees.mono {no no' limit : Nat} {levels : List Level} (agrees : Agrees no limit t levels)
    (later : no ≤ no') : Agrees no' limit t levels where
  shaped := agrees.shaped
  trailed := agrees.trailed
  covered := agrees.covered
  matched := agrees.matched
  nodes id n node := Nat.lt_of_lt_of_le (agrees.nodes id n node) later
  headers l member origin opened :=
    Nat.lt_of_lt_of_le (agrees.headers l member origin opened) later

theorem agrees_room {no : Nat} {p : OpenPath} (agrees : Agrees no 4 t p.levels)
    (kind : SectionKind) : Agrees no kind.depth t ((p.room kind).map (·.sees kind)) where
  shaped := agrees.shaped
  trailed := agrees.trailed
  covered id a n front member node outside :=
    (agrees.covered id a n front member node (Nat.lt_of_lt_of_le outside kind.depth_le)).room
      outside
  matched := ((agrees.matched.drop _).fill _).map_sees kind
  nodes := agrees.nodes
  headers := by
    intro seen member origin opened
    obtain ⟨l, within, rfl⟩ := List.mem_map.mp member
    rw [OpenPath.origin_sees] at opened
    rcases List.mem_append.mp within with filled | left
    · rw [List.eq_of_mem_replicate filled] at opened
      cases opened
    · exact agrees.headers l (List.mem_of_mem_drop left) origin opened

theorem agrees_attach {header : Span} {kind : SectionKind} {settings : List Setting}
    {parent : Option Nat} {l : Level} {below : List Level}
    (agrees : Agrees header.line kind.depth t below)
    (entered : Entered header kind settings l below)
    (placed : ∀ p ∈ parent, t.parentFor? kind = some p) (root : parent = none ↔ kind.depth = 0) :
    Agrees (header.line + 1) 4 (t.attach header kind settings parent) (l :: below) := by
  have shaped' : (t.attach header kind settings parent).Shaped :=
    shaped_attach agrees.shaped header settings
      (fun p link => parentFor?_liesUnder agrees.shaped (placed p link))
      fun free => SectionKind.depth_eq_zero_iff.mp (root.mp free)
  refine ⟨shaped', trailed_attach agrees.trailed header settings root, ?_, ⟨?_, ?_⟩, ?_, ?_⟩
  · exact covered_attach agrees.shaped agrees.trailed placed shaped' agrees.covered entered
  · exact levelMatches_attach agrees.shaped placed shaped' agrees.covered entered agrees.nodes
  · refine agrees.matched.grows
      (t.grows_attach header kind settings parent) agrees.shaped shaped' ?_
    intro l' member origin opened id n node line
    have earlier := agrees.headers l' member origin opened
    rcases node?_attach_cases node with ⟨rfl, rfl⟩ | ⟨m, old, rfl⟩
    · exact absurd line (Nat.ne_of_gt earlier)
    · exact lt_size_of_node? old
  · intro id n node
    rcases node?_attach_cases node with ⟨rfl, rfl⟩ | ⟨m, old, rfl⟩
    · exact Nat.lt_succ_self _
    · exact Nat.lt_succ_of_lt (agrees.nodes id m old)
  · exact entered.headers agrees.headers

theorem agrees_left_out {header : Span} {kind : SectionKind} {settings : List Setting} {l : Level}
    {below : List Level} (agrees : Agrees header.line kind.depth t below)
    (entered : Entered header kind settings l below) (unplaced : t.parentFor? kind = none)
    (inner : kind.depth ≠ 0) : Agrees (header.line + 1) 4 t (l :: below) := by
  refine ⟨agrees.shaped, agrees.trailed, ?_, ⟨?_, agrees.matched⟩, ?_, ?_⟩
  · intro id a n front member node bound
    by_cases shallow : kind.depth < 4
    · -- without a root there are no sections at all
      have empty := roots_eq_nil agrees.trailed (Nat.pos_of_ne_zero inner) shallow unplaced
      rw [node?_eq_none_of_roots agrees.shaped empty] at node
      cases node
    · exact (agrees.covered id a n front member node (by omega)).cons l
  · -- the level has a header, but no section of the tree is on its line
    intro header' kind' origin id n node line
    rw [entered.origin] at origin
    cases origin
    exact absurd line (Nat.ne_of_lt (agrees.nodes id n node))
  · exact fun id n node => Nat.lt_succ_of_lt (agrees.nodes id n node)
  · exact entered.headers agrees.headers

theorem agrees_add {header : Span} {kind : SectionKind} {settings : List Setting} {l : Level}
    {below : List Level} (agrees : Agrees header.line kind.depth t below)
    (entered : Entered header kind settings l below) :
    Agrees (header.line + 1) 4 (t.add header kind settings).1 (l :: below) := by
  rcases t.add_cases header kind settings with ⟨rfl, same⟩ | ⟨p, found, inner, same⟩ |
    ⟨unplaced, inner, same⟩
  · exact same ▸ agrees_attach agrees entered (by simp) (by decide)
  · have placed : ∀ q ∈ some p, t.parentFor? kind = some q := by
      rintro q ⟨⟩
      exact found
    exact same ▸ agrees_attach agrees entered placed (by simpa using inner)
  · rw [same]
    exact agrees_left_out agrees entered unplaced inner

/-! ## Groups that are not met -/

/-- Whether a setting is declared in a section or in one around it, columns with a series apart. -/
def declaredBeside (t : SectionTree) (id : Nat) (name : String) : Bool :=
  (t.ancestors id).any fun a => (a == id || !t.nestsSeries a) && t.declaresAt name a

theorem declaredBeside_iff {id : Nat} {name : String} : t.declaredBeside id name = true ↔
    ∃ a ∈ t.ancestors id, (a = id ∨ ¬ t.nestsSeries a = true) ∧ t.declaresAt name a = true := by
  simp [declaredBeside]

theorem declaredBeside_eq (shaped : t.Shaped) {id : Nat}
    (direct : ∀ a ∈ t.ancestors id, a ≠ id → t.nestsSeries a = false) :
    t.declaredBeside id = fun name => (t.find? id name).isSome := by
  funext name
  rw [Bool.eq_iff_iff, declaredBeside_iff, find?_isSome_iff shaped]
  refine exists_congr fun a => and_congr_right fun member => and_iff_right ?_
  by_cases same : a = id
  · exact .inl same
  · exact .inr (by simp [direct a member same])

/-- A report at the header of a section names a group of settings that is not met in the tree. -/
def Explained (c : Catalog) (t : SectionTree) (d : Diagnostic) : Prop :=
  ∀ id n, t.node? id = some n → d.range = n.header.range →
    ∃ r group, c.requirement? n.kind.name = some r ∧ group ∈ r.unmet (t.declaredBeside id) ∧
      d = .ofProblem (.missingSettings group) n.header

theorem Explained.grows {c : Catalog} {d : Diagnostic} (explained : t.Explained c d)
    (grows : t.Grows t') (shaped : t.Shaped) (shaped' : t'.Shaped)
    (apart : ∀ id n, t'.node? id = some n → n.header.line = d.range.start.line → id < t.size) :
    t'.Explained c d := by
  intro id n node range
  have old := apart id n node (by rw [range]; rfl)
  obtain ⟨m, more, node', rfl⟩ := grows.node?_of_lt old node
  obtain ⟨r, group, required, unmet, same⟩ := explained id m node' range
  refine ⟨r, group, required, r.unmet_subset (fun name beside => ?_) unmet, same⟩
  obtain ⟨a, member, own, declares⟩ := declaredBeside_iff.mp beside
  rw [grows.ancestors_eq shaped shaped' old] at member
  rw [grows.declaresAt_eq (lt_size_of_mem_ancestors shaped old member)] at declares
  exact declaredBeside_iff.mpr ⟨a, member, own.imp_right (mt grows.nestsSeries), declares⟩

theorem explained_missing (c : Catalog) {l : Level} {below : List Level}
    (matched : t.LevelMatches l below) {d : Diagnostic} (missing : d ∈ l.missing c below)
    (code : d.code = .missingSetting) : t.Explained c d := by
  intro id n node range
  unfold Level.missing at missing
  cases origin : l.origin with
  | none => simp [origin] at missing
  | some opened =>
      obtain ⟨header, kind⟩ := opened
      simp only [origin, List.mem_append, List.mem_map] at missing
      rcases missing with ⟨group, unmet, rfl⟩ | missing
      · have line : n.header.line = header.line := congrArg (·.start.line) range.symm
        obtain ⟨rfl, rfl, around⟩ := matched header kind origin id n node line
        cases required : c.requirement? n.kind.name with
        | none => simp [required] at unmet
        | some r =>
            rw [required] at unmet
            refine ⟨r, group, rfl, r.unmet_subset (fun name beside => ?_) unmet, rfl⟩
            obtain ⟨a, member, own, declares⟩ := declaredBeside_iff.mp beside
            rcases around a member with ⟨other, nests⟩ | held
            · exact absurd nests (own.resolve_left other)
            · exact held name declares
      · split at missing
        · cases missing
        · rw [List.mem_singleton] at missing
          subst missing
          cases code

theorem LevelsMatch.closed {levels : List Level} (matched : t.LevelsMatch levels) {number : Nat} :
    ∀ x ∈ OpenPath.closed number levels, t.LevelMatches x.1 x.2 := by
  induction levels with
  | nil => simp [OpenPath.closed]
  | cons l below ih =>
      rw [OpenPath.closed]
      split
      · exact List.forall_mem_cons.mpr ⟨matched.1, ih matched.2⟩
      · simp

end SectionTree
end ChartLint
