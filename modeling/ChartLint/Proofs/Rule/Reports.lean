import ChartLint.Proofs.Section.Reports

/-!
# What the rules report

A rule reports at a header or at the name of a setting of the tree, and the tree only takes notes of
dates, so that its headers and names stay.
-/

namespace ChartLint

def SectionNode.Keeps (places : Span → Prop) (n : SectionNode) : Prop :=
  places n.header ∧ ∀ s ∈ n.settings, places s.name

def SectionTree.Keeps (places : Span → Prop) (t : SectionTree) : Prop :=
  ∀ n ∈ t.nodes, n.Keeps places

variable {places : Span → Prop}

namespace SectionTree

variable {t : SectionTree}

theorem keeps_node? (kept : t.Keeps places) {id : Nat} {n : SectionNode}
    (found : t.node? id = some n) :
    n.Keeps places :=
  kept n (Array.mem_of_getElem? found)

theorem keeps_setting? (kept : t.Keeps places) {at_ : Declaration} {s : Setting}
    (found : t.setting? at_ = some s) : places s.name := by
  obtain ⟨n, node, member⟩ := Option.bind_eq_some_iff.mp found
  exact (keeps_node? kept node).2 s (List.mem_of_getElem? member)

theorem keeps_find? (kept : t.Keeps places) {id : Nat} {name : String} {s : Setting}
    (found : t.find? id name = some s) : places s.name := by
  obtain ⟨at_, -, setting⟩ := Option.bind_eq_some_iff.mp found
  exact keeps_setting? kept setting

theorem keeps_modify (kept : t.Keeps places) (id : Nat) (change : SectionNode → SectionNode)
    (keeps : ∀ n : SectionNode, n.Keeps places → (change n).Keeps places) :
    Keeps places { t with nodes := t.nodes.modify id change } := by
  intro n member
  obtain ⟨i, bound, rfl⟩ := Array.mem_iff_getElem.mp member
  rw [Array.getElem_modify]
  split
  · exact keeps _ (kept _ (Array.getElem_mem _))
  · exact kept _ (Array.getElem_mem _)

theorem keeps_attach (kept : t.Keeps places) {header : Span} {settings : List Setting}
    (place : places header) (names : ∀ s ∈ settings, places s.name) (kind : SectionKind)
    (parent : Option Nat) : (t.attach header kind settings parent).Keeps places := by
  intro n member
  simp only [attach, Array.mem_push] at member
  rcases member with member | rfl
  · cases parent with
    | none => exact kept n member
    | some p =>
        -- only the list of children changes
        exact keeps_modify kept p (fun n => { n with children := n.children ++ [t.size] })
          (fun _ keeps => keeps) n member
  · exact ⟨place, names⟩

theorem keeps_add (kept : t.Keeps places) {header : Span} {settings : List Setting}
    (place : places header) (names : ∀ s ∈ settings, places s.name) (kind : SectionKind) :
    (t.add header kind settings).1.Keeps places := by
  unfold add
  split
  · exact keeps_attach kept place names kind none
  · split
    · exact kept
    · exact keeps_attach kept place names kind _

theorem keeps_dateValue (kept : t.Keeps places) (dates : DateContext) (at_ : Declaration) :
    (t.dateValue dates at_).1.Keeps places := by
  unfold dateValue
  cases found : t.setting? at_ with
  | none => exact kept
  | some s =>
      refine keeps_modify kept at_.node _ ?_
      intro n keeps
      refine ⟨keeps.1, ?_⟩
      intro s' member
      rcases List.mem_or_eq_of_mem_set member with member | rfl
      · exact keeps.2 s' member
      · rw [Setting.name_dateValue]
        exact keeps_setting? kept found

end SectionTree

namespace Layout

theorem mem_of_mem_rowsOf {α : Type} (n : Nat) (as : List α) {row : List α} {a : α}
    (member : row ∈ rowsOf n as) (within : a ∈ row) : a ∈ as := by
  induction as using rowsOf.induct n with
  | case1 => simp [rowsOf] at member
  | case2 b bs ih =>
      rw [rowsOf] at member
      rcases List.mem_cons.mp member with rfl | member
      · rcases List.mem_cons.mp within with rfl | within
        · simp
        · exact List.mem_cons_of_mem b (List.mem_of_mem_take within)
      · exact List.mem_cons_of_mem b (List.mem_of_mem_drop (ih member))

theorem mem_of_mem_rows (g : Grid) (boxes : List Box) {row : List Box} {b : Box}
    (member : row ∈ g.rows boxes) (within : b ∈ row) : b ∈ boxes := by
  unfold Grid.rows at member
  split at member
  · exact mem_of_mem_rowsOf _ boxes member within
  · split at member
    · simp at member
    · rw [List.mem_singleton] at member
      exact member ▸ within

theorem mem_of_firstOverflow? {limit used needed : Float} {row : List Box} {b : Box}
    (found : firstOverflow? limit used row = some (b, needed)) : b ∈ row := by
  induction row generalizing used with
  | nil => simp [firstOverflow?] at found
  | cons c row ih =>
      simp only [firstOverflow?] at found
      split at found
      · cases found
        simp
      · exact List.mem_cons_of_mem c (ih found)

theorem checkRow_reports (g : Grid) (row : List Box) (headers : ∀ b ∈ row, places b.header) :
    ∀ d ∈ g.checkRow row, Report Code.ofReading places d := by
  unfold Grid.checkRow
  cases g.width with
  | none => simp
  | some limit =>
      dsimp only
      cases found : firstOverflow? limit 0 row with
      | none => simp
      | some entry =>
          obtain ⟨b, needed⟩ := entry
          exact reports_single rfl (headers b (mem_of_firstOverflow? found))

theorem checkRows_reports (g : Grid) (used : Float) (rows : List (List Box))
    (headers : ∀ row ∈ rows, ∀ b ∈ row, places b.header) :
    ∀ d ∈ g.checkRows used rows, Report Code.ofReading places d := by
  induction rows generalizing used with
  | nil => simp [Grid.checkRows]
  | cons row rows ih =>
      have later := fun used => ih used fun row' member => headers row' (by simp [member])
      intro d member
      rw [Grid.checkRows] at member
      rcases List.mem_append.mp member with member | member
      · exact checkRow_reports g row (headers row (by simp)) d member
      · split at member
        · rename_i limit b _ last
          split at member
          · exact reports_single rfl (headers row (by simp) b (List.mem_of_getLast? last)) d member
          · exact later _ d member
        · exact later _ d member

theorem check_reports {t : SectionTree} (kept : t.Keeps places) (id : Nat) :
    ∀ d ∈ check t id, Report Code.ofReading places d := by
  unfold check
  dsimp only
  split
  · simp
  · apply checkRows_reports
    intro row member b within
    have boxed := mem_of_mem_rows _ _ member within
    simp only [boxesOf, List.mem_map, List.mem_filter, List.mem_filterMap] at boxed
    obtain ⟨n, ⟨⟨child, -, found⟩, -⟩, rfl⟩ := boxed
    exact (SectionTree.keeps_node? kept found).1

end Layout

namespace Rule

variable {t : SectionTree} (kept : t.Keeps places) (ctx : RuleContext) (id : Nat)
include kept

theorem checkCompanion_reports (dependent : String) (conditions : List Condition)
    (required : List String) :
    ∀ d ∈ checkCompanion ctx t id dependent conditions required,
      Report Code.ofReading places d := by
  unfold checkCompanion
  cases found : t.find? id dependent with
  | none => simp
  | some s =>
      dsimp only
      split
      · exact reports_single rfl (SectionTree.keeps_find? kept found)
      · simp

theorem checkEffect_reports (name : String) (conditions : List Condition) :
    ∀ d ∈ checkEffect ctx t id name conditions, Report Code.ofReading places d := by
  unfold checkEffect
  cases found : (t.node? id).bind fun n => n.local? name with
  | none => simp
  | some s =>
      dsimp only
      split
      · simp
      · obtain ⟨n, node, declared⟩ := Option.bind_eq_some_iff.mp found
        have member : s ∈ n.settings := List.mem_of_find?_eq_some declared
        exact reports_single rfl ((SectionTree.keeps_node? kept node).2 s member)

theorem checkWidgetEffect_reports :
    ∀ d ∈ checkWidgetEffect t id, Report Code.ofReading places d := by
  intro d member
  unfold checkWidgetEffect at member
  split at member
  · rename_i n _ node _
    split at member
    · simp at member
    · obtain ⟨s, within, rfl⟩ := List.mem_map.mp member
      have declared : s ∈ n.settings := (List.mem_filter.mp within).1
      exact report_ofProblem rfl ((SectionTree.keeps_node? kept node).2 s declared)
  · simp at member

theorem checkSectionEffect_reports :
    ∀ d ∈ checkSectionEffect t id, Report Code.ofReading places d := by
  intro d member
  unfold checkSectionEffect at member
  cases node : t.node? id with
  | none => simp [node] at member
  | some n =>
      simp only [node, List.mem_filterMap] at member
      obtain ⟨s, declared, found⟩ := member
      split at found
      · cases found
        exact report_ofProblem rfl ((SectionTree.keeps_node? kept node).2 s declared)
      · cases found

theorem checkColors_reports : ∀ d ∈ checkColors t id, Report Code.ofReading places d := by
  unfold checkColors
  split
  · split
    · rename_i colors _ found _
      split
      · split
        · simp
        · exact reports_single rfl (SectionTree.keeps_find? kept found)
      · simp
    · simp
  · simp

theorem checkOrder_reports (earlier later : String) :
    (checkOrder ctx t id earlier later).1.Keeps places ∧
      ∀ d ∈ (checkOrder ctx t id earlier later).2, Report Code.ofReading places d := by
  unfold checkOrder
  split
  · split
    · rename_i first second _ _
      have afterFirst := SectionTree.keeps_dateValue kept ⟨ctx.now, ctx.zoneAt t id⟩ first
      have afterSecond := SectionTree.keeps_dateValue afterFirst ⟨ctx.now, ctx.zoneAt t id⟩ second
      dsimp only
      split
      · rename_i s _ _ found
        split
        · exact ⟨afterSecond, by simp⟩
        · exact ⟨afterSecond, reports_single rfl (SectionTree.keeps_setting? afterSecond found)⟩
      · exact ⟨afterSecond, by simp⟩
    · exact ⟨kept, by simp⟩
  · exact ⟨kept, by simp⟩

theorem runCheck_reports (check : RuleCheck) :
    (runCheck ctx t id check).1.Keeps places ∧
      ∀ d ∈ (runCheck ctx t id check).2, Report Code.ofReading places d := by
  cases check with
  | companion dependent conditions required =>
      exact ⟨kept, checkCompanion_reports kept ctx id dependent conditions required⟩
  | effect name conditions => exact ⟨kept, checkEffect_reports kept ctx id name conditions⟩
  | widgetEffect => exact ⟨kept, checkWidgetEffect_reports kept id⟩
  | sectionEffect => exact ⟨kept, checkSectionEffect_reports kept id⟩
  | colors => exact ⟨kept, checkColors_reports kept id⟩
  | order earlier later => exact checkOrder_reports kept ctx id earlier later
  | layout => exact ⟨kept, Layout.check_reports kept id⟩

theorem runAt_reports (rules : List Rule) :
    (runAt ctx id rules t).1.Keeps places ∧
      ∀ d ∈ (runAt ctx id rules t).2, Report Code.ofReading places d := by
  induction rules generalizing t with
  | nil => exact ⟨kept, by simp [runAt]⟩
  | cons rule rules ih =>
      have first : (if (t.node? id).any fun n => rule.kinds.contains n.kind
            then runCheck ctx t id rule.check else (t, [])).1.Keeps places ∧
          ∀ d ∈ (if (t.node? id).any fun n => rule.kinds.contains n.kind
            then runCheck ctx t id rule.check else (t, [])).2, Report Code.ofReading places d := by
        split
        · exact runCheck_reports kept ctx id rule.check
        · exact ⟨kept, by simp⟩
      have others := ih first.1
      exact ⟨others.1, List.forall_mem_append.mpr ⟨first.2, others.2⟩⟩

theorem runAll_reports (rules : List Rule) (ids : List Nat) :
    (runAll ctx rules ids t).1.Keeps places ∧
      ∀ d ∈ (runAll ctx rules ids t).2, Report Code.ofReading places d := by
  induction ids generalizing t with
  | nil => exact ⟨kept, by simp [runAll]⟩
  | cons id ids ih =>
      have first := runAt_reports kept ctx id rules
      have others := ih first.1
      exact ⟨others.1, List.forall_mem_append.mpr ⟨first.2, others.2⟩⟩

theorem run_reports (rules : List Rule) : ∀ d ∈ run ctx rules t, Report Code.ofReading places d :=
  (runAll_reports kept ctx rules (List.range t.size)).2

end Rule
end ChartLint
