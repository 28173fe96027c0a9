import ChartLint.Proofs.Rule.Dates
import ChartLint.Proofs.Section.Exchange

/-!
# Rules on sections in which two settings change places

The rules look settings up by their names, so on two trees that differ in the order of two settings
they report the same, up to the lines of the two: `Rule.run_exchange`. The reports that go through
all settings of a section come in another order, which is why they are compared line by line.

The order of dates is checked with dates that are remembered from other sections. Both runs read the
same dates in the same order, so that each is remembered in the same zone.
-/

namespace ChartLint

variable {n : Nat}

/-! ## What the rules look at -/

theorem SectionNode.Mirrors.local? {m m' : SectionNode} (mirrors : m.Mirrors n m') (name : String) :
    Option.Rel (Setting.Mirrors n) (m.local? name) (m'.local? name) := by
  have same := congrArg List.head? (mirrors.named name)
  rw [List.head?_map, List.head?_map, List.head?_filter, List.head?_filter] at same
  exact rel_of_map_eq same

theorem Setting.Mirrors.option_eq {s s' : Option Setting}
    (related : Option.Rel (Setting.Mirrors n) s s')
    {α : Type} {f : Option Setting → α} (same : ∀ s s', s.Mirrors n s' → f (some s') = f (some s)) :
    f s' = f s := by
  cases related with
  | some mirrors => exact same _ _ mirrors
  | none => rfl

namespace SectionTree.Mirrors

variable {t t' : SectionTree} (mirrors : t.Mirrors n t')

include mirrors

theorem isSome_find? (id : Nat) (name : String) :
    (t'.find? id name).isSome = (t.find? id name).isSome :=
  Setting.Mirrors.option_eq (mirrors.find id name) fun _ _ _ => rfl

theorem widgetType? (id : Nat) : t'.widgetType? id = t.widgetType? id := by
  have value (widget : Nat) : ((t'.find? widget "type").map fun s => s.value.text) =
      (t.find? widget "type").map fun s => s.value.text :=
    Setting.Mirrors.option_eq (f := fun s => s.map fun s => s.value.text)
      (mirrors.find widget "type")
      fun _ _ both => congrArg some both.value
  rw [SectionTree.widgetType?, SectionTree.widgetType?, widgetOf?_mirror mirrors.node, funext value]

theorem declaredBelow (id : Nat) (name : String) :
    t'.declaredBelow id name = t.declaredBelow id name := by
  rw [SectionTree.declaredBelow, SectionTree.declaredBelow, mirrors.size,
    declaredWithin_mirror mirrors.node]

theorem valueAt? (ctx : RuleContext) (id : Nat) (name : String) :
    ctx.valueAt? t' id name = ctx.valueAt? t id name := by
  have usual : (do
        let d ← ctx.catalog.find? name
        let node ← t'.node? id
        ((d.specialize? ⟨node.kind.name, t'.widgetType? id⟩).getD d).fallback) = (do
        let d ← ctx.catalog.find? name
        let node ← t.node? id
        ((d.specialize? ⟨node.kind.name, t.widgetType? id⟩).getD d).fallback) := by
    rw [mirrors.widgetType?]
    cases ctx.catalog.find? name with
    | none => rfl
    | some d =>
        exact node_eq (f := fun m => m.bind fun m =>
          ((d.specialize? ⟨m.kind.name, t.widgetType? id⟩).getD d).fallback) mirrors.node
          (fun _ _ both => by rw [Option.bind_some, Option.bind_some, both.kind]) id
  unfold RuleContext.valueAt?
  rw [usual]
  have related := mirrors.find id name
  generalize t.find? id name = s at related ⊢
  generalize t'.find? id name = s' at related ⊢
  cases related with
  | none => rfl
  | some both => exact congrArg some both.value

theorem zoneAt (ctx : RuleContext) (id : Nat) : ctx.zoneAt t' id = ctx.zoneAt t id := by
  unfold RuleContext.zoneAt
  have related := mirrors.find id "timezone"
  generalize t.find? id "timezone" = s at related ⊢
  generalize t'.find? id "timezone" = s' at related ⊢
  cases related with
  | none => rfl
  | some both => dsimp only; rw [both.value]

theorem meets (ctx : RuleContext) (id : Nat) : ctx.meets t' id = ctx.meets t id := by
  funext c
  rw [RuleContext.meets, RuleContext.meets, mirrors.valueAt?]

end SectionTree.Mirrors

/-! ## What a check reports -/

theorem Exchanged.byLine {as bs : List Face} (exchanged : Exchanged Face.Apart as bs)
    {g : Face → Option Diagnostic}
    (placed : ∀ f d, g f = some d → d.range.start.line = f.name.line) :
    ByLine (as.filterMap g) (bs.filterMap g) := by
  cases exchanged with
  | same => exact .refl _
  | @swap before a b after apart =>
      have here (f : Face) : ∀ d ∈ (g f).toList, d.range.start.line = f.name.line :=
        fun d member => placed f d (Option.mem_toList.mp member)
      simp only [List.filterMap_eq_flatMap_toList, List.flatMap_append, List.flatMap_cons]
      rw [← List.append_assoc (g a).toList, ← List.append_assoc (g b).toList]
      exact (ByLine.refl _).append ((ByLine.comm apart.2 (here a) (here b)).append (.refl _))

theorem SectionNode.Mirrors.byLine {m m' : SectionNode} (mirrors : m.Mirrors n m')
    (problem? : Traits → Option Problem) :
    ByLine ((m.settings.filterMap fun s =>
        (problem? s.descriptor.traits).map fun q => Diagnostic.ofProblem q s.name).map
          (Diagnostic.moved n))
      (m'.settings.filterMap fun s =>
        (problem? s.descriptor.traits).map fun q => Diagnostic.ofProblem q s.name) := by
  have agree := mirrors.settings.byLine
    (g := fun f => (problem? f.traits).map fun q => Diagnostic.ofProblem q f.name) (by
      intro f d found
      obtain ⟨q, -, rfl⟩ := Option.map_eq_some_iff.mp found
      rfl)
  rw [List.filterMap_map, List.filterMap_map] at agree
  rw [List.map_filterMap]
  simp only [Option.map_map]
  exact agree

theorem map_filter_eq {α β : Type} (p : α → Bool) (f : α → β) (as : List α) :
    (as.filter p).map f = as.filterMap fun a => if p a then some (f a) else none := by
  induction as with
  | nil => rfl
  | cons a as ih => cases holds : p a <;> simp [holds, ih]

namespace Rule

variable {t t' : SectionTree} (mirrors : t.Mirrors n t')

include mirrors

theorem checkCompanion_exchange (ctx : RuleContext) (id : Nat) (dependent : String)
    (conditions : List Condition) (required : List String) :
    checkCompanion ctx t' id dependent conditions required =
      (checkCompanion ctx t id dependent conditions required).map (Diagnostic.moved n) := by
  have companion (owner : Nat) :
      hasCompanion t' id owner required = hasCompanion t id owner required := by
    simp only [hasCompanion, mirrors.isSome_find?, mirrors.declaredBelow]
  unfold checkCompanion
  dsimp only
  rw [SectionTree.declaring?_mirror mirrors.node, mirrors.meets, companion]
  have related := mirrors.find id dependent
  generalize t.find? id dependent = s at related ⊢
  generalize t'.find? id dependent = s' at related ⊢
  cases related with
  | none => rfl
  | some both =>
      dsimp only
      split
      · rw [both.name]
        rfl
      · rfl

theorem checkEffect_exchange (ctx : RuleContext) (id : Nat) (name : String)
    (conditions : List Condition) :
    checkEffect ctx t' id name conditions =
      (checkEffect ctx t id name conditions).map (Diagnostic.moved n) := by
  unfold checkEffect
  rw [mirrors.meets]
  have related := mirrors.node id
  generalize t.node? id = m at related ⊢
  generalize t'.node? id = m' at related ⊢
  cases related with
  | none => rfl
  | @some m m' both =>
      rw [Option.bind_some, Option.bind_some]
      have related := both.local? name
      generalize m.local? name = s at related ⊢
      generalize m'.local? name = s' at related ⊢
      cases related with
      | none => rfl
      | some both =>
          dsimp only
          split
          · rfl
          · rw [both.name]
            rfl

theorem checkColors_exchange (id : Nat) :
    checkColors t' id = (checkColors t id).map (Diagnostic.moved n) := by
  have count {s s' : Setting} (both : s.Mirrors n s') : itemCount? s' = itemCount? s := by
    have by_texts (s : Setting) : itemCount? s =
        if (s.values.map Span.text).any isComputed then none
        else some ((s.values.map Span.text).foldl
          (fun n text => n + (Items.split text).length) 0) := by
      rw [itemCount?, List.any_map, List.foldl_map]
      rfl
    rw [by_texts, by_texts, both.texts]
  unfold checkColors
  rw [SectionTree.declaresAt_mirror mirrors.node, SectionTree.declaresAt_mirror mirrors.node]
  split
  · have colors := mirrors.find id "colors"
    have thresholds := mirrors.find id "thresholds"
    generalize t.find? id "colors" = s at colors ⊢
    generalize t'.find? id "colors" = s' at colors ⊢
    generalize t.find? id "thresholds" = r at thresholds ⊢
    generalize t'.find? id "thresholds" = r' at thresholds ⊢
    cases colors with
    | none => rfl
    | some first =>
        cases thresholds with
        | none => rfl
        | some second =>
            dsimp only
            rw [count first, count second, first.name]
            split
            · split <;> rfl
            · rfl
  · rfl

theorem checkWidgetEffect_exchange (id : Nat) :
    ByLine ((checkWidgetEffect t id).map (Diagnostic.moved n)) (checkWidgetEffect t' id) := by
  unfold checkWidgetEffect
  rw [mirrors.widgetType?]
  have related := mirrors.node id
  generalize t.node? id = m at related ⊢
  generalize t'.node? id = m' at related ⊢
  cases related with
  | none => exact .refl _
  | @some m m' both =>
      cases t.widgetType? id with
      | none => exact .refl _
      | some widget =>
          dsimp only
          split
          · exact .refl _
          · have agree := both.byLine fun d =>
              if !(d.widgets.isEmpty || d.widgets.any fun w => Text.sameIgnoringCase w widget) then
                some (.ineffectiveOnWidget d.name widget d.widgets)
              else none
            simp only [apply_ite (Option.map _), Option.map_some, Option.map_none] at agree
            rw [map_filter_eq, map_filter_eq]
            exact agree

theorem checkSectionEffect_exchange (id : Nat) :
    ByLine ((checkSectionEffect t id).map (Diagnostic.moved n)) (checkSectionEffect t' id) := by
  unfold checkSectionEffect
  have related := mirrors.node id
  generalize t.node? id = m at related ⊢
  generalize t'.node? id = m' at related ⊢
  cases related with
  | none => exact .refl _
  | @some m m' both =>
      have agree := both.byLine fun d =>
        let kinds := d.sections.filterMap SectionKind.ofName?
        if isOutside m.kind kinds then some (.ineffectiveInSection d.name m.kind kinds) else none
      simp only [apply_ite (Option.map _), Option.map_some, Option.map_none] at agree
      dsimp only
      rw [both.kind]
      exact agree

end Rule

/-! ## The grid -/

namespace Layout

def Box.moved (n : Nat) (b : Box) : Box :=
  { b with header := b.header.moved n }

theorem rowsOf_map {α β : Type} (f : α → β) (k : Nat) (as : List α) :
    rowsOf k (as.map f) = (rowsOf k as).map (List.map f) := by
  induction as using rowsOf.induct k with
  | case1 => simp [rowsOf]
  | case2 a as ih =>
      rw [List.map_cons, rowsOf, rowsOf, List.map_cons, List.map_cons, ← ih, List.map_drop,
        List.map_take]

theorem firstOverflow?_map (n : Nat) (limit used : Float) (row : List Box) :
    firstOverflow? limit used (row.map (Box.moved n)) =
      (firstOverflow? limit used row).map fun (b, needed) => (b.moved n, needed) := by
  induction row generalizing used with
  | nil => rfl
  | cons b row ih =>
      rw [List.map_cons, firstOverflow?, firstOverflow?, show (b.moved n).width = b.width from rfl]
      dsimp only
      by_cases exceeded : limit < used + b.width
      · rw [if_pos exceeded, if_pos exceeded]
        rfl
      · rw [if_neg exceeded, if_neg exceeded]
        exact ih _

theorem rowHeight_map (n : Nat) (row : List Box) :
    rowHeight (row.map (Box.moved n)) = rowHeight row := by
  rw [rowHeight, List.foldl_map]
  rfl

theorem checkRow_map (g : Grid) (row : List Box) :
    g.checkRow (row.map (Box.moved n)) = (g.checkRow row).map (Diagnostic.moved n) := by
  unfold Grid.checkRow
  cases g.width with
  | none => rfl
  | some limit =>
      dsimp only
      rw [firstOverflow?_map]
      cases firstOverflow? limit 0 row <;> rfl

theorem checkRows_map (g : Grid) (used : Float) (rows : List (List Box)) :
    g.checkRows used (rows.map (List.map (Box.moved n))) =
      (g.checkRows used rows).map (Diagnostic.moved n) := by
  induction rows generalizing used with
  | nil => rfl
  | cons row rows ih =>
      rw [List.map_cons, Grid.checkRows, Grid.checkRows, checkRow_map, rowHeight_map,
        List.map_append, List.getLast?_map]
      apply congrArg
      cases g.height with
      | none => exact ih _
      | some limit =>
          cases row.getLast? with
          | none => exact ih _
          | some b =>
              dsimp only [Option.map_some]
              split
              · rfl
              · exact ih _

theorem number?_eq {s s' : Setting} (both : s.Mirrors n s') : number? s' = number? s := by
  rw [number?, number?, both.value]

theorem bind_number?_eq {s s' : Option Setting} (related : Option.Rel (Setting.Mirrors n) s s') :
    s'.bind number? = s.bind number? :=
  Setting.Mirrors.option_eq (f := fun s => s.bind number?) related fun _ _ both => number?_eq both

theorem boxOf_eq {m m' : SectionNode} (both : m.Mirrors n m') : boxOf m' = (boxOf m).moved n := by
  rw [boxOf, boxOf, bind_number?_eq (both.local? "width-units"),
    bind_number?_eq (both.local? "height-units"), both.header]
  rfl

variable {t t' : SectionTree}

theorem boxesOf_eq (mirrors : t.Mirrors n t') (id : Nat) :
    boxesOf t' id = (boxesOf t id).map (Box.moved n) := by
  unfold boxesOf
  rw [SectionTree.children_mirror mirrors.node]
  induction t.children id with
  | nil => rfl
  | cons child children ih =>
      have related := mirrors.node child
      rw [List.filterMap_cons, List.filterMap_cons]
      generalize t.node? child = m at related ⊢
      generalize t'.node? child = m' at related ⊢
      cases related with
      | none => exact ih
      | some both =>
          dsimp only
          rw [List.filter_cons, List.filter_cons, both.kind]
          split
          · rw [List.map_cons, List.map_cons, List.map_cons, boxOf_eq both, ih]
          · exact ih

theorem check_exchange (mirrors : t.Mirrors n t') (id : Nat) :
    check t' id = (check t id).map (Diagnostic.moved n) := by
  have grid : gridOf t' id = gridOf t id := by
    rw [gridOf, gridOf, bind_number?_eq (mirrors.find id "width-units"),
      bind_number?_eq (mirrors.find id "height-units"),
      bind_number?_eq (mirrors.find id "widgets-per-row")]
  have rows (g : Grid) (boxes : List Box) :
      g.rows (boxes.map (Box.moved n)) = (g.rows boxes).map (List.map (Box.moved n)) := by
    unfold Grid.rows
    cases g.perRow with
    | some k => exact rowsOf_map _ k boxes
    | none => cases boxes <;> rfl
  unfold check
  dsimp only
  rw [grid, boxesOf_eq mirrors]
  split
  · rfl
  · rw [rows, checkRows_map]

end Layout

/-! ## The order of dates -/

namespace Rule

variable {t t' : SectionTree}

def ReadsTwins (t t' : SectionTree) (reads reads' : List (Declaration × Zone)) : Prop :=
  List.Forall₂ (fun r r' => t.Twin t' r.1 r'.1 ∧ r'.2 = r.2) reads reads'

theorem zonesOf_eq (twins : t.Twins n t') {reads reads' : List (Declaration × Zone)}
    (same : ReadsTwins t t' reads reads') {d d' : Declaration} (twin : t.Twin t' d d') :
    zonesOf d' reads' = zonesOf d reads := by
  unfold zonesOf
  induction same with
  | nil => rfl
  | @cons r r' _ _ first rest ih =>
      have same := twins.eq_iff first.1 twin
      rw [List.filterMap_cons, List.filterMap_cons, ih, first.2]
      by_cases here : r.1 = d
      · rw [if_pos here, if_pos (same.mp here)]
      · rw [if_neg here, if_neg (mt same.mpr here)]

theorem comparedAt?_twin (twins : t.Twins n t') (id : Nat) (earlier later : String) :
    Option.Rel (fun x y => t.Twin t' x.1 y.1 ∧ t.Twin t' x.2 y.2)
      (comparedAt? t id earlier later) (comparedAt? t' id earlier later) := by
  unfold comparedAt?
  rw [SectionTree.declaresAt_mirror twins.node_mirrors,
    SectionTree.declaresAt_mirror twins.node_mirrors]
  split
  · have first := twins.locate id earlier
    have second := twins.locate id later
    generalize t.locate? id earlier = d at first ⊢
    generalize t'.locate? id earlier = d' at first ⊢
    generalize t.locate? id later = e at second ⊢
    generalize t'.locate? id later = e' at second ⊢
    cases first with
    | none => exact .none
    | some first =>
        cases second with
        | none => exact .none
        | some second => exact .some ⟨first, second⟩
  · exact .none

theorem freshDate?_eq (twins : t.Twins n t') {d d' : Declaration} (twin : t.Twin t' d d')
    (dates : DateContext) : t'.freshDate? dates d' = t.freshDate? dates d := by
  have related := rel_of_map_eq (twins.setting twin)
  unfold SectionTree.freshDate?
  generalize t.setting? d = s at related ⊢
  generalize t'.setting? d' = s' at related ⊢
  cases related with
  | none => rfl
  | @some s s' note =>
      have face : s.Mirrors n s' := congrArg Prod.fst note
      have broken : s'.isBroken = s.isBroken := congrArg Prod.snd note
      rw [Option.bind_some, Option.bind_some, Setting.freshDate?, Setting.freshDate?, face.value,
        broken]

theorem checkReads_twins (twins : t.Twins n t') (ctx : RuleContext) (id : Nat) (c : RuleCheck) :
    ReadsTwins t t' (checkReads ctx t id c) (checkReads ctx t' id c) := by
  cases c with
  | order earlier later =>
      change ReadsTwins t t' (orderReads ctx t id earlier later)
        (orderReads ctx t' id earlier later)
      unfold orderReads
      have related := comparedAt?_twin twins id earlier later
      rw [twins.mirrors.zoneAt]
      generalize comparedAt? t id earlier later = x at related ⊢
      generalize comparedAt? t' id earlier later = y at related ⊢
      cases related with
      | none => exact .nil
      | some both => exact .cons ⟨both.1, rfl⟩ (.cons ⟨both.2, rfl⟩ .nil)
  | _ => exact .nil

theorem checkOrder_exchange (twins : t.Twins n t') (unread : t.Unread) (unread' : t'.Unread)
    (ctx : RuleContext) {reads reads' : List (Declaration × Zone)}
    (same : ReadsTwins t t' reads reads')
    (id : Nat) (earlier later : String) :
    (checkOrder ctx (t'.readAll ctx.now reads') id earlier later).2 =
      (checkOrder ctx (t.readAll ctx.now reads) id earlier later).2.map (Diagnostic.moved n) := by
  rw [checkOrder_readAll ctx unread, checkOrder_readAll ctx unread', orderReports, orderReports,
    twins.mirrors.zoneAt]
  have related := comparedAt?_twin twins id earlier later
  generalize comparedAt? t id earlier later = x at related ⊢
  generalize comparedAt? t' id earlier later = y at related ⊢
  cases related with
  | none => rfl
  | @some x y both =>
      have related := rel_of_map_eq (twins.setting both.2)
      dsimp only [Option.elim_some]
      rw [zonesOf_eq twins same both.1, zonesOf_eq twins same both.2, freshDate?_eq twins both.1,
        freshDate?_eq twins both.2]
      generalize t.setting? x.2 = s at related ⊢
      generalize t'.setting? y.2 = s' at related ⊢
      generalize t.freshDate? _ x.1 = start
      generalize t.freshDate? _ x.2 = stop
      cases start with
      | none => rfl
      | some start =>
          cases stop with
          | none => rfl
          | some stop =>
              cases related with
              | none => rfl
              | @some s s' note =>
                  have face : s.Mirrors n s' := congrArg Prod.fst note
                  dsimp only [orderReport]
                  split
                  · rfl
                  · rw [face.name]
                    rfl

/-! ## Runs -/

theorem runCheck_exchange (twins : t.Twins n t') (unread : t.Unread) (unread' : t'.Unread)
    (ctx : RuleContext) {reads reads' : List (Declaration × Zone)}
    (same : ReadsTwins t t' reads reads')
    (id : Nat) (c : RuleCheck) :
    ByLine ((runCheck ctx (t.readAll ctx.now reads) id c).2.map (Diagnostic.moved n))
      (runCheck ctx (t'.readAll ctx.now reads') id c).2 := by
  have mirrors : (t.readAll ctx.now reads).Mirrors n (t'.readAll ctx.now reads') :=
    twins.mirrors.undated (t.undated_readAll ctx.now reads) (t'.undated_readAll ctx.now reads')
  have equal {ds es : List Diagnostic} (same : es = ds.map (Diagnostic.moved n)) :
      ByLine (ds.map (Diagnostic.moved n)) es := by
    rw [same]
    exact .refl _
  cases c with
  | companion dependent conditions required =>
      exact equal (checkCompanion_exchange mirrors ctx id dependent conditions required)
  | effect name conditions => exact equal (checkEffect_exchange mirrors ctx id name conditions)
  | widgetEffect => exact checkWidgetEffect_exchange mirrors id
  | sectionEffect => exact checkSectionEffect_exchange mirrors id
  | colors => exact equal (checkColors_exchange mirrors id)
  | order earlier later =>
      exact equal (checkOrder_exchange twins unread unread' ctx same id earlier later)
  | layout => exact equal (Layout.check_exchange mirrors id)

theorem checkReads_readAll (ctx : RuleContext) (t : SectionTree) (reads : List (Declaration × Zone))
    (id : Nat) (c : RuleCheck) :
    checkReads ctx (t.readAll ctx.now reads) id c = checkReads ctx t id c := by
  cases c with
  | order earlier later =>
      exact SectionTree.readAll_congr (orderReads ctx · id earlier later)
        (orderReads_undated ctx · id earlier later) t ctx.now reads
  | _ => rfl

theorem applies_eq (twins : t.Twins n t') (rule : Rule) (id : Nat) :
    ((t'.node? id).any fun m => rule.kinds.contains m.kind) =
      (t.node? id).any fun m => rule.kinds.contains m.kind :=
  SectionTree.node_eq (f := fun m => m.any fun m => rule.kinds.contains m.kind) twins.node_mirrors
    (fun _ _ both => by rw [Option.any_some, Option.any_some, both.kind]) id

theorem applies_readAll (t : SectionTree) (now : WallClock) (reads : List (Declaration × Zone))
    (rule : Rule) (id : Nat) :
    (((t.readAll now reads).node? id).any fun m => rule.kinds.contains m.kind) =
      (t.node? id).any fun m => rule.kinds.contains m.kind := by
  refine SectionTree.readAll_congr
    (fun t => (t.node? id).any fun m => rule.kinds.contains m.kind) ?_ t now reads
  intro t
  rw [SectionTree.node?_undated, Option.any_map]
  rfl

theorem runAt_exchange (twins : t.Twins n t') (unread : t.Unread) (unread' : t'.Unread)
    (ctx : RuleContext) (id : Nat) (rules : List Rule) {reads reads' : List (Declaration × Zone)}
    (same : ReadsTwins t t' reads reads') :
    ByLine ((runAt ctx id rules (t.readAll ctx.now reads)).2.map (Diagnostic.moved n))
      (runAt ctx id rules (t'.readAll ctx.now reads')).2 := by
  induction rules generalizing reads reads' with
  | nil => exact .refl _
  | cons rule rules ih =>
      rw [runAt, runAt, applies_readAll, applies_readAll, applies_eq twins]
      dsimp only
      rw [List.map_append]
      split
      · refine (runCheck_exchange twins unread unread' ctx same id rule.check).append ?_
        rw [runCheck_tree, runCheck_tree, checkReads_readAll, checkReads_readAll,
          ← SectionTree.readAll_append, ← SectionTree.readAll_append]
        exact ih (List.rel_append same (checkReads_twins twins ctx id rule.check))
      · exact (ByLine.refl []).append (ih same)

theorem readsAt_twins (twins : t.Twins n t') (ctx : RuleContext) (id : Nat) (rules : List Rule) :
    ReadsTwins t t' (readsAt ctx t id rules) (readsAt ctx t' id rules) := by
  unfold readsAt
  induction rules with
  | nil => exact .nil
  | cons rule rules ih =>
      rw [List.flatMap_cons, List.flatMap_cons, applies_eq twins]
      refine List.rel_append ?_ ih
      split
      · exact checkReads_twins twins ctx id rule.check
      · exact .nil

theorem runAll_exchange (twins : t.Twins n t') (unread : t.Unread) (unread' : t'.Unread)
    (ctx : RuleContext) (rules : List Rule) (ids : List Nat)
    {reads reads' : List (Declaration × Zone)}
    (same : ReadsTwins t t' reads reads') :
    ByLine ((runAll ctx rules ids (t.readAll ctx.now reads)).2.map (Diagnostic.moved n))
      (runAll ctx rules ids (t'.readAll ctx.now reads')).2 := by
  induction ids generalizing reads reads' with
  | nil => exact .refl _
  | cons id ids ih =>
      have later (t : SectionTree) (reads : List (Declaration × Zone)) :
          readsAt ctx (t.readAll ctx.now reads) id rules = readsAt ctx t id rules :=
        SectionTree.readAll_congr (readsAt ctx · id rules)
          (readsAt_undated ctx id rules) t ctx.now reads
      rw [runAll, runAll]
      dsimp only
      rw [List.map_append]
      refine (runAt_exchange twins unread unread' ctx id rules same).append ?_
      rw [runAt_tree, runAt_tree, later, later, ← SectionTree.readAll_append,
        ← SectionTree.readAll_append]
      exact ih (List.rel_append same (readsAt_twins twins ctx id rules))

theorem run_exchange (twins : t.Twins n t') (unread : t.Unread) (unread' : t'.Unread)
    (ctx : RuleContext) (rules : List Rule) :
    ByLine ((run ctx rules t).map (Diagnostic.moved n)) (run ctx rules t') := by
  have none_ : ReadsTwins t t' [] [] := .nil
  rw [run, run, twins.size]
  exact runAll_exchange twins unread unread' ctx rules _ none_

end Rule
end ChartLint
