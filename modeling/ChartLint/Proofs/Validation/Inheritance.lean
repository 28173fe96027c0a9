import ChartLint.Proofs.Section.Inheritance
import ChartLint.Proofs.Validation.Places

/-!
# Settings that are missing in the path and in the tree

While the lines of a document are read, the open path reports the groups of settings that a section
lacks. Here each such report is held against the section tree: the group is not met by what holds in
the section there either, columns with a series apart.

Between a header and the next one the section is on the path already, but not yet in the tree.
`Pass.Linked` is the agreement of the two in both situations, and `Pass.Reported` is what is known
of a report until the end: it tells the truth about the tree so far, and no section to come is on
its line.

* `Pass.step_continues` and `Pass.run_continues`: one line, and all lines.
* `unmet_of_missingSetting`: the main statement.
-/

namespace ChartLint

/-! ## One line -/

namespace Pass

open SectionTree

variable {no : Nat} {p : Pass} {d : Diagnostic} (env : Environment)

/-- The path and the tree of a pass agree before a line. The section that is open, if there is one,
is the innermost level of the path and not yet in the tree. -/
inductive Linked (no : Nat) (p : Pass) : Prop where
  | settled (free : p.pending = none) (agrees : Agrees no 4 p.tree p.path.levels)
  | pending {s : PendingSection} {l : Level} {below : List Level} (current : p.pending = some s)
    (levels : p.path.levels = l :: below) (line : s.header.line < no)
    (agrees : Agrees s.header.line s.kind.depth p.tree below)
    (entered : Entered s.header s.kind (s.settings.map Prod.fst) l below)

structure Reported (c : Catalog) (no : Nat) (p : Pass) (d : Diagnostic) : Prop where
  earlier : d.range.start.line < no
  apart : ∀ s ∈ p.pending, s.header.line ≠ d.range.start.line
  explained : p.tree.Explained c d

structure Continues (c : Catalog) (no no' : Nat) (p p' : Pass) (found : List Diagnostic) :
    Prop where
  linked : Linked no' p'
  kept : ∀ d, Reported c no p d → Reported c no' p' d
  found : ∀ d ∈ found, d.code = .missingSetting → Reported c no' p' d

theorem linked_empty : Linked 0 {} :=
  .settled rfl agrees_empty

theorem linked_flush (linked : Linked no p) :
    p.flush.pending = none ∧ Agrees no 4 p.flush.tree p.flush.path.levels := by
  cases linked with
  | settled free agrees => simpa [flush, free] using agrees
  | pending current levels line agrees entered =>
      simp only [flush, current, levels, true_and]
      exact (agrees_add agrees entered).mono line

theorem reported_flush {c : Catalog} (linked : Linked no p) (reported : Reported c no p d) :
    Reported c no p.flush d := by
  cases linked with
  | settled free agrees => simpa [flush, free] using reported
  | @pending s l below current levels line agrees entered =>
      have other := reported.apart s current
      simp only [flush, current]
      refine ⟨reported.earlier, by simp, ?_⟩
      refine reported.explained.grows (p.tree.grows_add _ _ _) agrees.shaped
        (shaped_add agrees.shaped _ _ _) ?_
      -- a report at the section that goes into the tree now would have to come later
      intro id n node same
      exact lt_size_of_node?_add node fun new => other (new ▸ same)

theorem reported_closed {c : Catalog} {t : SectionTree} {levels : List Level}
    (agrees : Agrees no 4 t levels) {number : Nat}
    (member : d ∈ (OpenPath.closed number levels).flatMap fun x => x.1.missing c x.2)
    (code : d.code = .missingSetting) : d.range.start.line < no ∧ t.Explained c d := by
  obtain ⟨x, closed, missing⟩ := List.mem_flatMap.mp member
  have kept : OpenPath.Keeps (fun s => s.line < no) levels := agrees.headers
  have reports := (OpenPath.closeTo_reports c number levels kept).2
  rw [OpenPath.closeTo_eq] at reports
  obtain ⟨s, earlier, range⟩ := (reports d member).at_place.range
  exact ⟨range ▸ earlier, explained_missing c (agrees.matched.closed x closed) missing code⟩

def opened (env : Environment) (p : Pass) (name : Span) (kind : SectionKind) : Pass :=
  { p.flush with
    path := (p.flush.path.enter env.catalog name kind).1
    pending := some { header := name, kind }
    inUnknown := false }

theorem header_known {name : Span} {kind : SectionKind}
    (known : SectionKind.ofName? name.text = some kind) :
    p.header env name = (p.opened env name kind, (p.flush.path.enter env.catalog name kind).2) := by
  unfold header
  dsimp only
  rw [OpenPath.push_known _ _ known]
  rfl

theorem header_unknown {name : Span} (unknown : SectionKind.ofName? name.text = none) :
    p.header env name =
      ({ p.flush with inUnknown := true }, [.ofProblem (.unknownSection name.text) name]) := by
  unfold header
  dsimp only
  rw [OpenPath.push_unknown _ _ unknown]

theorem header_linked (linked : Linked no p) {name : Span} (line : name.line = no) :
    Linked (no + 1) (p.header env name).1 := by
  obtain ⟨free, agrees⟩ := linked_flush linked
  cases known : SectionKind.ofName? name.text with
  | none =>
      rw [header_unknown env known]
      exact .settled free (agrees.mono (Nat.le_succ no))
  | some kind =>
      rw [header_known env known]
      refine .pending rfl (OpenPath.levels_enter _ _ _ _)
        (Nat.lt_succ_of_le (Nat.le_of_eq line)) ?_ ?_
      · rw [line]
        exact agrees_room agrees kind
      · refine ⟨rfl, fun shallow => ?_, by simp⟩
        rw [List.length_map, OpenPath.length_room]
        exact SectionKind.slotAt_shallow shallow _

theorem header_continues (linked : Linked no p) {name : Span} (line : name.line = no) :
    Continues env.catalog no (no + 1) p (p.header env name).1 (p.header env name).2 := by
  obtain ⟨free, agrees⟩ := linked_flush linked
  have next := header_linked env linked line
  cases known : SectionKind.ofName? name.text with
  | none =>
      rw [header_unknown env known] at next ⊢
      refine ⟨next, ?_, ?_⟩
      · intro d reported
        obtain ⟨earlier, apart, explained⟩ := reported_flush linked reported
        exact ⟨Nat.lt_succ_of_lt earlier, apart, explained⟩
      · intro d member code
        rw [List.mem_singleton] at member
        subst member
        cases code
  | some kind =>
      rw [header_known env known] at next ⊢
      -- the new section is on a line after all that has been reported
      have lasting {d : Diagnostic} (earlier : d.range.start.line < no)
          (explained : p.flush.tree.Explained env.catalog d) :
          Reported env.catalog (no + 1) (p.opened env name kind) d := by
        refine ⟨Nat.lt_succ_of_lt earlier, ?_, explained⟩
        rintro s ⟨⟩
        exact line ▸ Nat.ne_of_gt earlier
      refine ⟨next, ?_, ?_⟩
      · intro d reported
        obtain ⟨earlier, -, explained⟩ := reported_flush linked reported
        exact lasting earlier explained
      · intro d member code
        have closing : d ∈ (p.flush.path.enter env.catalog name kind).2.filter (·.code.ofClosing) :=
          List.mem_filter.mpr ⟨member, by rw [code]; rfl⟩
        rw [OpenPath.filter_enter] at closing
        obtain ⟨earlier, explained⟩ := reported_closed agrees closing code
        exact lasting earlier explained

/-! ## Settings -/

theorem entered_addValue {s : PendingSection} {l : Level} {below : List Level}
    (entered : Entered s.header s.kind (s.settings.map Prod.fst) l below) (name : String)
    (arm : Nat)
    (value : Span) :
    Entered s.header s.kind ((s.addValue name arm value).settings.map Prod.fst) l below := by
  refine ⟨entered.origin, entered.height, ?_⟩
  simp only [PendingSection.addValue, List.forall_mem_map]
  intro entry member
  split
  · exact entered.declared entry.1 (List.mem_map_of_mem member)
  · exact entered.declared entry.1 (List.mem_map_of_mem member)

theorem entered_add {s : PendingSection} {l : Level} {below : List Level}
    (entered : Entered s.header s.kind (s.settings.map Prod.fst) l below) (c : Catalog)
    (setting : Setting) (arm : Nat) (value : String) :
    Entered s.header s.kind ((s.add setting arm).settings.map Prod.fst)
      (l.declare c setting.descriptor.name value) below := by
  refine ⟨entered.origin, entered.height, ?_⟩
  intro s' member
  rw [Level.declares_declare]
  simp only [PendingSection.add, List.map_append, List.map_cons, List.map_nil, List.mem_append,
    List.mem_singleton] at member
  rcases member with member | rfl
  · rw [entered.declared s' member, Bool.or_true]
  · simp

theorem declare_linked (linked : Linked no p) (s : Setting) : Linked no (p.declare env s).1 := by
  cases linked with
  | settled free agrees =>
      simp only [declare, free]
      exact .settled free agrees
  | @pending current l below pending levels line agrees entered =>
      simp only [declare, pending]
      cases current.earlier? s.descriptor.name p.blocks.arm with
      | some earlier =>
          dsimp only
          split
          · exact .pending rfl levels line agrees (entered_addValue entered _ _ _)
          · exact .pending pending levels line agrees entered
      | none =>
          refine .pending rfl ?_ line agrees
            (entered_add entered env.catalog s p.blocks.arm s.value.text)
          simp [OpenPath.declare, levels]

theorem setting_linked (linked : Linked no p) (name value : Span) :
    Linked no (p.setting env name value).1 := by
  unfold setting
  split
  · exact linked
  · split
    · exact linked
    · exact linked
    · exact declare_linked env linked _

theorem setting_keeps (name value : Span) :
    (p.setting env name value).1.tree = p.tree ∧
      (p.setting env name value).1.pending.map PendingSection.header =
        p.pending.map PendingSection.header := by
  have declared (s : Setting) : (p.declare env s).1.tree = p.tree ∧
      (p.declare env s).1.pending.map PendingSection.header =
        p.pending.map PendingSection.header := by
    unfold declare
    cases pending : p.pending with
    | none => simp [pending]
    | some current =>
        dsimp only
        split
        · split <;> simp [pending, PendingSection.addValue]
        · simp [PendingSection.add]
  unfold setting
  split
  · exact ⟨rfl, rfl⟩
  · split
    · exact ⟨rfl, rfl⟩
    · exact ⟨rfl, rfl⟩
    · exact declared _

theorem setting_line {name value : Span} (line : name.line = no)
    (valued : value.text.isEmpty = false → value.line = no) :
    ∀ d ∈ (p.setting env name value).2, d.range.start.line = no := by
  have repeated (s : Setting) (line : s.name.line = no) :
      ∀ d ∈ (p.declare env s).2, d.range.start.line = no := by
    unfold declare
    split
    · simp
    · dsimp only
      split
      · split
        · simp
        · simpa [repetition, Diagnostic.ofProblem, Span.range, Range.onLine] using line
      · simp
  unfold setting
  split
  · simp
  · split
    · simp
    · simpa [unknownSetting, Diagnostic.ofProblem, Span.range, Range.onLine] using line
    · rename_i descriptor _
      have checks : (p.checkSetting env { descriptor, name, value }).1.name = name ∧
          ∀ d ∈ (p.checkSetting env { descriptor, name, value }).2,
            Report Code.ofReading (fun s => s.line = no) d :=
        checkSetting_reports env line valued
      generalize p.checkSetting env { descriptor, name, value } = checked at checks ⊢
      obtain ⟨s, diagnostics⟩ := checked
      obtain ⟨same, found⟩ := checks
      refine List.forall_mem_append.mpr ⟨fun d member => ?_, repeated s (same ▸ line)⟩
      obtain ⟨place, here, range⟩ := (found d member).at_place.range
      exact range ▸ here

theorem Linked.earlier (linked : Linked no p) :
    (∀ s ∈ p.pending, s.header.line < no) ∧
      ∀ id n, p.tree.node? id = some n → n.header.line < no := by
  cases linked with
  | settled free agrees => exact ⟨by simp [free], agrees.nodes⟩
  | pending current levels line agrees entered =>
      refine ⟨?_, fun id n node => Nat.lt_trans (agrees.nodes id n node) line⟩
      intro s member
      rw [current] at member
      cases member
      exact line

theorem reported_here (c : Catalog) (linked : Linked no p) (line : d.range.start.line = no) :
    Reported c (no + 1) p d := by
  obtain ⟨pending, nodes⟩ := linked.earlier
  refine ⟨line ▸ Nat.lt_succ_self _, fun s member => line ▸ Nat.ne_of_lt (pending s member), ?_⟩
  intro id n node range
  have earlier := nodes id n node
  rw [← line, range] at earlier
  exact absurd earlier (Nat.lt_irrefl _)

theorem Linked.mono {no' : Nat} (linked : Linked no p) (later : no ≤ no') : Linked no' p := by
  cases linked with
  | settled free agrees => exact .settled free (agrees.mono later)
  | pending current levels line agrees entered =>
      exact .pending current levels (Nat.lt_of_lt_of_le line later) agrees entered

theorem Reported.mono {c : Catalog} {no' : Nat} {p' : Pass} (reported : Reported c no p d)
    (later : no ≤ no') (tree : p'.tree = p.tree)
    (pending : p'.pending.map PendingSection.header = p.pending.map PendingSection.header) :
    Reported c no' p' d := by
  refine ⟨Nat.lt_of_lt_of_le reported.earlier later, ?_, tree ▸ reported.explained⟩
  intro s member
  have same : p.pending.map PendingSection.header = some s.header := by
    rw [← pending, Option.mem_def.mp member]
    rfl
  obtain ⟨s', member', header⟩ := Option.map_eq_some_iff.mp same
  exact header ▸ reported.apart s' member'

theorem setting_continues (linked : Linked no p) {name value : Span} (line : name.line = no)
    (valued : value.text.isEmpty = false → value.line = no) :
    Continues env.catalog no (no + 1) p (p.setting env name value).1
      (p.setting env name value).2 := by
  have next := setting_linked env linked name value
  obtain ⟨tree, pending⟩ := setting_keeps (p := p) env name value
  refine ⟨next.mono (Nat.le_succ no), ?_, ?_⟩
  · exact fun d reported => reported.mono (Nat.le_succ no) tree pending
  · exact fun d member _ => reported_here env.catalog next (setting_line env line valued d member)

theorem sectionStep_continues (linked : Linked no p) {line : Line}
    (keeps : line.Keeps fun s => s.line = no) :
    Continues env.catalog no (no + 1) p (p.sectionStep env line).1 (p.sectionStep env line).2 := by
  have unchanged : Continues env.catalog no (no + 1) p p [] :=
    ⟨linked.mono (Nat.le_succ no),
      fun d reported => reported.mono (Nat.le_succ no) rfl rfl, by simp⟩
  cases line with
  | header name => exact header_continues env linked keeps
  | setting name value =>
      rw [sectionStep]
      exact setting_continues env linked keeps.1 keeps.2
  | _ => exact unchanged

theorem linked_blocks (linked : Linked no p) (blocks : Block.Stack) :
    Linked no { p with blocks } := by
  cases linked with
  | settled free agrees => exact .settled free agrees
  | pending current levels line agrees entered => exact .pending current levels line agrees entered

theorem step_continues (linked : Linked no p) (text : String) :
    Continues env.catalog no (no + 1) p (p.step env no text).1 (p.step env no text).2 := by
  have blockReports := p.blocks.step_code no text.toList (Line.classify no text)
  have keeps : (Line.classify no text).Keeps fun s => s.line = no :=
    Line.keeps_of_pieces (fun s onLine => onLine.slices.1) (Line.pieces_ofChars no text.toList)
  have others {d : Diagnostic} (code : d.code = .missingSetting) : d.code.inBlocks ≠ true := by
    rw [code]
    exact Bool.false_ne_true
  unfold step
  dsimp only
  generalize p.blocks.step no text.toList (Line.classify no text) = after at blockReports ⊢
  have entered := linked_blocks linked after.1
  split
  · refine ⟨entered.mono (Nat.le_succ no), ?_, ?_⟩
    · exact fun d reported => reported.mono (Nat.le_succ no) rfl rfl
    · exact fun d member code => absurd (blockReports d member) (others code)
  · obtain ⟨next, kept, found⟩ := sectionStep_continues env entered keeps
    refine ⟨next, ?_, List.forall_mem_append.mpr ⟨?_, found⟩⟩
    · exact fun d reported => kept d (reported.mono (Nat.le_refl no) rfl rfl)
    · exact fun d member code => absurd (blockReports d member) (others code)

/-! ## All lines -/

theorem run_continues (linked : Linked no p) (lines : List String) :
    Continues env.catalog no (no + lines.length) p (p.run env no lines).1
      (p.run env no lines).2 := by
  induction lines generalizing p no with
  | nil => exact ⟨linked, fun _ reported => reported, by simp [run]⟩
  | cons text lines ih =>
      obtain ⟨linked, kept, found⟩ := step_continues env linked text
      obtain ⟨linked, kept', others⟩ := ih linked
      rw [List.length_cons, Nat.add_comm lines.length, ← Nat.add_assoc]
      refine ⟨linked, fun d reported => kept' d (kept d reported), ?_⟩
      exact List.forall_mem_append.mpr ⟨fun d member code => kept' d (found d member code), others⟩

end Pass

def scanReports (env : Environment) (lines : List String) : List Diagnostic :=
  let (p, found) := Pass.run env {} 0 lines
  found ++ p.path.finish env.catalog

def sectionTree (env : Environment) (lines : List String) : SectionTree :=
  (Pass.run env {} 0 lines).1.flush.tree

theorem scan_explained (env : Environment) (lines : List String) :
    (sectionTree env lines).Shaped ∧ ∀ d ∈ scanReports env lines, d.code = .missingSetting →
      (sectionTree env lines).Explained env.catalog d := by
  obtain ⟨linked, -, found⟩ := Pass.run_continues env Pass.linked_empty lines
  have agrees := (Pass.linked_flush linked).2
  refine ⟨agrees.shaped, List.forall_mem_append.mpr ⟨fun d member code => ?_,
    fun d member code => ?_⟩⟩
  · exact (Pass.reported_flush linked (found d member code)).explained
  · have same : (Pass.run env {} 0 lines).1.flush.path = (Pass.run env {} 0 lines).1.path := by
      unfold Pass.flush
      split <;> rfl
    rw [OpenPath.finish, OpenPath.closeTo_eq, ← same] at member
    exact (Pass.reported_closed agrees member code).2

/-- A group of settings that is reported as missing at the header of a section is not met by what
the tree has in the section and around it, columns with a series apart. It is not met by what holds
in the section if there is no such column around it. -/
theorem unmet_of_missingSetting (env : Environment) (lines : List String) {d : Diagnostic}
    (reported : d ∈ scanReports env lines) (code : d.code = .missingSetting) {id : Nat}
    {n : SectionNode} (node : (sectionTree env lines).node? id = some n)
    (range : d.range = n.header.range) :
    ∃ r group, env.catalog.requirement? n.kind.name = some r ∧
      d = .ofProblem (.missingSettings group) n.header ∧
      group ∈ r.unmet ((sectionTree env lines).declaredBeside id) ∧
      ((∀ a ∈ (sectionTree env lines).ancestors id, a ≠ id →
          (sectionTree env lines).nestsSeries a = false) →
        group ∈ r.unmet fun name => ((sectionTree env lines).find? id name).isSome) := by
  obtain ⟨shaped, explained⟩ := scan_explained env lines
  obtain ⟨r, group, required, unmet, same⟩ := explained d reported code id n node range
  refine ⟨r, group, required, same, unmet, fun direct => ?_⟩
  rwa [SectionTree.declaredBeside_eq shaped direct] at unmet

def seriesEnvironment : Environment where
  catalog :=
    { descriptors := [{ name := "entity", type := .string }, { name := "metric", type := .string }]
      requirements := [("series", { groups := [[⟨["entity"]⟩], [⟨["metric"]⟩]] })] }
  options := {}
  now := ⟨0, by decide, by decide⟩

/-- A series has its entity from the configuration and has no metric. -/
theorem unmet_of_missingSetting_inherited :
    ∃ d ∈ scanReports seriesEnvironment
        ["[configuration]", "entity = e", "[group]", "[widget]", "[series]"],
      d.code = .missingSetting ∧ ∃ n, (sectionTree seriesEnvironment
        ["[configuration]", "entity = e", "[group]", "[widget]", "[series]"]).node? 3 = some n ∧
      d.range = n.header.range ∧ ∃ r group,
        seriesEnvironment.catalog.requirement? n.kind.name = some r ∧
        d = .ofProblem (.missingSettings group) n.header ∧
        group ∈ r.unmet fun name => ((sectionTree seriesEnvironment
          ["[configuration]", "entity = e", "[group]", "[widget]", "[series]"]).find? 3
            name).isSome := by
  have found : ∃ d ∈ scanReports seriesEnvironment
        ["[configuration]", "entity = e", "[group]", "[widget]", "[series]"],
      d.code = .missingSetting ∧ ((sectionTree seriesEnvironment
        ["[configuration]", "entity = e", "[group]", "[widget]", "[series]"]).node? 3).any
          (fun n => d.range = n.header.range) = true := by decide
  obtain ⟨d, reported, code, at_⟩ := found
  obtain ⟨n, node, range⟩ := (Option.any_eq_true ..).mp at_
  have range := of_decide_eq_true range
  obtain ⟨r, group, required, same, -, unmet⟩ :=
    unmet_of_missingSetting seriesEnvironment _ reported code node range
  exact ⟨d, reported, code, n, node, range, r, group, required, same, unmet (by decide)⟩

/-- A series after a column lies in the column and has its settings. They are reported as missing
all the same. -/
theorem missingSetting_in_column :
    (∃ d ∈ scanReports seriesEnvironment ["[configuration]", "[group]", "[widget]", "[column]",
        "entity = e", "metric = m", "[series]"],
      d.code = .missingSetting ∧ d.range = .onLine 6 1 7) ∧
    ((sectionTree seriesEnvironment ["[configuration]", "[group]", "[widget]", "[column]",
        "entity = e", "metric = m", "[series]"]).node? 4).map
      (fun n => (n.kind, n.header.range)) = some (.series, .onLine 6 1 7) ∧
    (seriesEnvironment.catalog.requirement? "series").map (·.unmet fun name =>
      ((sectionTree seriesEnvironment ["[configuration]", "[group]", "[widget]", "[column]",
        "entity = e", "metric = m", "[series]"]).find? 4 name).isSome) = some [] := by
  decide

end ChartLint
