import ChartLint.Proofs.Rule.Reports

/-!
# What a pass reports on sections

The step of a pass that concerns sections keeps the spans of headers and names, leaves the blocks
alone and reports no problem of blocks.
-/

namespace ChartLint

variable {places : Span → Prop}

def PendingSection.Keeps (places : Span → Prop) (s : PendingSection) : Prop :=
  places s.header ∧ ∀ entry ∈ s.settings, places entry.1.name

structure Pass.Keeps (places : Span → Prop) (p : Pass) : Prop where
  path : OpenPath.Keeps places p.path.levels
  tree : p.tree.Keeps places
  pending : ∀ s ∈ p.pending, s.Keeps places

/-- The spans of a line that concern sections have a property; an empty value need not. -/
def Line.Keeps (places : Span → Prop) : Line → Prop
  | .header name => places name
  | .setting name value => places name ∧ (value.text.isEmpty = false → places value)
  | _ => True

namespace PendingSection

variable {s : PendingSection}

theorem keeps_addValue (kept : s.Keeps places) (name : String) (arm : Nat) (value : Span) :
    (s.addValue name arm value).Keeps places := by
  refine ⟨kept.1, ?_⟩
  intro entry member
  obtain ⟨entry', member', rfl⟩ := List.mem_map.mp member
  split
  · exact kept.2 entry' member'
  · exact kept.2 entry' member'

theorem keeps_add (kept : s.Keeps places) {setting : Setting} (name : places setting.name)
    (arm : Nat) : (s.add setting arm).Keeps places := by
  refine ⟨kept.1, ?_⟩
  intro entry member
  rcases List.mem_append.mp member with member | member
  · exact kept.2 entry member
  · rw [List.mem_singleton] at member
    subst member
    exact name

theorem keeps_earlier? (kept : s.Keeps places) {name : String} {arm : Nat} {earlier : Setting}
    (found : s.earlier? name arm = some earlier) : places earlier.name := by
  obtain ⟨entry, first, rfl⟩ := Option.map_eq_some_iff.mp found
  exact kept.2 entry (List.mem_of_find?_eq_some first)

end PendingSection

namespace Pass

variable {p : Pass} (env : Environment)

theorem keeps_empty : Keeps places {} where
  path := by simp [OpenPath.Keeps]
  tree := by simp [SectionTree.Keeps]
  pending := by simp

theorem keeps_flush (kept : p.Keeps places) : p.flush.Keeps places := by
  unfold flush
  cases pending : p.pending with
  | none => exact kept
  | some s =>
      obtain ⟨header, names⟩ := kept.pending s (by simp [pending])
      refine ⟨kept.path, SectionTree.keeps_add kept.tree header ?_ s.kind, by simp⟩
      intro setting member
      obtain ⟨entry, within, rfl⟩ := List.mem_map.mp member
      exact names entry within

theorem header_reports (kept : p.Keeps places) {name : Span} (place : places name) :
    (p.header env name).1.Keeps places ∧
      ∀ d ∈ (p.header env name).2, Report Code.ofReading places d := by
  have flushed := keeps_flush kept
  have pushed := OpenPath.push_reports env.catalog p.flush.path name flushed.path place
  unfold header
  dsimp only
  split
  · rename_i path kind diagnostics equal
    rw [equal] at pushed
    refine ⟨⟨pushed.1, flushed.tree, ?_⟩, pushed.2⟩
    intro s member
    rw [Option.mem_some] at member
    subst member
    exact ⟨place, by simp⟩
  · rename_i path diagnostics equal
    rw [equal] at pushed
    exact ⟨⟨pushed.1, flushed.tree, flushed.pending⟩, pushed.2⟩

theorem checkSetting_reports {s : Setting} (name : places s.name)
    (valued : s.value.text.isEmpty = false → places s.value) :
    (p.checkSetting env s).1.name = s.name ∧
      ∀ d ∈ (p.checkSetting env s).2, Report Code.ofReading places d := by
  obtain ⟨same, reports⟩ :=
    @Setting.check_reports _ env.options.zones s ⟨env.now, p.zone env⟩ s.value name valued
  refine ⟨same, List.forall_mem_append.mpr ⟨?_, ?_⟩⟩
  · cases s.descriptor.deprecated with
    | none => simp
    | some notice => exact reports_single rfl name
  · intro d member
    exact reports d (Option.mem_toList.mp member)

theorem declare_reports (kept : p.Keeps places) {s : Setting} (name : places s.name) :
    (p.declare env s).1.Keeps places ∧
      ∀ d ∈ (p.declare env s).2, Report Code.ofBlocks places d := by
  unfold declare
  cases pending : p.pending with
  | none => exact ⟨kept, by simp⟩
  | some current =>
      have keptCurrent := kept.pending current (by simp [pending])
      dsimp only
      cases found : current.earlier? s.descriptor.name p.blocks.arm with
      | some earlier =>
          dsimp only
          split
          · refine ⟨⟨kept.path, kept.tree, ?_⟩, by simp⟩
            intro s' member
            rw [Option.mem_some] at member
            subst member
            exact PendingSection.keeps_addValue keptCurrent _ _ _
          · refine ⟨kept, ?_⟩
            intro d member
            rw [List.mem_singleton] at member
            subst member
            -- the earlier declaration is the one related place there is
            refine ⟨rfl, ⟨s.name, name, rfl⟩, ?_⟩
            intro r related
            simp only [repetition, List.mem_singleton] at related
            subst related
            exact ⟨earlier.name, PendingSection.keeps_earlier? keptCurrent found, rfl⟩
      | none =>
          refine ⟨⟨?_, kept.tree, ?_⟩, by simp⟩
          · exact OpenPath.declare_keeps env.catalog p.path _ _ kept.path
          · intro s' member
            rw [Option.mem_some] at member
            subst member
            exact PendingSection.keeps_add keptCurrent name _

theorem setting_reports (kept : p.Keeps places) {name value : Span} (place : places name)
    (valued : value.text.isEmpty = false → places value) :
    (p.setting env name value).1.Keeps places ∧
      ∀ d ∈ (p.setting env name value).2, Report Code.ofBlocks places d := by
  unfold setting
  split
  · exact ⟨kept, by simp⟩
  · split
    · exact ⟨kept, by simp⟩
    · exact ⟨kept, reports_single rfl place⟩
    · rename_i descriptor _
      obtain ⟨same, found⟩ :=
        checkSetting_reports (p := p) env (s := { descriptor, name, value }) place valued
      generalize p.checkSetting env { descriptor, name, value } = checked at same found ⊢
      obtain ⟨s, diagnostics⟩ := checked
      obtain ⟨keeps, others⟩ := declare_reports env kept (s := s) (same ▸ place)
      exact ⟨keeps, List.forall_mem_append.mpr ⟨fun d member => (found d member).ofBlocks, others⟩⟩

theorem sectionStep_reports (kept : p.Keeps places) {line : Line} (keeps : line.Keeps places) :
    (p.sectionStep env line).1.Keeps places ∧
      ∀ d ∈ (p.sectionStep env line).2, Report Code.ofBlocks places d := by
  cases line with
  | header name =>
      obtain ⟨keeps, found⟩ := header_reports env kept keeps
      exact ⟨keeps, fun d member => (found d member).ofBlocks⟩
  | setting name value =>
      rw [sectionStep]
      exact setting_reports env kept keeps.1 keeps.2
  | _ => exact ⟨kept, by simp [sectionStep]⟩

/-! ## Blocks stay as they are -/

@[simp] theorem blocks_flush : p.flush.blocks = p.blocks := by
  unfold flush
  split <;> rfl

theorem blocks_header (name : Span) : (p.header env name).1.blocks = p.blocks := by
  unfold header
  dsimp only
  split <;> exact blocks_flush

theorem blocks_declare (s : Setting) : (p.declare env s).1.blocks = p.blocks := by
  unfold declare
  split
  · rfl
  · dsimp only
    split
    · split <;> rfl
    · rfl

theorem blocks_sectionStep (line : Line) : (p.sectionStep env line).1.blocks = p.blocks := by
  cases line with
  | header name => exact blocks_header env name
  | setting name value =>
      simp only [sectionStep, setting]
      split
      · rfl
      · split
        · rfl
        · rfl
        · rename_i descriptor _
          exact blocks_declare env (p.checkSetting env { descriptor, name, value }).1
  | _ => rfl

end Pass
end ChartLint
