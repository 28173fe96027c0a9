import ChartLint.Proofs.Rule.Exchange
import ChartLint.Proofs.Section.PathExchange
import ChartLint.Proofs.Validation.Dates
import ChartLint.Proofs.Validation.Readings

/-!
# Settings that change places

Two documents have the same lines, but for two neighbouring settings with different names that have
changed places. If each of the two is read in the same way before and after the other, then all
later lines find passes that differ only in the order of the two (`Pass.Mirrors`), and so do the
rules at the end. What is reported is the same, but on the line to which its setting has moved:
`validate_exchange`.

Settings are read one after the other, so the condition is needed: `validate_mode_before_type`.
-/

namespace ChartLint

theorem Diagnostic.moved_of_at {n : Nat} {d : Diagnostic} (at_ : d.At (Span.Away n)) :
    d.moved n = d := by
  obtain ⟨⟨s, away, range⟩, related⟩ := at_
  have fixed {r : Range} {s : Span} (away : s.Away n) (range : r = s.range) : r.moved n = r := by
    rw [range, ← Span.range_moved, Span.moved_of_away away]
  have others : d.related.map (Related.moved n) = d.related := by
    refine (List.map_congr_left ?_).trans (List.map_id _)
    intro r member
    obtain ⟨s, away, range⟩ := related r member
    exact congrArg (fun range => { r with range }) (fixed away range)
  rw [Diagnostic.moved, fixed away range, others]

theorem map_moved_of_at {n : Nat} {ds : List Diagnostic} (at_ : ∀ d ∈ ds, d.At (Span.Away n)) :
    ds.map (Diagnostic.moved n) = ds :=
  (List.map_congr_left fun d member => Diagnostic.moved_of_at (at_ d member)).trans (List.map_id ds)

/-! ## Lines with another number -/

theorem Line.settingParts?_moved (n no : Nat) (cs : List Char) :
    settingParts? (movedLine n no) cs =
      (settingParts? no cs).map fun (name, value) => (name.moved n, value.moved n) := by
  unfold settingParts?
  split
  · rfl
  · split
    · rfl
    · split <;> rfl

theorem Line.classify_moved (n : Nat) {no : Nat} {text : String} {name value : Span}
    (line : classify no text = .setting name value) :
    classify (movedLine n no) text = .setting (name.moved n) (value.moved n) := by
  unfold classify ofChars at line ⊢
  split at line
  · cases line
  · rename_i filled
    rw [if_neg filled]
    dsimp only at line ⊢
    split at line
    · cases line
    · rename_i head k read
      cases head with
      | word | equals =>
          dsimp only at line ⊢
          rw [settingParts?_moved]
          cases parts : settingParts? no text.toList with
          | none =>
              rw [parts] at line
              cases line
          | some found =>
              rw [parts] at line
              cases line
              rfl
      | bracket =>
          have other (found : Option Span) :
              found.elim Line.text .header ≠ .setting name value := by
            cases found <;> intro same <;> cases same
          exact absurd line (other _)
      | _ => cases line

theorem Block.Stack.checkReferences_moved (s : Stack) (n no : Nat) (cs : List Char) :
    s.checkReferences (movedLine n no) cs = (s.checkReferences no cs).map (Diagnostic.moved n) := by
  have names : referredNames (movedLine n no) cs = (referredNames no cs).map (Span.moved n) := by
    unfold referredNames
    rw [List.map_filterMap]
    apply List.filterMap_congr
    intro entry _
    obtain ⟨inner, column⟩ := entry
    dsimp only
    split <;> rfl
  have checked (name : Span) :
      s.checkName (name.moved n) = (s.checkName name).map (Diagnostic.moved n) := by
    unfold checkName
    change (if s.knows name.text then _ else _) = _
    split <;> rfl
  unfold checkReferences
  split
  · rw [names, List.flatMap_map, List.map_flatMap]
    exact List.flatMap_congr fun name _ => checked name
  · rfl

/-! ## Passes -/

theorem OpenPath.keeps_declareUnless {places : Span → Prop} (c : Catalog) {p : OpenPath}
    (kept : Keeps places p.levels) (known : Bool) (name value : String) :
    Keeps places (p.declareUnless c known name value).levels := by
  cases known with
  | false => exact declare_keeps c p name value kept
  | true => exact kept

structure PendingSection.Mirrors (n : Nat) (s s' : PendingSection) : Prop where
  header : s'.header = s.header
  away : s.header.Away n
  kind : s'.kind = s.kind
  entries : Exchanged Entry.Apart (s.entries.map (Entry.moved n)) s'.entries

theorem PendingSection.Mirrors.notes {n : Nat} {s s' : PendingSection} (mirrors : s.Mirrors n s') :
    Exchanged (fun x y => x.1.Apart y.1) ((s.settings.map Prod.fst).map (Setting.movedNote n))
      ((s'.settings.map Prod.fst).map Setting.note) := by
  have notes := @Exchanged.map _ _ _ _ _ (fun x y : Face × Bool => x.1.Apart y.1) mirrors.entries
    (fun e => (e.face, e.broken)) fun _ _ apart => apart
  simp only [PendingSection.entries, List.map_map] at notes ⊢
  exact notes

theorem PendingSection.entries_moved {n : Nat} {s : PendingSection} (kept : s.Keeps (Span.Away n)) :
    s.entries.map (Entry.moved n) = s.entries := by
  refine (List.map_congr_left ?_).trans (List.map_id _)
  intro e member
  obtain ⟨entry, within, rfl⟩ := List.mem_map.mp member
  have name : entry.1.name.moved n = entry.1.name := Span.moved_of_away (kept.2 entry within)
  simp only [Entry.moved, Entry.ofSetting, Face.moved, Setting.face, name, id]

theorem SectionTree.twins_refl {n : Nat} {t : SectionTree} (shaped : t.Shaped)
    (kept : t.Keeps (Span.Away n)) :
    t.Twins n t := by
  refine ⟨shaped, shaped, rfl, rfl, rfl, rfl, ?_⟩
  intro id
  cases found : t.node? id with
  | none => exact .none
  | some m =>
      obtain ⟨header, names⟩ := SectionTree.keeps_node? kept found
      have notes : m.settings.map (Setting.movedNote n) = m.settings.map Setting.note := by
        apply List.map_congr_left
        intro s member
        simp only [Setting.movedNote, Setting.note, Face.moved, Setting.face,
          Span.moved_of_away (names s member)]
      exact .some ⟨(Span.moved_of_away header).symm, rfl, rfl, rfl, by rw [notes]; exact .same _⟩

namespace Pass

/-- Two passes that stand at one line, after the same lines but for two settings in the other order.
Neither the open blocks nor the headers on the path are on the lines of the two. -/
structure Mirrors (n : Nat) (p p' : Pass) : Prop where
  blocks : p'.blocks = p.blocks
  blocksAway : p.blocks.Keeps (Span.Away n)
  path : OpenPath.Mirrors p.path.levels p'.path.levels
  pathAway : OpenPath.Keeps (Span.Away n) p.path.levels
  tree : p.tree.Twins n p'.tree
  pending : Option.Rel (PendingSection.Mirrors n) p.pending p'.pending
  inUnknown : p'.inUnknown = p.inUnknown

namespace Mirrors

variable {n : Nat} {p p' : Pass} (env : Environment)

theorem flush (mirrors : p.Mirrors n p') : p.flush.Mirrors n p'.flush := by
  have related := mirrors.pending
  unfold Pass.flush
  generalize p.pending = current at related ⊢
  generalize p'.pending = current' at related ⊢
  cases related with
  | none => exact mirrors
  | @some s s' both =>
      dsimp only
      rw [both.header, both.kind]
      exact ⟨mirrors.blocks, mirrors.blocksAway, mirrors.path, mirrors.pathAway,
        mirrors.tree.add (Span.moved_of_away both.away) both.notes, .none, mirrors.inUnknown⟩

/-! ## Headers -/

theorem header (mirrors : p.Mirrors n p') {name : Span} (away : name.Away n) :
    (p.header env name).1.Mirrors n (p'.header env name).1 ∧
      (p'.header env name).2 = (p.header env name).2.map (Diagnostic.moved n) := by
  have flushed := mirrors.flush
  have pushed := flushed.path.push env.catalog name
  obtain ⟨kept, reports⟩ :=
    OpenPath.push_reports env.catalog p.flush.path name flushed.pathAway away
  have fixed := map_moved_of_at fun d member => (reports d member).at_place
  unfold Pass.header
  dsimp only
  generalize p.flush.path.push env.catalog name = next at pushed kept fixed ⊢
  generalize p'.flush.path.push env.catalog name = next' at pushed ⊢
  obtain ⟨path, kind, found⟩ := next
  obtain ⟨path', kind', found'⟩ := next'
  obtain ⟨levels, same⟩ := pushed
  obtain ⟨rfl, rfl⟩ := Prod.mk.inj same
  cases kind' with
  | none =>
      exact ⟨⟨flushed.blocks, flushed.blocksAway, levels, kept, flushed.tree, flushed.pending, rfl⟩,
        fixed.symm⟩
  | some kind =>
      exact ⟨⟨flushed.blocks, flushed.blocksAway, levels, kept, flushed.tree,
        .some ⟨rfl, away, rfl, .same _⟩, rfl⟩, fixed.symm⟩

/-! ## Settings -/

theorem scope (mirrors : p.Mirrors n p') : p'.scope = p.scope := by
  have kind : p'.pending.elim "" (fun s => s.kind.name) =
      p.pending.elim "" fun s => s.kind.name := by
    have related := mirrors.pending
    generalize p.pending = current at related ⊢
    generalize p'.pending = current' at related ⊢
    cases related with
    | none => rfl
    | some both => rw [Option.elim_some, Option.elim_some, both.kind]
  exact congrArg₂ Scope.mk kind mirrors.path.widgetType?

theorem reading (mirrors : p.Mirrors n p') (name value : Span) :
    p'.reading env name value = p.reading env name value := by
  apply reading_congr env mirrors.inUnknown (by rw [mirrors.scope])
  intro _ _ _
  unfold zone
  rw [mirrors.path.visible?]

theorem declare (mirrors : p.Mirrors n p') {s s' : Setting} (same : s'.note = s.movedNote n) :
    (p.declare env s).1.Mirrors n (p'.declare env s').1 ∧
      (p'.declare env s').2 = (p.declare env s).2.map (Diagnostic.moved n) := by
  have related := mirrors.pending
  cases current : p.pending with
  | none =>
      rw [current] at related
      have current' : p'.pending = none := by
        generalize p'.pending = c' at related ⊢
        cases related
        rfl
      rw [Pass.declare, current, Pass.declare, current']
      exact ⟨mirrors, rfl⟩
  | some c =>
      rw [current] at related
      obtain ⟨c', current', both⟩ : ∃ c', p'.pending = some c' ∧ c.Mirrors n c' := by
        generalize p'.pending = c' at related ⊢
        cases related with
        | some both => exact ⟨_, rfl, both⟩
      obtain ⟨next, header, kind, entries, declared⟩ := declare_entries env current s
      obtain ⟨next', header', kind', entries', declared'⟩ := declare_entries env current' s'
      rw [mirrors.blocks, Entry.ofSetting_moved same] at entries' declared'
      have found := Entry.find?_exchanged both.entries ((Entry.ofSetting s p.blocks.arm).moved n)
      have repeated :=
        Entry.repetitions_exchanged both.entries ((Entry.ofSetting s p.blocks.arm).moved n)
      have entered := Entry.enter_exchanged both.entries ((Entry.ofSetting s p.blocks.arm).moved n)
      rw [Entry.find?_map_moved] at found
      rw [Entry.repetitions_map_moved] at repeated
      rw [Entry.enter_map_moved, ← entries] at entered
      rw [declared, declared', found, repeated, Setting.name_of_note same,
        Setting.value_of_note same]
      refine ⟨⟨rfl, mirrors.blocksAway, ?_, ?_, mirrors.tree, .some ?_, mirrors.inUnknown⟩, rfl⟩
      · rw [Option.isSome_map]
        exact mirrors.path.declareUnless env.catalog _ _ _
      · exact OpenPath.keeps_declareUnless env.catalog mirrors.pathAway _ _ _
      · refine ⟨by rw [header, header', both.header], by rw [header]; exact both.away,
          by rw [kind, kind', both.kind], ?_⟩
        rw [entries']
        exact entered

theorem take (mirrors : p.Mirrors n p') {s s' : Option Setting}
    (same : s'.map Setting.note = s.map (Setting.movedNote n)) :
    (p.take env s).1.Mirrors n (p'.take env s').1 ∧
      (p'.take env s').2 = (p.take env s).2.map (Diagnostic.moved n) := by
  cases rel_of_map_eq same with
  | none => exact ⟨mirrors, rfl⟩
  | some noted => exact mirrors.declare env noted

theorem setting (mirrors : p.Mirrors n p') (name value : Span) :
    (p.setting env name value).1.Mirrors n (p'.setting env (name.moved n) (value.moved n)).1 ∧
      (p'.setting env (name.moved n) (value.moved n)).2 =
        (p.setting env name value).2.map (Diagnostic.moved n) := by
  obtain ⟨taken, reports⟩ :=
    mirrors.take env (Setting.map_note_moved n (p.reading env name value).1)
  rw [setting_eq, setting_eq, reading_moved, mirrors.reading env, List.map_append, reports]
  exact ⟨taken, rfl⟩

/-! ## Lines after the two -/

theorem step (mirrors : p.Mirrors n p') {no : Nat} (later : n + 2 ≤ no) (text : String) :
    (p.step env no text).1.Mirrors n (p'.step env no text).1 ∧
      (p'.step env no text).2 = (p.step env no text).2.map (Diagnostic.moved n) := by
  have away (s : Span) (onLine : s.line = no) : s.Away n := ⟨by omega, by omega⟩
  have pieces := Line.pieces_classify no text
  obtain ⟨kept, found⟩ := Block.Stack.step_at mirrors.blocksAway
    (fun s onLine => away s onLine.slices.1) pieces
  have fixed := map_moved_of_at found
  unfold Pass.step
  rw [mirrors.blocks]
  dsimp only
  generalize p.blocks.step no text.toList (Line.classify no text) = after at kept fixed ⊢
  obtain ⟨blocks, found⟩ := after
  have entered : Mirrors n { p with blocks } { p' with blocks } :=
    ⟨rfl, kept, mirrors.path, mirrors.pathAway, mirrors.tree, mirrors.pending, mirrors.inUnknown⟩
  dsimp only at fixed ⊢
  split
  · exact ⟨entered, fixed.symm⟩
  · dsimp only
    rw [List.map_append, fixed]
    cases line : Line.classify no text with
    | header name =>
        rw [line] at pieces
        obtain ⟨next, reports⟩ := entered.header env (away name (Span.OnLine.slices pieces).1)
        exact ⟨next, congrArg _ reports⟩
    | setting name value =>
        rw [line] at pieces
        obtain ⟨next, reports⟩ := entered.setting env name value
        rw [Span.moved_of_away (away name pieces.1.slices.1),
          Span.moved_of_away (away value pieces.2.1.1)]
          at next reports
        exact ⟨next, congrArg _ reports⟩
    | _ => exact ⟨entered, rfl⟩

theorem run (mirrors : p.Mirrors n p') {no : Nat} (later : n + 2 ≤ no) (lines : List String) :
    (p.run env no lines).1.Mirrors n (p'.run env no lines).1 ∧
      (p'.run env no lines).2 = (p.run env no lines).2.map (Diagnostic.moved n) := by
  induction lines generalizing p p' no with
  | nil => exact ⟨mirrors, rfl⟩
  | cons text lines ih =>
      obtain ⟨next, found⟩ := mirrors.step env later text
      obtain ⟨last, others⟩ := ih next (Nat.le_succ_of_le later)
      refine ⟨last, ?_⟩
      rw [Pass.run, Pass.run, List.map_append, ← found, ← others]

theorem finish (mirrors : p.Mirrors n p') (unread : p.Unread) (unread' : p'.Unread) :
    ByLine ((p.finish env).map (Diagnostic.moved n)) (p'.finish env) := by
  have path := map_moved_of_at fun d member =>
    (OpenPath.finish_reports env.catalog p.path mirrors.pathAway d member).at_place
  have blocks := map_moved_of_at (Block.Stack.finish_at mirrors.blocksAway)
  unfold Pass.finish
  dsimp only
  rw [List.map_append, List.map_append, path, blocks, mirrors.path.finish, mirrors.blocks]
  exact (ByLine.refl _).append (Rule.run_exchange mirrors.flush.tree (unread_flush unread).tree
    (unread_flush unread').tree _ _)

theorem reportsFrom (mirrors : p.Mirrors n p') (unread : p.Unread) (unread' : p'.Unread) {no : Nat}
    (later : n + 2 ≤ no) (lines : List String) :
    ByLine ((p.reportsFrom env no lines).map (Diagnostic.moved n))
      (p'.reportsFrom env no lines) := by
  obtain ⟨last, found⟩ := mirrors.run env later lines
  unfold Pass.reportsFrom
  rw [List.map_append, ← found]
  exact (ByLine.refl _).append
    (last.finish env (unread_run env unread no lines) (unread_run env unread' no lines))

end Mirrors

/-! ## The two lines -/

variable {n : Nat} {p : Pass} (env : Environment)

structure Before (n : Nat) (p : Pass) : Prop where
  kept : p.Keeps (Span.Away n)
  blocks : p.blocks.Keeps (Span.Away n)
  shaped : p.tree.Shaped

theorem declare_declare {c : PendingSection} (pending : p.pending = some c) {s t : Setting}
    (apart : s.face.Apart t.face) :
    let x := Entry.ofSetting s p.blocks.arm
    let y := Entry.ofSetting t p.blocks.arm
    let path := p.path.declareUnless env.catalog (c.entries.find? x.isSame).isSome
      s.descriptor.name s.value.text
    ∃ next : PendingSection, next.header = c.header ∧ next.kind = c.kind ∧
      next.entries = Entry.enter (Entry.enter c.entries x) y ∧
      (p.declare env s).1.declare env t =
        ({ p with
            path := path.declareUnless env.catalog (c.entries.find? y.isSame).isSome
              t.descriptor.name t.value.text
            pending := some next },
          Entry.repetitions c.entries y) := by
  intro x y path
  have apart : x.Apart y := apart
  obtain ⟨mid, header, kind, entries, declared⟩ := declare_entries env pending s
  have pending' : (p.declare env s).1.pending = some mid := by rw [declared]
  obtain ⟨next, header', kind', entries', declared'⟩ := declare_entries env pending' t
  have arm : (p.declare env s).1.blocks.arm = p.blocks.arm := by rw [blocks_declare]
  rw [arm, entries] at entries' declared'
  rw [Entry.find?_enter apart, Entry.repetitions_enter apart] at declared'
  refine ⟨next, header'.trans header, kind'.trans kind, entries', ?_⟩
  rw [declared', declared]

namespace Before

theorem mirrors (before : p.Before n) : p.Mirrors n p := by
  refine ⟨rfl, before.blocks, .refl _, before.kept.path,
    SectionTree.twins_refl before.shaped before.kept.tree, ?_, rfl⟩
  cases pending : p.pending with
  | none => exact .none
  | some s =>
      have kept := before.kept.pending s pending
      exact .some ⟨rfl, kept.1, rfl, by rw [PendingSection.entries_moved kept]; exact .same _⟩

theorem declare_comm (before : p.Before n) {s t s' t' : Setting} (apart : s.face.Apart t.face)
    (first : s'.note = s.movedNote n) (second : t'.note = t.movedNote n) :
    ((p.declare env s).1.declare env t).1.Mirrors n ((p.declare env t').1.declare env s').1 ∧
      (p.declare env t').2 = ((p.declare env s).1.declare env t).2.map (Diagnostic.moved n) ∧
      ((p.declare env t').1.declare env s').2 = (p.declare env s).2.map (Diagnostic.moved n) := by
  cases pending : p.pending with
  | none =>
      have same (s : Setting) : p.declare env s = (p, []) := by rw [declare, pending]
      simp only [same]
      exact ⟨before.mirrors, rfl, rfl⟩
  | some c =>
      have kept := before.kept.pending c pending
      have fixed := PendingSection.entries_moved kept
      have found (x : Entry) : c.entries.find? (x.moved n).isSame =
          (c.entries.find? x.isSame).map (Entry.moved n) := by
        have moved := Entry.find?_map_moved n c.entries x
        rwa [fixed] at moved
      have repeated (x : Entry) : Entry.repetitions c.entries (x.moved n) =
          (Entry.repetitions c.entries x).map (Diagnostic.moved n) := by
        have moved := Entry.repetitions_map_moved n c.entries x
        rwa [fixed] at moved
      have face : s'.face = s.face.moved n := congrArg Prod.fst first
      have face' : t'.face = t.face.moved n := congrArg Prod.fst second
      have apart' : s'.face.Apart t'.face := by
        rw [face, face']
        exact apart.moved n
      obtain ⟨next, header, kind, entries, declared⟩ := declare_declare env pending apart
      obtain ⟨next', header', kind', entries', declared'⟩ := declare_declare env pending apart'.symm
      obtain ⟨_, -, -, -, single⟩ := declare_entries env pending s
      obtain ⟨_, -, -, -, single'⟩ := declare_entries env pending t'
      rw [Entry.ofSetting_moved first, Entry.ofSetting_moved second] at entries' declared'
      rw [Entry.ofSetting_moved second] at single'
      rw [declared, declared', single, single', repeated, repeated, found, found,
        Setting.name_of_note first, Setting.name_of_note second, Setting.value_of_note first,
        Setting.value_of_note second]
      refine ⟨⟨rfl, before.blocks, ?_, ?_, SectionTree.twins_refl before.shaped before.kept.tree,
        .some ?_, rfl⟩, rfl, rfl⟩
      · rw [Option.isSome_map, Option.isSome_map]
        exact OpenPath.mirrors_declareUnless_comm env.catalog p.path _ _ apart.1 _ _
      · apply OpenPath.keeps_declareUnless
        exact OpenPath.keeps_declareUnless env.catalog before.kept.path _ _ _
      · refine ⟨by rw [header, header'], by rw [header]; exact kept.1, by rw [kind, kind'], ?_⟩
        rw [entries, entries', ← Entry.enter_map_moved, ← Entry.enter_map_moved, fixed]
        exact Entry.enter_comm (x := (Entry.ofSetting s p.blocks.arm).moved n)
          (y := (Entry.ofSetting t p.blocks.arm).moved n) (apart.moved n) c.entries

theorem take_comm (before : p.Before n) {s t s' t' : Option Setting}
    (apart : ∀ a ∈ s, ∀ b ∈ t, a.face.Apart b.face)
    (first : s'.map Setting.note = s.map (Setting.movedNote n))
    (second : t'.map Setting.note = t.map (Setting.movedNote n)) :
    ((p.take env s).1.take env t).1.Mirrors n ((p.take env t').1.take env s').1 ∧
      (p.take env t').2 = ((p.take env s).1.take env t).2.map (Diagnostic.moved n) ∧
      ((p.take env t').1.take env s').2 = (p.take env s).2.map (Diagnostic.moved n) := by
  obtain ⟨mirrors, reports⟩ := before.mirrors.take env first
  obtain ⟨mirrors', reports'⟩ := before.mirrors.take env second
  cases rel_of_map_eq first with
  | none => exact ⟨mirrors', reports', rfl⟩
  | some noted =>
      cases rel_of_map_eq second with
      | none => exact ⟨mirrors, rfl, reports⟩
      | some noted' => exact before.declare_comm env (apart _ rfl _ rfl) noted noted'

end Before

theorem line_of_setting {no : Nat} {text : String} {name value : Span}
    (outside : p.blocks.inText = false)
    (line : Line.classify no text = .setting name value) :
    ∀ d ∈ (p.step env no text).2, d.range.start.line = no := by
  have pieces := Line.pieces_classify no text
  rw [line] at pieces
  obtain ⟨named, valued, -⟩ := pieces
  have placed {d : Diagnostic} (at_ : d.At fun s => s.line = no) : d.range.start.line = no := by
    obtain ⟨s, onLine, range⟩ := at_.range
    rw [range]
    exact onLine
  rw [step_setting outside line, setting_eq]
  simp only [List.forall_mem_append]
  refine ⟨?_, ?_, ?_⟩
  · intro d member
    exact placed (p.blocks.checkReferences_reports
      (fun s onLine => onLine.slices.1) d member).at_place
  · unfold reading
    split
    · simp
    · cases env.catalog.resolve name.text p.scope with
      | exempt => simp
      | unknown =>
          intro d member
          rw [List.mem_singleton.mp member]
          exact named.slices.1
      | known descriptor =>
          intro d member
          exact placed ((checkSetting_reports env (s := { descriptor, name, value }) named.slices.1
            fun _ => valued.1).2 d member).at_place
  · intro d member
    cases read : (p.reading env name value).1 with
    | none =>
        rw [read] at member
        cases member
    | some s =>
        rw [read] at member
        obtain ⟨earlier, rfl, -⟩ := declare_of_mem member
        have same := (descriptor_of_reading env read).2.1
        exact (congrArg Span.line same).trans named.slices.1

theorem step_taken {no : Nat} {text : String} {name value : Span}
    (outside : p.blocks.inText = false)
    (line : Line.classify no text = .setting name value) :
    p.step env no text =
      ((p.take env (p.reading env name value).1).1, p.blocks.checkReferences no text.toList ++
        ((p.reading env name value).2 ++ (p.take env (p.reading env name value).1).2)) := by
  rw [step_setting outside line, setting_eq]

theorem blocks_take (s : Option Setting) : (p.take env s).1.blocks = p.blocks := by
  cases s with
  | none => rfl
  | some s => exact blocks_declare env s

theorem run_pair (p : Pass) (n : Nat) (a b : String) :
    p.run env n [a, b] = (((p.step env n a).1.step env (n + 1) b).1,
      (p.step env n a).2 ++ ((p.step env n a).1.step env (n + 1) b).2) := by
  simp only [run, List.append_nil]

/-- Settings with different names on two neighbouring lines. Neither changes how the other is
read. -/
structure Pair (n : Nat) (p : Pass) (a b : String) (name value name' value' : Span) : Prop where
  before : p.Before n
  outside : p.blocks.inText = false
  first : Line.classify n a = .setting name value
  second : Line.classify (n + 1) b = .setting name' value'
  differ : ∀ d d', env.catalog.resolve name.text p.scope = .known d →
    env.catalog.resolve name'.text p.scope = .known d' → d.name ≠ d'.name
  forth : p.Indifferent env name value name' value'
  back : p.Indifferent env name' value' name value

namespace Pair

variable {a b : String} {name value name' value' : Span} {env : Environment}
  (pair : p.Pair env n a b name value name' value')

include pair

theorem apart {s t : Setting} (read : (p.reading env name value).1 = some s)
    (read' : (p.reading env name' value').1 = some t) : s.face.Apart t.face := by
  obtain ⟨resolved, named, -⟩ := descriptor_of_reading env read
  obtain ⟨resolved', named', -⟩ := descriptor_of_reading env read'
  refine ⟨pair.differ _ _ resolved resolved', ?_⟩
  change s.name.line ≠ t.name.line
  rw [named, named', Line.line_of_classify pair.first, Line.line_of_classify pair.second]
  omega

theorem steps :
    ((p.step env n a).1.step env (n + 1) b).1.Mirrors n ((p.step env n b).1.step env (n + 1) a).1 ∧
      (p.step env n b).2 = ((p.step env n a).1.step env (n + 1) b).2.map (Diagnostic.moved n) ∧
      ((p.step env n b).1.step env (n + 1) a).2 = (p.step env n a).2.map (Diagnostic.moved n) := by
  have up : movedLine n n = n + 1 := by simp [movedLine]
  have down : movedLine n (n + 1) = n := by simp [movedLine]
  have first' := Line.classify_moved n pair.first
  have second' := Line.classify_moved n pair.second
  rw [up] at first'
  rw [down] at second'
  have outside (s : Option Setting) : (p.take env s).1.blocks.inText = false := by
    rw [blocks_take, pair.outside]
  have forth := pair.forth
  have back := pair.back
  unfold Indifferent at forth back
  rw [setting_eq] at forth back
  obtain ⟨noted, found⟩ := forth
  obtain ⟨noted', found'⟩ := back
  have above := step_taken env pair.outside pair.first
  have below := step_taken env (outside (p.reading env name value).1) pair.second
  have above' := step_taken env pair.outside second'
  rw [reading_moved] at above'
  have below' :=
    step_taken env (outside ((p.reading env name' value').1.map (Setting.moved n))) first'
  rw [reading_moved, (pair.before.mirrors.take env (Setting.map_note_moved n _)).1.reading env]
    at below'
  obtain ⟨mirrors, reports, reports'⟩ := pair.before.take_comm env
    (s := (p.reading env name value).1)
    (t := ((p.take env (p.reading env name value).1).1.reading env name' value').1)
    (fun s read t read' => by
      obtain ⟨t', read', same⟩ := Option.map_eq_some_iff.mp
        (noted.symm.trans (congrArg (Option.map Setting.note) read'))
      have face : t'.face = t.face := congrArg Prod.fst same
      exact face ▸ pair.apart read read')
    ((Setting.map_note_moved n _).trans (Setting.map_movedNote noted' n))
    ((Setting.map_note_moved n _).trans (Setting.map_movedNote noted.symm n))
  rw [above, above', below, below']
  refine ⟨mirrors, ?_, ?_⟩
  · dsimp only
    rw [reports, found, blocks_take, List.map_append, ← Block.Stack.checkReferences_moved, down,
      List.map_append]
  · dsimp only
    rw [reports', found', blocks_take, List.map_append, ← Block.Stack.checkReferences_moved, up,
      List.map_append]

theorem run_exchange :
    (p.run env n [a, b]).1.Mirrors n (p.run env n [b, a]).1 ∧
      ByLine ((p.run env n [a, b]).2.map (Diagnostic.moved n)) (p.run env n [b, a]).2 := by
  obtain ⟨mirrors, reports, reports'⟩ := pair.steps
  have outside : (p.step env n a).1.blocks.inText = false := by
    rw [step_taken env pair.outside pair.first, blocks_take, pair.outside]
  have lines := line_of_setting env pair.outside pair.first
  have lines' := line_of_setting env outside pair.second
  have onLine {ds : List Diagnostic} {no : Nat} (all : ∀ d ∈ ds, d.range.start.line = no) :
      ∀ d ∈ ds.map (Diagnostic.moved n), d.range.start.line = movedLine n no := by
    simp only [List.forall_mem_map]
    exact fun d member => congrArg (movedLine n) (all d member)
  rw [run_pair, run_pair]
  refine ⟨mirrors, ?_⟩
  dsimp only
  rw [List.map_append, reports, reports']
  exact ByLine.comm (by simp [movedLine]) (onLine lines) (onLine lines')

end Pair

end Pass

/-! ## Documents -/

theorem Pass.before_run (env : Environment) (lines : List String) :
    (Pass.run env {} 0 lines).1.Before lines.length ∧
      ∀ d ∈ (Pass.run env {} 0 lines).2, d.At (Span.Away lines.length) := by
  have empty : Pass.Keeps (Span.Away lines.length) {} := Pass.keeps_empty
  obtain ⟨kept, blocks, found⟩ := Pass.run_at env empty (by simp [Block.Stack.Keeps]) 0 lines
    fun i text at_ s onLine => Span.away_of_lt (by
      have bound := (List.getElem?_eq_some_iff.mp at_).1
      have here := onLine.slices.1
      omega)
  refine ⟨⟨kept, blocks, ?_⟩, found⟩
  cases (Pass.run_continues env Pass.linked_empty lines).linked with
  | settled free agrees => exact agrees.shaped
  | pending current levels line agrees entered => exact agrees.shaped

theorem reports_exchange {env : Environment} {before : List String} {a b : String}
    {name value name' value' : Span}
    (pair : (Pass.run env {} 0 before).1.Pair env before.length a b name value name' value')
    (after : List String) :
    ByLine ((reports env (before ++ a :: b :: after)).map (Diagnostic.moved before.length))
      (reports env (before ++ b :: a :: after)) := by
  have unread := Pass.unread_run env Pass.unread_empty 0 before
  have whole (a b : String) : reports env (before ++ a :: b :: after) =
      (Pass.run env {} 0 before).2 ++
        (((Pass.run env {} 0 before).1.run env before.length [a, b]).2 ++
        ((Pass.run env {} 0 before).1.run env before.length [a, b]).1.reportsFrom env
          (before.length + 2) after) := by
    change Pass.reportsFrom env {} 0 (before ++ ([a, b] ++ after)) = _
    rw [Pass.reportsFrom_append, Pass.reportsFrom_append, Nat.zero_add]
    rfl
  obtain ⟨mirrors, found⟩ := pair.run_exchange
  rw [whole, whole, List.map_append, List.map_append,
    map_moved_of_at (Pass.before_run env before).2]
  refine (ByLine.refl _).append (found.append ?_)
  exact mirrors.reportsFrom env (Pass.unread_run env unread _ _) (Pass.unread_run env unread _ _)
    (Nat.le_refl _) after

/-- Two neighbouring settings with different names change places. If neither changes how the other
is read, the diagnostics are the same but for their lines and their order. One can change how the
other is read only as the type of a widget for which the other has a form of its own, or as the zone
of a date. -/
theorem validate_exchange (catalog : Catalog) (options : Options) (present : WallClock)
    {text other : String} {before after : List String} {a b : String}
    {name value name' value' : Span}
    (lines : Document.lines text = before ++ a :: b :: after)
    (swapped : Document.lines other = before ++ b :: a :: after)
    (first : Line.classify before.length a = .setting name value)
    (second : Line.classify (before.length + 1) b = .setting name' value') :
    let env : Environment := ⟨catalog, options, options.now.getD present⟩
    let p := (Pass.run env {} 0 before).1
    p.blocks.inText = false →
    (∀ d d', catalog.resolve name.text p.scope = .known d →
      catalog.resolve name'.text p.scope = .known d' → d.name ≠ d'.name) →
    (p.Indifferent env name value name' value' → p.Indifferent env name' value' name value →
      ((validate catalog options present text).map (Diagnostic.moved before.length)).Perm
          (validate catalog options present other) ∧
        ((validate catalog options present text).map fun d => (d.code, d.message)).Perm
          ((validate catalog options present other).map fun d => (d.code, d.message))) ∧
      (p.Indifferent env name value name' value' ∨ p.Governs env name name') ∧
      (p.Indifferent env name' value' name value ∨ p.Governs env name' name) := by
  intro env p outside differ
  refine ⟨?_, p.indifferent_or_governs env name value name' value',
    p.indifferent_or_governs env name' value' name value⟩
  intro forth back
  have pair : p.Pair env before.length a b name value name' value' :=
    ⟨(Pass.before_run env before).1, outside, first, second, differ, forth, back⟩
  have same := reports_exchange pair after
  rw [← lines, ← swapped] at same
  have moved := same.finish options.source
  refine ⟨moved, ?_⟩
  have pairs := moved.map fun d => (d.code, d.message)
  rw [List.map_map] at pairs
  exact pairs

def pieCatalog : Catalog where
  descriptors :=
    [{ name := "title", type := .string }, { name := "type", type := .string },
      { name := "mode", type := .enum, options := ["stack"],
        overrides := [⟨.equals .widget "pie", { options := some ["pie", "ring"] }⟩] }]

/-- A title that is declared again, and the type on which the mode after it depends. -/
theorem validate_exchange_title :
    (validate pieCatalog {} ⟨0, by decide, by decide⟩
        "[widget]\ntitle = a\ntitle = b\ntype = pie\nmode = stack").length = 4 ∧
      ((validate pieCatalog {} ⟨0, by decide, by decide⟩
          "[widget]\ntitle = a\ntitle = b\ntype = pie\nmode = stack").map (Diagnostic.moved 2)).Perm
        (validate pieCatalog {} ⟨0, by decide, by decide⟩
          "[widget]\ntitle = a\ntype = pie\ntitle = b\nmode = stack") := by
  refine ⟨by decide, ?_⟩
  obtain ⟨same, forth, back⟩ := @validate_exchange pieCatalog {} ⟨0, by decide, by decide⟩
    "[widget]\ntitle = a\ntitle = b\ntype = pie\nmode = stack"
    "[widget]\ntitle = a\ntype = pie\ntitle = b\nmode = stack"
    ["[widget]", "title = a"] ["mode = stack"] "title = b" "type = pie"
    ⟨"title", 2, 0, 5⟩ ⟨"b", 2, 8, 9⟩ ⟨"type", 3, 0, 4⟩ ⟨"pie", 3, 7, 10⟩
    (by decide) (by decide) (by decide) (by decide) (by decide)
    (by
      intro d d' known known'
      cases known
      cases known'
      decide)
  refine (same (forth.resolve_right ?_) (back.resolve_right ?_)).1
  · rintro ⟨d, known, ⟨type, -⟩ | ⟨zone, -⟩⟩
    · cases known
      exact absurd type (by decide)
    · cases known
      exact absurd zone (by decide)
  · rintro ⟨d, known, ⟨-, d', found, several⟩ | ⟨zone, -⟩⟩
    · cases found
      exact several rfl
    · cases known
      exact absurd zone (by decide)

/-- A mode is fine in front of the type that does not have it, and reported after it. -/
theorem validate_mode_before_type :
    Document.lines "[widget]\nmode = stack\ntype = pie" =
      ["[widget]", "mode = stack", "type = pie"] ∧
      Document.lines "[widget]\ntype = pie\nmode = stack" =
        ["[widget]", "type = pie", "mode = stack"] ∧
      Line.classify 1 "mode = stack" = .setting ⟨"mode", 1, 0, 4⟩ ⟨"stack", 1, 7, 12⟩ ∧
      Line.classify 2 "type = pie" = .setting ⟨"type", 2, 0, 4⟩ ⟨"pie", 2, 7, 10⟩ ∧
      ¬ ((validate pieCatalog {} ⟨0, by decide, by decide⟩ "[widget]\nmode = stack\ntype = pie").map
          fun d => (d.code, d.message)).Perm
        ((validate pieCatalog {} ⟨0, by decide, by decide⟩ "[widget]\ntype = pie\nmode = stack").map
          fun d => (d.code, d.message)) := by
  decide

end ChartLint
