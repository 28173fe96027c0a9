import Mathlib.Data.List.Flatten
import Mathlib.Data.List.Induction
import ChartLint.Proofs.Diagnostic.Exchange
import ChartLint.Proofs.Rule.Companion
import ChartLint.Proofs.Validation.Inheritance
import ChartLint.Proofs.Validation.Repetitions

/-!
# Missing companions in a document

The rules run on the tree of a document, and of all that is reported at one place in the same words
only the first is kept. So a rule that reports a declaration in many sections is heard once, if
nothing else at that place is worded like it and no other declaration has the place.

The first is a matter of the line that the declaration stands on: `Pass.setting_wording`. The second
is an invariant of the pass, `Pass.Traced`: the settings come from lines of their own, in their
order.

* `Pass.contents_step` and `Pass.traced_run`: one line, and all lines.
* `companion_reports`: the main statement.
-/

namespace ChartLint

/-! ## Where the settings of the tree come from -/

abbrev Contents := List (SectionKind × List Span)

def SectionNode.contents (n : SectionNode) : SectionKind × List Span :=
  (n.kind, n.settings.map Setting.name)

def PendingSection.contents (s : PendingSection) : SectionKind × List Span :=
  (s.kind, s.settings.map fun entry => entry.1.name)

def SectionTree.contents (t : SectionTree) : Contents :=
  t.nodes.toList.map SectionNode.contents

def Pass.contents (p : Pass) : Contents :=
  p.tree.contents ++ p.pending.toList.map PendingSection.contents

namespace SectionTree

theorem getElem?_contents (t : SectionTree) (id : Nat) :
    t.contents[id]? = (t.node? id).map SectionNode.contents := by
  rw [contents, List.getElem?_map, Array.getElem?_toList, node?]

theorem length_contents (t : SectionTree) : t.contents.length = t.size := by
  rw [contents, List.length_map, Array.length_toList, size]

theorem contents_attach (t : SectionTree) (header : Span) (kind : SectionKind)
    (settings : List Setting)
    (parent : Option Nat) :
    (t.attach header kind settings parent).contents =
      t.contents ++ [(kind, settings.map Setting.name)] := by
  apply List.ext_getElem?
  intro id
  rw [getElem?_contents, node?_attach]
  split
  · rename_i new
    rw [new, ← length_contents, List.getElem?_concat_length]
    rfl
  · rename_i other
    rw [Option.map_map]
    have same : (t.node? id).map (SectionNode.contents ∘ fun n =>
        if parent = some id then { n with children := n.children ++ [t.size] } else n) =
        (t.node? id).map SectionNode.contents := by
      congr 1
      funext n
      simp only [Function.comp_apply]
      split <;> rfl
    rw [same, ← getElem?_contents, List.getElem?_append]
    split
    · rfl
    · rename_i beyond
      rw [length_contents] at beyond
      rw [List.getElem?_eq_none (by rw [length_contents]; omega),
        List.getElem?_eq_none (by rw [length_contents, List.length_singleton]; omega)]

theorem contents_add (t : SectionTree) (header : Span) (kind : SectionKind)
    (settings : List Setting) :
    (t.add header kind settings).1.contents.Sublist
      (t.contents ++ [(kind, settings.map Setting.name)]) := by
  rcases t.add_cases header kind settings with ⟨-, same⟩ | ⟨p, -, -, same⟩ | ⟨-, -, same⟩
  · rw [same, contents_attach]
  · rw [same, contents_attach]
  · rw [same]
    exact List.sublist_append_left _ _

end SectionTree

theorem SectionKind.ofName?_name (kind : SectionKind) : ofName? kind.name = some kind := by
  cases kind <;> decide

theorem Catalog.isFreeForm_of_resolve {c : Catalog} {name : String} {kind : SectionKind}
    {widget : Option String} {d : Descriptor}
    (resolved : c.resolve name ⟨kind.name, widget⟩ = .known d) :
    kind.isFreeForm = false := by
  unfold resolve at resolved
  dsimp only at resolved
  split_ifs at resolved with exempt
  rw [Resolution.isExempt, Bool.or_eq_true, not_or, Resolution.isFreeForm,
    SectionKind.ofName?_name] at exempt
  exact Bool.not_eq_true _ ▸ exempt.2

namespace Pass

variable {p : Pass} {no : Nat} (env : Environment)

theorem contents_flush (p : Pass) : p.flush.contents.Sublist p.contents := by
  unfold flush
  cases pending : p.pending with
  | none => exact .refl _
  | some s =>
      have added := p.tree.contents_add s.header s.kind (s.settings.map Prod.fst)
      rw [List.map_map] at added
      simp only [contents, pending, Option.toList_none, List.map_nil, List.append_nil]
      exact added

theorem contents_flush_tree (p : Pass) : p.flush.contents = p.flush.tree.contents := by
  rw [contents, pending_flush, Option.toList_none, List.map_nil, List.append_nil]

theorem contents_header (p : Pass) (name : Span) :
    ∃ fresh : Contents, (p.header env name).1.contents.Sublist (p.contents ++ fresh) ∧
      ∀ o ∈ fresh, o.2 = [] := by
  cases known : SectionKind.ofName? name.text with
  | none =>
      refine ⟨[], ?_, by simp⟩
      rw [header_unknown env known, List.append_nil]
      exact contents_flush p
  | some kind =>
      refine ⟨[(kind, [])], ?_, by simp⟩
      rw [header_known env known]
      have part := contents_flush p
      rw [contents_flush_tree] at part
      exact part.append (.refl _)

theorem contents_addValue (s : PendingSection) (name : String) (arm : Nat) (value : Span) :
    (s.addValue name arm value).contents = s.contents := by
  unfold PendingSection.contents PendingSection.addValue
  rw [List.map_map]
  congr 2
  funext entry
  simp only [Function.comp_apply]
  split <;> rfl

theorem contents_declare (p : Pass) (s : Setting) :
    (p.declare env s).1.contents = p.contents ∨
      ∃ current, p.pending = some current ∧
        (p.declare env s).1.contents =
          p.tree.contents ++ [(current.kind, current.contents.2 ++ [s.name])] := by
  unfold declare
  cases pending : p.pending with
  | none => exact .inl rfl
  | some current =>
      dsimp only
      cases current.earlier? s.descriptor.name p.blocks.arm with
      | some earlier =>
          left
          dsimp only
          split
          · simp [contents, pending, contents_addValue]
          · rfl
      | none =>
          right
          refine ⟨current, rfl, ?_⟩
          simp [contents, PendingSection.contents, PendingSection.add]

theorem contents_setting (p : Pass) (name value : Span) :
    (p.setting env name value).1.contents = p.contents ∨
      ∃ current, p.pending = some current ∧ current.kind.isFreeForm = false ∧
        (p.setting env name value).1.contents =
          p.tree.contents ++ [(current.kind, current.contents.2 ++ [name])] := by
  unfold setting
  split
  · exact .inl rfl
  · cases resolved : env.catalog.resolve name.text p.scope with
    | exempt => exact .inl rfl
    | unknown => exact .inl rfl
    | known descriptor =>
        dsimp only
        obtain ⟨date, checked⟩ := checkSetting_fst env p { descriptor, name, value }
        rcases contents_declare env p (p.checkSetting env { descriptor, name, value }).1 with
          same | ⟨current, pending, entered⟩
        · exact .inl same
        · right
          refine ⟨current, pending, ?_, ?_⟩
          · rw [scope, pending] at resolved
            exact Catalog.isFreeForm_of_resolve resolved
          · rw [entered, checked]

theorem contents_step (p : Pass) (no : Nat) (text : String) :
    (∃ fresh : Contents, (p.step env no text).1.contents.Sublist (p.contents ++ fresh) ∧
        ∀ o ∈ fresh, o.2 = []) ∨
      ∃ name value current, Line.classify no text = .setting name value ∧
        p.blocks.inText = false ∧ p.pending = some current ∧ current.kind.isFreeForm = false ∧
        (p.step env no text).1.contents =
          p.tree.contents ++ [(current.kind, current.contents.2 ++ [name])] := by
  have unchanged {q : Pass} (same : q.contents = p.contents) :
      ∃ fresh : Contents, q.contents.Sublist (p.contents ++ fresh) ∧ ∀ o ∈ fresh, o.2 = [] :=
    ⟨[], by rw [same, List.append_nil], by simp⟩
  cases outside : p.blocks.inText with
  | true =>
      left
      apply unchanged
      rw [step, outside]
      rfl
  | false =>
      cases line : Line.classify no text with
      | header name =>
          left
          rw [step_header env outside line]
          exact contents_header env p name
      | setting name value =>
          rw [step_setting outside line]
          rcases contents_setting env p name value with same | ⟨current, pending, form, entered⟩
          · exact .inl (unchanged same)
          · exact .inr ⟨name, value, current, rfl, rfl, pending, form, entered⟩
      | _ =>
          left
          apply unchanged
          rw [step, line, outside]
          rfl

/-- The settings come from lines with a property, one from each, in the order of the document, and
only sections that take settings of the catalog have any. -/
structure Traced (source : Span → Prop) (no : Nat) (contents : Contents) : Prop where
  form : ∀ o ∈ contents, o.2 ≠ [] → o.1.isFreeForm = false
  source : ∀ o ∈ contents, ∀ name ∈ o.2, source name ∧ name.line < no
  order : (contents.flatMap Prod.snd).Pairwise fun name later => name.line < later.line

section Traced

variable {source : Span → Prop} {sections sections' : Contents}

theorem Traced.sublist (traced : Traced source no sections) (part : sections'.Sublist sections) :
    Traced source no sections' where
  form o member := traced.form o (part.subset member)
  source o member := traced.source o (part.subset member)
  order := traced.order.sublist (part.flatMap _)

theorem Traced.append (traced : Traced source no sections) {fresh : Contents}
    (empty : ∀ o ∈ fresh, o.2 = []) : Traced source no (sections ++ fresh) where
  form := by
    rw [List.forall_mem_append]
    exact ⟨traced.form, fun o member filled => absurd (empty o member) filled⟩
  source := by
    rw [List.forall_mem_append]
    refine ⟨traced.source, fun o member name inside => ?_⟩
    rw [empty o member] at inside
    cases inside
  order := by
    have none_ : fresh.flatMap Prod.snd = [] := List.flatMap_eq_nil_iff.mpr empty
    rw [List.flatMap_append, none_, List.append_nil]
    exact traced.order

theorem Traced.mono (traced : Traced source no sections) {source' : Span → Prop} {no' : Nat}
    (weaker : ∀ name, source name → source' name) (later : no ≤ no') :
    Traced source' no' sections where
  form := traced.form
  source o member name inside :=
    ⟨weaker name (traced.source o member name inside).1,
      Nat.lt_of_lt_of_le (traced.source o member name inside).2 later⟩
  order := traced.order

theorem Traced.enter {kind : SectionKind} {names : List Span} {name : Span}
    (traced : Traced source no (sections ++ [(kind, names)])) (form : kind.isFreeForm = false)
    (sourced : source name) (line : name.line = no) :
    Traced source (no + 1) (sections ++ [(kind, names ++ [name])]) where
  form := by
    rw [List.forall_mem_append]
    refine ⟨fun o member => traced.form o (List.mem_append_left _ member), ?_⟩
    intro o member _
    rw [List.mem_singleton.mp member]
    exact form
  source := by
    have old := traced.mono (fun _ holds => holds) (Nat.le_succ no)
    rw [List.forall_mem_append]
    refine ⟨fun o member => old.source o (List.mem_append_left _ member), ?_⟩
    intro o member n inside
    rw [List.mem_singleton.mp member] at inside
    rcases List.mem_append.mp inside with earlier | new
    · exact old.source (kind, names) (by simp) n earlier
    · rw [List.mem_singleton.mp new, line]
      exact ⟨sourced, Nat.lt_succ_self no⟩
  order := by
    have split : (sections ++ [(kind, names ++ [name])]).flatMap Prod.snd =
        (sections ++ [(kind, names)]).flatMap Prod.snd ++ [name] := by simp
    rw [split, List.pairwise_append]
    refine ⟨traced.order, List.pairwise_singleton _ _, ?_⟩
    intro n member n' new
    obtain ⟨o, within, inside⟩ := List.mem_flatMap.mp member
    rw [List.mem_singleton.mp new, line]
    exact (traced.source o within n inside).2

end Traced

def Declares (lines : List String) (name : Span) : Prop :=
  ∃ before text after value, lines = before ++ text :: after ∧ name.line = before.length ∧
    Line.classify before.length text = .setting name value ∧
    (run env {} 0 before).1.blocks.inText = false

theorem Declares.concat {lines : List String} {name : Span} (declares : Declares env lines name)
    (last : String) : Declares env (lines ++ [last]) name := by
  obtain ⟨before, text, after, value, rfl, rest⟩ := declares
  exact ⟨before, text, after ++ [last], value, by simp, rest⟩

theorem traced_run (lines : List String) :
    Traced (Declares env lines) lines.length (run env {} 0 lines).1.contents := by
  induction lines using List.reverseRecOn with
  | nil =>
      exact ⟨by simp [run, contents, SectionTree.contents],
        by simp [run, contents, SectionTree.contents], .nil⟩
  | append_singleton lines last ih =>
      have old := ih.mono (fun _ declares => Declares.concat env declares last) (Nat.le_refl _)
      have next : (run env {} 0 (lines ++ [last])).1 =
          ((run env {} 0 lines).1.step env lines.length last).1 := by
        rw [run_append, Nat.zero_add]
        rfl
      rw [next, List.length_append, List.length_singleton]
      rcases contents_step env (run env {} 0 lines).1 lines.length last with
        ⟨fresh, part, empty⟩ | ⟨name, value, current, line, outside, pending, form, entered⟩
      · exact ((old.append empty).sublist part).mono (fun _ holds => holds) (Nat.le_succ _)
      · have declares : Declares env (lines ++ [last]) name :=
          ⟨lines, last, [], value, rfl, Line.line_of_classify line, line, outside⟩
        rw [contents, pending] at old
        rw [entered]
        exact Traced.enter old form declares (Line.line_of_classify line)

theorem traced_sectionTree (lines : List String) :
    Traced (Declares env lines) lines.length (sectionTree env lines).contents := by
  have traced := (traced_run env lines).sublist (contents_flush _)
  rwa [contents_flush_tree] at traced

theorem Traced.node {source : Span → Prop} {t : SectionTree} (traced : Traced source no t.contents)
    {id : Nat} {n : SectionNode} (node : t.node? id = some n) {s : Setting}
    (member : s ∈ n.settings) :
    n.kind.isFreeForm = false ∧ source s.name := by
  have within : n.contents ∈ t.contents := by
    apply List.mem_of_getElem?
    rw [SectionTree.getElem?_contents, node]
    rfl
  have named : s.name ∈ n.contents.2 := List.mem_map_of_mem member
  exact ⟨traced.form _ within (List.ne_nil_of_mem named), (traced.source _ within _ named).1⟩

theorem Traced.eq_of_line {source : Span → Prop} {t : SectionTree}
    (traced : Traced source no t.contents)
    {id id' : Nat} {n n' : SectionNode} (node : t.node? id = some n) (node' : t.node? id' = some n')
    {s s' : Setting} (member : s ∈ n.settings) (member' : s' ∈ n'.settings)
    (same : s.name.line = s'.name.line) : id = id' := by
  have ordered {i j : Nat} {m m' : SectionNode} (first : t.node? i = some m)
      (second : t.node? j = some m') (before : i < j) {a b : Setting} (inside : a ∈ m.settings)
      (inside' : b ∈ m'.settings) : a.name.line < b.name.line := by
    have apart := List.pairwise_iff_getElem.mp (List.pairwise_flatMap.mp traced.order).2
    have at_ : t.contents[i]? = some m.contents := by rw [SectionTree.getElem?_contents, first]; rfl
    have at_' : t.contents[j]? = some m'.contents := by
      rw [SectionTree.getElem?_contents, second]
      rfl
    obtain ⟨bound, here⟩ := List.getElem?_eq_some_iff.mp at_
    obtain ⟨bound', there⟩ := List.getElem?_eq_some_iff.mp at_'
    apply apart i j bound bound' before
    · rw [here]
      exact List.mem_map_of_mem inside
    · rw [there]
      exact List.mem_map_of_mem inside'
  by_contra other
  rcases Nat.lt_or_gt_of_ne other with before | after
  · exact Nat.ne_of_lt (ordered node node' before member member') same
  · exact Nat.ne_of_gt (ordered node' node after member' member) same

/-! ## What is reported on another line -/

def Apart (line : Nat) (d : Diagnostic) : Prop :=
  d.range.start.line ≠ line

theorem apart_of_at {line : Nat} {d : Diagnostic} (at_ : d.At fun s => s.line ≠ line) :
    Apart line d := by
  obtain ⟨s, away, range⟩ := at_.range
  rw [Apart, range]
  exact away

section Apart

variable {line : Nat} (path : OpenPath.Keeps (fun s => s.line ≠ line) p.path.levels)
include path

theorem header_apart {name : Span} (away : name.line ≠ line) :
    OpenPath.Keeps (fun s => s.line ≠ line) (p.header env name).1.path.levels ∧
      ∀ d ∈ (p.header env name).2, Apart line d := by
  rw [← path_flush] at path
  have pushed := OpenPath.push_reports env.catalog p.flush.path name path away
  cases known : SectionKind.ofName? name.text with
  | none =>
      rw [OpenPath.push_unknown env.catalog _ known] at pushed
      rw [header_unknown env known]
      exact ⟨pushed.1, fun d member => apart_of_at (pushed.2 d member).at_place⟩
  | some kind =>
      rw [OpenPath.push_known env.catalog _ known] at pushed
      rw [header_known env known]
      exact ⟨pushed.1, fun d member => apart_of_at (pushed.2 d member).at_place⟩

theorem setting_path (name value : Span) :
    OpenPath.Keeps (fun s => s.line ≠ line) (p.setting env name value).1.path.levels := by
  have declared (s : Setting) :
      OpenPath.Keeps (fun s => s.line ≠ line) (p.declare env s).1.path.levels := by
    unfold declare
    split
    · exact path
    · dsimp only
      split
      · split
        · exact path
        · exact path
      · exact OpenPath.declare_keeps env.catalog p.path _ _ path
  unfold setting
  split
  · exact path
  · split
    · exact path
    · exact path
    · exact declared _

theorem sectionStep_apart (other : no ≠ line) {l : Line} (onLine : l.Keeps fun s => s.line = no) :
    OpenPath.Keeps (fun s => s.line ≠ line) (p.sectionStep env l).1.path.levels ∧
      ∀ d ∈ (p.sectionStep env l).2, Apart line d := by
  cases l with
  | header name =>
      have place : name.line = no := onLine
      exact header_apart env path (place ▸ other)
  | setting name value =>
      rw [sectionStep]
      refine ⟨setting_path env path name value, fun d member => ?_⟩
      have place : d.range.start.line = no := setting_line env onLine.1 onLine.2 d member
      rw [Apart, place]
      exact other
  | _ => exact ⟨path, by simp [sectionStep]⟩

theorem step_apart (blocks : p.blocks.Keeps fun s => s.line ≠ line) (other : no ≠ line)
    (text : String) :
    OpenPath.Keeps (fun s => s.line ≠ line) (p.step env no text).1.path.levels ∧
      (p.step env no text).1.blocks.Keeps (fun s => s.line ≠ line) ∧
      ∀ d ∈ (p.step env no text).2, Apart line d := by
  have pieces := Line.pieces_classify no text
  have here : ∀ s : Span, s.OnLine no text.toList → s.line ≠ line :=
    fun s onLine => onLine.slices.1 ▸ other
  have onLine : (Line.classify no text).Keeps fun s => s.line = no :=
    Line.keeps_of_pieces (fun s onLine => onLine.slices.1) pieces
  obtain ⟨opened, found⟩ := Block.Stack.step_at blocks here pieces
  have reported : ∀ d ∈ (p.blocks.step no text.toList (Line.classify no text)).2, Apart line d :=
    fun d member => apart_of_at (found d member)
  unfold step
  dsimp only
  generalize p.blocks.step no text.toList (Line.classify no text) = after at opened reported ⊢
  split
  · exact ⟨path, opened, reported⟩
  · obtain ⟨kept, others⟩ :=
      sectionStep_apart (p := { p with blocks := after.1 }) env path other onLine
    refine ⟨kept, ?_, List.forall_mem_append.mpr ⟨reported, others⟩⟩
    rw [blocks_sectionStep]
    exact opened

theorem run_apart (blocks : p.blocks.Keeps fun s => s.line ≠ line) (later : line < no)
    (lines : List String) :
    OpenPath.Keeps (fun s => s.line ≠ line) (p.run env no lines).1.path.levels ∧
      (p.run env no lines).1.blocks.Keeps (fun s => s.line ≠ line) ∧
      ∀ d ∈ (p.run env no lines).2, Apart line d := by
  induction lines generalizing p no with
  | nil => exact ⟨path, blocks, by simp [run]⟩
  | cons text lines ih =>
      obtain ⟨kept, opened, found⟩ := step_apart env path blocks (Nat.ne_of_gt later) text
      obtain ⟨kept', opened', others⟩ := ih kept opened (Nat.lt_succ_of_lt later)
      exact ⟨kept', opened', List.forall_mem_append.mpr ⟨found, others⟩⟩

end Apart

def rules (env : Environment) : List Rule :=
  Rule.all.filter fun rule => env.options.isEnabled rule.name

theorem mem_run_of_mem_finish {line : Nat}
    (path : OpenPath.Keeps (fun s => s.line ≠ line) p.path.levels)
    (blocks : p.blocks.Keeps fun s => s.line ≠ line) {d : Diagnostic} (member : d ∈ p.finish env)
    (here : d.range.start.line = line) :
    d ∈ Rule.run env.ruleContext (rules env) p.flush.tree := by
  unfold finish at member
  rcases List.mem_append.mp member with closed | ruled
  · rcases List.mem_append.mp closed with sections | unclosed
    · have found := OpenPath.finish_reports env.catalog _ path d sections
      exact absurd here (apart_of_at found.at_place)
    · exact absurd here (apart_of_at (Block.Stack.finish_at blocks d unclosed))
  · exact ruled

/-- What is reported on the line of a setting is found when the line is read, or by the rules. -/
theorem mem_step_or_mem_run {before after : List String} {text : String} {name value : Span}
    (classified : Line.classify before.length text = .setting name value)
    (outside : (run env {} 0 before).1.blocks.inText = false) {d : Diagnostic}
    (member : d ∈ reports env (before ++ text :: after))
    (line : d.range.start.line = before.length) :
    d ∈ ((run env {} 0 before).1.setting env name value).2 ∨
      (∃ name, d.message = (Problem.unknownName name).message) ∨
      d ∈ Rule.run env.ruleContext (rules env)
        (sectionTree env (before ++ text :: after)) := by
  have empty : Pass.Keeps (fun s => s.line ≠ before.length) {} := keeps_empty
  obtain ⟨kept, blocks, early⟩ := run_at env empty (by simp [Block.Stack.Keeps]) 0 before
    (fun i text at_ s onLine => by
      have bound := (List.getElem?_eq_some_iff.mp at_).1
      have here := onLine.slices.1
      omega)
  have whole : run env {} 0 (before ++ text :: after) =
      ((((run env {} 0 before).1.setting env name value).1.run env (before.length + 1) after).1,
        (run env {} 0 before).2 ++
          ((run env {} 0 before).1.blocks.checkReferences before.length text.toList ++
          ((run env {} 0 before).1.setting env name value).2 ++
          (((run env {} 0 before).1.setting env name value).1.run env
            (before.length + 1) after).2)) := by
    rw [run_append, Nat.zero_add, run, step_setting outside classified]
  generalize (run env {} 0 before).1 = p at *
  have path := setting_path env kept.path name value
  have opened : (p.setting env name value).1.blocks.Keeps fun s => s.line ≠ before.length := by
    have same := blocks_sectionStep (p := p) env (.setting name value)
    rw [sectionStep] at same
    rw [same]
    exact blocks
  obtain ⟨kept', blocks', late⟩ := run_apart env path opened (Nat.lt_succ_self _) after
  have tree : sectionTree env (before ++ text :: after) =
      ((p.setting env name value).1.run env (before.length + 1) after).1.flush.tree := by
    rw [sectionTree, whole]
  rw [reports, whole] at member
  dsimp only at member
  rw [tree]
  have away {ds : List Diagnostic} (all : ∀ d ∈ ds, Apart before.length d) : d ∉ ds :=
    fun within => all d within line
  rcases List.mem_append.mp member with read | finished
  · rcases List.mem_append.mp read with earlier | read
    · exact absurd earlier (away fun d member => apart_of_at (early d member))
    · rcases List.mem_append.mp read with here | later
      · rcases List.mem_append.mp here with referred | declared
        · exact .inr (.inl (message_checkReferences referred))
        · exact .inl declared
      · exact absurd later (away late)
  · exact .inr (.inr (mem_run_of_mem_finish env kept' blocks' finished line))

theorem setting_wording {name value : Span} (order : name.start < value.start) {d : Diagnostic}
    (member : d ∈ (p.setting env name value).2) (range : d.range = name.range) :
    isPlain d.message = false ∨ (∃ other, d.message = (Problem.emptyValue other).message) ∨
      ∃ other, d.message = (Problem.repeatedSetting other).message := by
  unfold setting at member
  split at member
  · cases member
  · cases resolved : env.catalog.resolve name.text p.scope with
    | exempt =>
        rw [resolved] at member
        cases member
    | unknown =>
        rw [resolved] at member
        rw [List.mem_singleton.mp member]
        exact .inl (Problem.isPlain_unknownSetting _ _)
    | known descriptor =>
        rw [resolved] at member
        dsimp only at member
        rcases List.mem_append.mp member with checked | declared
        · rcases checkSetting_at checked with ⟨place, -⟩ | ⟨notice, worded⟩ | worded
          · have starts : name.start = value.start :=
              congrArg (fun r => r.start.column) (range.symm.trans place)
            exact absurd starts (Nat.ne_of_lt order)
          · rw [worded]
            exact .inl (Problem.isPlain_deprecatedSetting _ _)
          · exact .inr (.inl ⟨_, worded⟩)
        · obtain ⟨earlier, rfl, -⟩ := declare_of_mem declared
          exact .inr (.inr ⟨_, rfl⟩)

end Pass

/-! ## The whole document -/

namespace Diagnostic

theorem firsts_of_eq {ds : List Diagnostic} {d : Diagnostic} (same : ∀ e ∈ ds, e = d)
    (member : d ∈ ds) :
    firsts ds = [d] := by
  cases ds with
  | nil => cases member
  | cons a ds =>
      obtain ⟨rfl, others⟩ := List.forall_mem_cons.mp same
      rw [firsts_cons, List.filter_eq_nil_iff.mpr]
      intro e later
      rw [others e (mem_of_mem_firsts later)]
      simp

theorem filter_finish_of_key {ds : List Diagnostic} {d : Diagnostic}
    (unique : ∀ e ∈ ds, e.key = d.key → e = d) (source : String) :
    (finish source ds).filter (fun e => e.key == d.key) =
      if d ∈ ds then [{ d with source }] else [] := by
  have byKey (a b : Diagnostic) (same : a.key = b.key) : (a.key == d.key) = (b.key == d.key) := by
    rw [same]
  have picked : ∀ e ∈ ds.filter (fun e => e.key == d.key), e = d := by
    intro e member
    obtain ⟨inside, same⟩ := List.mem_filter.mp member
    exact unique e inside (eq_of_beq same)
  have keys : (finish source ds).filter (fun e => e.key == d.key) =
      (firsts (ds.filter fun e => e.key == d.key)).map fun e => { e with source } := by
    rw [finish, List.filter_map, ← filter_firsts_of_key byKey]
    rfl
  rw [keys]
  split
  · rename_i member
    rw [firsts_of_eq picked (List.mem_filter.mpr ⟨member, beq_self_eq_true _⟩)]
    rfl
  · rename_i absent
    have none_ : ds.filter (fun e => e.key == d.key) = [] := by
      rw [List.filter_eq_nil_iff]
      intro e inside same
      exact absent (unique e inside (eq_of_beq same) ▸ inside)
    rw [none_]
    rfl

end Diagnostic

theorem SectionKind.mem_settingSections {kind : SectionKind} (form : kind.isFreeForm = false) :
    kind ∈ Rule.settingSections := by
  cases kind <;> first | decide | cases form

section Document

variable (env : Environment) {lines : List String} {rule : Rule} {dependent : String}
  {required : List String} (registered : rule ∈ Rule.all)
  (check : rule.check = .companion dependent [] required)
include registered check

theorem exists_checkCompanion_of_mem_reports {name : Span} (declares : Pass.Declares env lines name)
    {d : Diagnostic} (member : d ∈ reports env lines) (range : d.range = name.range)
    (worded : d.message = (Problem.missingCompanion dependent [] required).message) :
    ∃ id, d ∈ Rule.checkCompanion env.ruleContext (sectionTree env lines) id
      dependent [] required := by
  obtain ⟨before, text, after, value, rfl, line, classified, outside⟩ := declares
  have plain := Rule.isPlain_of_registered registered check
  rw [← worded] at plain
  have here : d.range.start.line = before.length := by
    rw [range]
    exact line
  rcases Pass.mem_step_or_mem_run env classified outside member here with
    read | ⟨other, unknown⟩ | ruled
  · rcases Pass.setting_wording env (Line.start_lt_of_setting classified) read range with
      odd | ⟨other, empty⟩ | ⟨other, again⟩
    · rw [plain] at odd
      cases odd
    · exact absurd (empty.symm.trans worded) (Problem.emptyValue_ne_missingCompanion _ _ _)
    · exact absurd (again.symm.trans worded) (Problem.repeatedSetting_ne_missingCompanion _ _ _)
  · rw [unknown, Problem.isPlain_unknownName] at plain
    cases plain
  · exact Rule.exists_checkCompanion_of_mem_run (fun r within => List.mem_of_mem_filter within)
      registered check ruled worded

section Declared

variable {o : Nat} {n : SectionNode} {s : Setting} (node : (sectionTree env lines).node? o = some n)
  (first : n.local? dependent = some s)
include node first

theorem eq_of_key {e : Diagnostic} (member : e ∈ reports env lines)
    (same : e.key = (Diagnostic.ofProblem (.missingCompanion dependent [] required) s.name).key) :
    e = .ofProblem (.missingCompanion dependent [] required) s.name ∧
      ¬ Rule.Accompanied (sectionTree env lines) o required := by
  have shaped := (scan_explained env lines).1
  have traced := Pass.traced_sectionTree env lines
  have inside : s ∈ n.settings := List.mem_of_find?_eq_some first
  have range : e.range = s.name.range := congrArg Prod.fst same
  obtain ⟨searched, -⟩ := Rule.searched_registered rule registered dependent (by rw [check]; rfl)
  obtain ⟨id, found⟩ := exists_checkCompanion_of_mem_reports env registered check
    (traced.node node inside).2 member range (congrArg Prod.snd same)
  obtain ⟨owner, n', s', -, node', first', alone, rfl⟩ :=
    (Rule.mem_checkCompanion_iff shaped _ searched required id e).mp found
  have inside' : s' ∈ n'.settings := List.mem_of_find?_eq_some first'
  have line : s'.name.line = s.name.line := congrArg (fun r => r.start.line) range
  obtain rfl := traced.eq_of_line node' node inside' inside line
  obtain rfl := Option.some.inj (node'.symm.trans node)
  obtain rfl := Option.some.inj (first'.symm.trans first)
  exact ⟨rfl, alone⟩

theorem mem_reports_of_alone (enabled : env.options.isEnabled rule.name = true)
    (alone : ¬ Rule.Accompanied (sectionTree env lines) o required) :
    .ofProblem (.missingCompanion dependent [] required) s.name ∈ reports env lines := by
  have shaped := (scan_explained env lines).1
  have inside : s ∈ n.settings := List.mem_of_find?_eq_some first
  obtain ⟨form, -⟩ := (Pass.traced_sectionTree env lines).node node inside
  obtain ⟨searched, kinds⟩ :=
    Rule.searched_registered rule registered dependent (by rw [check]; rfl)
  have looks : rule.looksAt (sectionTree env lines) o = true := by
    rw [Rule.looksAt, node, kinds]
    exact List.contains_iff_mem.mpr (SectionKind.mem_settingSections form)
  have declares : (sectionTree env lines).declaresAt dependent o = true := by
    rw [SectionTree.declaresAt_iff node]
    exact ⟨s, inside, by simpa using List.find?_some first⟩
  have found := (Rule.mem_checkCompanion_iff shaped env.ruleContext searched
    required o _).mpr ⟨o, n, s, SectionTree.declaring?_self shaped declares, node, first, alone,
      rfl⟩
  have chosen : rule ∈ Pass.rules env := List.mem_filter.mpr ⟨registered, enabled⟩
  apply List.mem_append_right
  apply List.mem_append_right
  exact Rule.mem_run_of_checkCompanion check chosen looks found

end Declared
end Document

/-- A rule without conditions has one report at the first declaration of a setting in a section if
none of the settings that it needs is declared in the section, around it or below it, and otherwise
none, in however many sections below the setting holds. -/
theorem companion_reports (env : Environment) {lines : List String} {rule : Rule}
    {dependent : String}
    {required : List String} (registered : rule ∈ Rule.all)
    (check : rule.check = .companion dependent [] required)
    (enabled : env.options.isEnabled rule.name = true) {o : Nat} {n : SectionNode} {s : Setting}
    (node : (sectionTree env lines).node? o = some n) (first : n.local? dependent = some s)
    (source : String) :
    let d := Diagnostic.ofProblem (.missingCompanion dependent [] required) s.name
    let kept := (Diagnostic.finish source (reports env lines)).filter fun e => e.key == d.key
    (Rule.Accompanied (sectionTree env lines) o required → kept = []) ∧
      (¬ Rule.Accompanied (sectionTree env lines) o required → kept = [{ d with source }]) := by
  intro d kept
  have unique : ∀ e ∈ reports env lines, e.key = d.key → e = d := fun e member same =>
    (eq_of_key env registered check node first member same).1
  have filtered : kept = if d ∈ reports env lines then [{ d with source }] else [] :=
    Diagnostic.filter_finish_of_key unique source
  rw [filtered]
  constructor
  · intro accompanied
    apply if_neg
    intro member
    exact (eq_of_key env registered check node first member rfl).2 accompanied
  · intro alone
    exact if_pos (mem_reports_of_alone env registered check node first enabled alone)

def alertEnvironment : Environment :=
  { seriesEnvironment with
    catalog :=
      { descriptors :=
          [{ name := "alert-style", type := .string },
            { name := "alert-expression", type := .string }] } }

/-- Two widgets have a style for alerts, and a series of the second one says when there is one. -/
def alertLines : List String :=
  ["[configuration]", "[group]", "[widget]", "alert-style = bold", "[series]", "[widget]",
   "alert-style = bold", "[series]", "alert-expression = value"]

theorem companion_reports_for_widgets :
    ∃ n s n' s', (sectionTree alertEnvironment alertLines).node? 2 = some n ∧
      n.local? "alert-style" = some s ∧ s.name = ⟨"alert-style", 3, 0, 11⟩ ∧
      (sectionTree alertEnvironment alertLines).node? 4 = some n' ∧
      n'.local? "alert-style" = some s' ∧ s'.name = ⟨"alert-style", 6, 0, 11⟩ ∧
      (let d := Diagnostic.ofProblem
        (.missingCompanion "alert-style" [] ["alert-expression"]) s.name
       (Diagnostic.finish "lint" (reports alertEnvironment alertLines)).filter
        (fun e => e.key == d.key) = [{ d with source := "lint" }]) ∧
      (let d := Diagnostic.ofProblem
        (.missingCompanion "alert-style" [] ["alert-expression"]) s'.name
       (Diagnostic.finish "lint" (reports alertEnvironment alertLines)).filter
        (fun e => e.key == d.key) = []) := by
  have declared (o : Nat) (place : Span)
      (found : (((sectionTree alertEnvironment alertLines).node? o).bind fun n =>
        (n.local? "alert-style").map Setting.name) = some place) :
      ∃ n s, (sectionTree alertEnvironment alertLines).node? o = some n ∧
        n.local? "alert-style" = some s ∧ s.name = place := by
    obtain ⟨n, node, local_⟩ := Option.bind_eq_some_iff.mp found
    obtain ⟨s, first, name⟩ := Option.map_eq_some_iff.mp local_
    exact ⟨n, s, node, first, name⟩
  have shaped := (scan_explained alertEnvironment alertLines).1
  have companion (o : Nat) := Rule.hasCompanion_iff shaped
    ((sectionTree alertEnvironment alertLines).mem_ancestors_self o) ["alert-expression"]
  have registered : Rule.companion "alert-style" "alert-style" [] ["alert-expression"] ∈
      Rule.all := by
    decide
  obtain ⟨n, s, node, first, name⟩ := declared 2 ⟨"alert-style", 3, 0, 11⟩ (by decide)
  obtain ⟨n', s', node', first', name'⟩ := declared 4 ⟨"alert-style", 6, 0, 11⟩ (by decide)
  refine ⟨n, s, n', s', node, first, name, node', first', name', ?_, ?_⟩
  · apply (companion_reports alertEnvironment registered rfl (by decide) node first "lint").2
    exact mt (companion 2).mpr (by decide)
  · apply (companion_reports alertEnvironment registered rfl (by decide) node' first' "lint").1
    exact (companion 4).mp (by decide)

end ChartLint
