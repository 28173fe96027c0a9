import ChartLint.Block.Stack
import ChartLint.Document.Lines
import ChartLint.Options.Basic
import ChartLint.Rule.Run
import ChartLint.Section.Path
import ChartLint.Setting.Check
import ChartLint.Setting.Resolution

/-!
# Validating a document

A document is read line by line. Each line is first a matter of the blocks around it; headers and
settings outside bodies of text are a matter of the sections too. When a section is complete it goes
into the section tree, and when the document is, the rules run on the tree.
-/

namespace ChartLint

structure Environment where
  catalog : Catalog
  options : Options
  now : WallClock

def Environment.ruleContext (env : Environment) : RuleContext where
  catalog := env.catalog
  now := env.now
  zone := env.options.zone
  zones := env.options.zones

/-- A section that is not yet complete, with the arm of each setting. -/
structure PendingSection where
  header : Span
  kind : SectionKind
  settings : List (Setting × Nat) := []

structure Pass where
  blocks : Block.Stack := {}
  path : OpenPath := {}
  tree : SectionTree := {}
  pending : Option PendingSection := none
  inUnknown : Bool := false

namespace PendingSection

def isSame (name : String) (arm : Nat) (entry : Setting × Nat) : Bool :=
  entry.2 == arm && entry.1.descriptor.name == name

def earlier? (s : PendingSection) (name : String) (arm : Nat) : Option Setting :=
  (s.settings.find? (isSame name arm)).map Prod.fst

def addValue (s : PendingSection) (name : String) (arm : Nat) (value : Span) : PendingSection :=
  { s with
    settings := s.settings.map fun entry =>
      if isSame name arm entry then (entry.1.addValue value, entry.2) else entry }

def add (s : PendingSection) (setting : Setting) (arm : Nat) : PendingSection :=
  { s with settings := s.settings ++ [(setting, arm)] }

end PendingSection

namespace Pass

def flush (p : Pass) : Pass :=
  match p.pending with
  | none => p
  | some s =>
    { p with
      tree := (p.tree.add s.header s.kind (s.settings.map Prod.fst)).1
      pending := none }

def header (env : Environment) (p : Pass) (name : Span) : Pass × List Diagnostic :=
  let p := p.flush
  match p.path.push env.catalog name with
  | (path, some kind, diagnostics) =>
    ({ p with path, pending := some { header := name, kind }, inUnknown := false }, diagnostics)
  | (path, none, diagnostics) => ({ p with path, inUnknown := true }, diagnostics)

def scope (p : Pass) : Scope where
  sectionName := p.pending.elim "" fun s => s.kind.name
  widget := p.path.widgetType?

def zone (env : Environment) (p : Pass) : Zone :=
  match p.path.visible? "timezone" with
  | some name => env.options.zones.zoneOr name env.options.zone
  | none => env.options.zone

def unknownSetting (env : Environment) (name : Span) : Diagnostic :=
  let suggestions :=
    if env.options.suggestions then Suggestion.closest name.text env.catalog.descriptors else []
  .ofProblem (.unknownSetting name.text suggestions) name

def checkSetting (env : Environment) (p : Pass) (s : Setting) : Setting × List Diagnostic :=
  let notice := s.descriptor.deprecated.elim [] fun notice =>
    [.ofProblem (.deprecatedSetting s.descriptor.name notice) s.name]
  letI := env.options.zones
  let (s, found) := s.check ⟨env.now, p.zone env⟩ s.value
  (s, notice ++ found.toList)

def repetition (earlier : Setting) (s : Setting) : Diagnostic :=
  { Diagnostic.ofProblem (.repeatedSetting s.descriptor.name) s.name with
    related := [⟨earlier.name.range, "first declared here"⟩] }

def declare (env : Environment) (p : Pass) (s : Setting) : Pass × List Diagnostic :=
  match p.pending with
  | none => (p, [])
  | some current =>
    let arm := p.blocks.arm
    match current.earlier? s.descriptor.name arm with
    | some earlier =>
      if earlier.descriptor.multiLine then
        ({ p with pending := some (current.addValue s.descriptor.name arm s.value) }, [])
      else (p, [repetition earlier s])
    | none =>
      ({ p with
        path := p.path.declare env.catalog s.descriptor.name s.value.text
        pending := some (current.add s arm) }, [])

def setting (env : Environment) (p : Pass) (name value : Span) : Pass × List Diagnostic :=
  if p.inUnknown then (p, [])
  else
    match env.catalog.resolve name.text p.scope with
    | .exempt => (p, [])
    | .unknown => (p, [unknownSetting env name])
    | .known descriptor =>
      let (s, found) := p.checkSetting env { descriptor, name, value }
      let (p, others) := p.declare env s
      (p, found ++ others)

def sectionStep (env : Environment) (p : Pass) : Line → Pass × List Diagnostic
  | .header name => p.header env name
  | .setting name value => p.setting env name value
  | _ => (p, [])

/-- One line. In a body of text only the blocks take notice. -/
def step (env : Environment) (p : Pass) (no : Nat) (text : String) : Pass × List Diagnostic :=
  let line := Line.classify no text
  let (blocks, found) := p.blocks.step no text.toList line
  if p.blocks.inText then ({ p with blocks }, found)
  else
    let (p, others) := { p with blocks }.sectionStep env line
    (p, found ++ others)

def run (env : Environment) (p : Pass) (no : Nat) : List String → Pass × List Diagnostic
  | [] => (p, [])
  | text :: lines =>
    let (p, found) := p.step env no text
    let (p, others) := p.run env (no + 1) lines
    (p, found ++ others)

def finish (env : Environment) (p : Pass) : List Diagnostic :=
  let rules := Rule.all.filter fun rule => env.options.isEnabled rule.name
  p.path.finish env.catalog ++ p.blocks.finish ++
    Rule.run env.ruleContext rules p.flush.tree

end Pass

def reports (env : Environment) (lines : List String) : List Diagnostic :=
  let (p, found) := Pass.run env {} 0 lines
  found ++ p.finish env

/-- The diagnostics of a document. The present moment is that of the options, if they have one. -/
def validate (catalog : Catalog) (options : Options) (present : WallClock) (text : String) :
    List Diagnostic :=
  let env : Environment := ⟨catalog, options, options.now.getD present⟩
  Diagnostic.finish options.source (reports env (Document.lines text))

end ChartLint
