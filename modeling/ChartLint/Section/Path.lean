import ChartLint.Diagnostic.Basic

/-!
# The open path

While a document is read, the sections around the current line form a path from the root. A header
takes its place at its depth: what is at that depth or deeper is closed first, and levels that are
missing are filled in. A section is checked when it is closed: does it have the settings and the
sections it needs?
-/

namespace ChartLint

/-- One level of the path. A level that was filled in has no origin. -/
structure Level where
  origin : Option (Span × SectionKind) := none
  settings : List (String × String) := []
  /-- Sections of which one has to follow below. -/
  awaited : List String := []

namespace Level

def ofHeader (header : Span) (kind : SectionKind) : Level where
  origin := some (header, kind)
  awaited := kind.requiredChildren.map SectionKind.name

def kind? (l : Level) : Option SectionKind :=
  l.origin.map Prod.snd

def declares (l : Level) (name : String) : Bool :=
  (l.settings.lookup name).isSome

def sees (l : Level) (kind : SectionKind) : Level :=
  if l.awaited.contains kind.name then { l with awaited := [] } else l

def declare (c : Catalog) (l : Level) (name value : String) : Level :=
  let needed := if l.kind? = some .widget ∧ name = "type" then c.sectionsOf? value else none
  { l with settings := (name, value) :: l.settings, awaited := needed.getD l.awaited }

/-- What a level lacks when it is closed; `below` are the levels nearer to the root. -/
def missing (c : Catalog) (below : List Level) (l : Level) : List Diagnostic :=
  match l.origin with
  | none => []
  | some (header, kind) =>
    let visible := fun name => (l :: below).any (·.declares name)
    let groups := (c.requirement? kind.name).elim [] (·.unmet visible)
    let settings := groups.map fun group => .ofProblem (.missingSettings group) header
    let sections :=
      if l.awaited.isEmpty then []
      else [.ofProblem (.missingSection header.text l.awaited) header]
    settings ++ sections

end Level

/-- The sections around the current line, the innermost first. -/
structure OpenPath where
  levels : List Level := []

namespace OpenPath

def depth (p : OpenPath) : Nat :=
  p.levels.length

def visible? (p : OpenPath) (name : String) : Option String :=
  p.levels.findSome? fun l => l.settings.lookup name

/-- The type of the widget around the current line. Only levels down to the widget count, so a
section within a widget may have a type of its own. -/
def widgetType? (p : OpenPath) : Option String :=
  (p.levels.filter fun l => l.kind?.any fun kind => kind.depth ≤ 2).findSome? fun l =>
    l.settings.lookup "type"

def closeTo (c : Catalog) (n : Nat) : List Level → List Level × List Diagnostic
  | [] => ([], [])
  | l :: below =>
    if n ≤ below.length then
      let (levels, diagnostics) := closeTo c n below
      (levels, l.missing c below ++ diagnostics)
    else (l :: below, [])

/-- The depth that a section takes. One that may stand anywhere goes into what is open, if its own
depth is not reached. -/
def slot (p : OpenPath) (kind : SectionKind) : Nat :=
  if kind.isInheritable ∧ p.depth < kind.depth ∧ kind.minDepth ≤ p.depth then p.depth
  else kind.depth

/-- Makes room for a section: closes what is too deep, or fills in what is missing. -/
def makeRoom (c : Catalog) (p : OpenPath) (header : Span) (kind : SectionKind) :
    List Level × List Diagnostic :=
  let slot := p.slot kind
  if p.depth < slot then
    (List.replicate (slot - p.depth) ({} : Level) ++ p.levels,
      [.ofProblem (.unexpectedSection kind (SectionKind.atDepth p.depth)) header])
  else closeTo c slot p.levels

/-- Whether a section stands in a parent that does not take it. A level that was filled in takes
any. -/
def isMisplaced (levels : List Level) (kind : SectionKind) : Bool :=
  (levels.head?.bind Level.kind?).any fun parent => !kind.acceptsParent parent

def enter (c : Catalog) (p : OpenPath) (header : Span) (kind : SectionKind) :
    OpenPath × List Diagnostic :=
  let (levels, diagnostics) := p.makeRoom c header kind
  let misplaced :=
    if isMisplaced levels kind then [.ofProblem (.misplacedSection kind) header] else []
  (⟨.ofHeader header kind :: levels.map (·.sees kind)⟩, diagnostics ++ misplaced)

def push (c : Catalog) (p : OpenPath) (header : Span) :
    OpenPath × Option SectionKind × List Diagnostic :=
  match SectionKind.ofName? header.text with
  | none => (p, none, [.ofProblem (.unknownSection header.text) header])
  | some kind =>
    let (path, diagnostics) := p.enter c header kind
    (path, some kind, diagnostics)

def declare (c : Catalog) (p : OpenPath) (name value : String) : OpenPath :=
  match p.levels with
  | [] => p
  | l :: below => ⟨l.declare c name value :: below⟩

def finish (c : Catalog) (p : OpenPath) : List Diagnostic :=
  (closeTo c 0 p.levels).2

end OpenPath
end ChartLint
