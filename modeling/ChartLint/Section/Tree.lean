import ChartLint.Section.Kind
import ChartLint.Setting.Basic

/-!
# The section tree

The sections of a document form a forest whose roots are the configurations. A section is added when
it is complete. Its place follows from its kind and from the sections added before it.

A setting holds in the section that declares it and in all sections below. For some names each node
keeps where the setting is declared; there the last declaration of a section counts. For all other
names the ancestors are searched, and the first declaration of a section counts.
-/

namespace ChartLint

structure Declaration where
  node : Nat
  index : Nat
  deriving DecidableEq, Repr

structure SectionNode where
  header : Span
  kind : SectionKind
  settings : List Setting
  parent : Option Nat
  children : List Nat := []
  /-- Where the scope names are declared, the nearest first. -/
  scope : List (String × Declaration) := []

namespace SectionNode

def localIndex? (n : SectionNode) (name : String) : Option Nat :=
  n.settings.findIdx? fun s => s.descriptor.name == name

def local? (n : SectionNode) (name : String) : Option Setting :=
  n.settings.find? fun s => s.descriptor.name == name

def declares (n : SectionNode) (name : String) : Bool :=
  (n.local? name).isSome

end SectionNode

structure SectionTree where
  nodes : Array SectionNode := #[]
  roots : List Nat := []
  /-- The last section of each depth that is still open, with its depth, the deepest first. -/
  trail : List (Nat × Nat) := []
  last : Option Nat := none

namespace SectionTree

def scopeNames : List String :=
  ["type", "mode", "end-time", "timezone"]

def size (t : SectionTree) : Nat :=
  t.nodes.size

def node? (t : SectionTree) (id : Nat) : Option SectionNode :=
  t.nodes[id]?

def parent? (t : SectionTree) (id : Nat) : Option Nat :=
  (t.node? id).bind SectionNode.parent

def chain (t : SectionTree) : Nat → Nat → List Nat
  | 0, _ => []
  | fuel + 1, id => id :: (t.parent? id).elim [] (t.chain fuel)

def ancestors (t : SectionTree) (id : Nat) : List Nat :=
  t.chain (id + 1) id

def takes (t : SectionTree) (kind : SectionKind) (id : Nat) : Bool :=
  (t.node? id).any fun n => n.kind.depth < 4 && kind.acceptsParent n.kind

/-- The parent of a deepest section: the nearest one that takes it, starting from the last section,
or else the last of depth three. -/
def deepParent? (t : SectionTree) (kind : SectionKind) : Option Nat :=
  match (t.last.elim [] t.ancestors).find? (t.takes kind) with
  | some id => some id
  | none => t.trail.lookup 3

def lastKind? (t : SectionTree) : Option SectionKind :=
  (t.last.bind t.node?).map SectionNode.kind

/-- The parent of a new section that is no root. A series right after a column belongs to it. -/
def parentFor? (t : SectionTree) (kind : SectionKind) : Option Nat :=
  if t.roots.isEmpty then none
  else if kind = .series ∧ t.lastKind? = some .column then t.last
  else if 4 ≤ kind.depth then t.deepParent? kind
  else (t.trail.find? fun entry => entry.1 < kind.depth).map Prod.snd

/-- The scope names of a section: its own declarations before those it inherits. -/
def scopeOf (id : Nat) (settings : List Setting) (inherited : List (String × Declaration)) :
    List (String × Declaration) :=
  settings.zipIdx.foldl (fun scope (s, i) =>
    if scopeNames.contains s.descriptor.name then (s.descriptor.name, ⟨id, i⟩) :: scope else scope)
    inherited

def attach (t : SectionTree) (header : Span) (kind : SectionKind) (settings : List Setting)
    (parent : Option Nat) : SectionTree :=
  let id := t.size
  let parentNode := parent.bind t.node?
  let inherited := parentNode.elim [] SectionNode.scope
  let nodes := match parent with
    | some p => t.nodes.modify p fun n => { n with children := n.children ++ [id] }
    | none => t.nodes
  let inColumn := kind = .series ∧ parentNode.map SectionNode.kind = some .column
  { nodes := nodes.push { header, kind, settings, parent, scope := scopeOf id settings inherited }
    roots := if parent.isNone then t.roots ++ [id] else t.roots
    trail :=
      if inColumn then t.trail
      else (kind.depth, id) :: t.trail.filter fun entry => entry.1 < kind.depth
    last := some id }

def add (t : SectionTree) (header : Span) (kind : SectionKind) (settings : List Setting) :
    SectionTree × Option Nat :=
  if kind.depth = 0 then (t.attach header kind settings none, some t.size)
  else
    match t.parentFor? kind with
    | none => (t, none)
    | some p => (t.attach header kind settings (some p), some t.size)

def locate? (t : SectionTree) (id : Nat) (name : String) : Option Declaration :=
  if scopeNames.contains name then (t.node? id).bind fun n => n.scope.lookup name
  else
    (t.ancestors id).findSome? fun a =>
      (t.node? a).bind fun n => (n.localIndex? name).map fun i => ⟨a, i⟩

def setting? (t : SectionTree) (d : Declaration) : Option Setting :=
  (t.node? d.node).bind fun n => n.settings[d.index]?

def find? (t : SectionTree) (id : Nat) (name : String) : Option Setting :=
  (t.locate? id name).bind t.setting?

def declaresAt (t : SectionTree) (name : String) (id : Nat) : Bool :=
  (t.node? id).any (·.declares name)

def declaring? (t : SectionTree) (id : Nat) (name : String) : Option Nat :=
  (t.ancestors id).find? (t.declaresAt name)

def children (t : SectionTree) (id : Nat) : List Nat :=
  (t.node? id).elim [] SectionNode.children

def declaredWithin (t : SectionTree) (name : String) : Nat → Nat → Bool
  | 0, _ => false
  | fuel + 1, id =>
    (t.children id).any fun child => t.declaresAt name child || t.declaredWithin name fuel child

def declaredBelow (t : SectionTree) (id : Nat) (name : String) : Bool :=
  t.declaredWithin name t.size id

def widgetOf? (t : SectionTree) (id : Nat) : Option Nat :=
  (t.ancestors id).find? fun a => (t.node? a).any fun n => n.kind == .widget

def widgetType? (t : SectionTree) (id : Nat) : Option String :=
  (t.widgetOf? id).bind fun widget => (t.find? widget "type").map fun s => s.value.text

def putSetting (t : SectionTree) (d : Declaration) (s : Setting) : SectionTree :=
  { t with nodes := t.nodes.modify d.node fun n => { n with settings := n.settings.set d.index s } }

/-- The date of a setting. What has been worked out is kept in the tree. -/
def dateValue (t : SectionTree) (dates : DateContext) (d : Declaration) :
    SectionTree × Option Instant :=
  match t.setting? d with
  | none => (t, none)
  | some s =>
    let (s, value) := s.dateValue dates
    (t.putSetting d s, value)

end SectionTree
end ChartLint
