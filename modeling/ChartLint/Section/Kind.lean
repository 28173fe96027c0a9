/-!
# Kinds of sections

A document is a tree of sections. Each kind of section belongs at one depth, and some kinds belong
under certain parents only.
-/

namespace ChartLint

inductive SectionKind where
  | configuration
  | group
  | widget
  | series
  | dropdown
  | column
  | node
  | link
  | property
  | option
  | properties
  | tags
  | keys
  | placeholders
  deriving DecidableEq, Repr

namespace SectionKind

def all : List SectionKind :=
  [.configuration, .group, .widget, .series, .dropdown, .column, .node, .link, .property, .option,
   .properties, .tags, .keys, .placeholders]

def name : SectionKind → String
  | .configuration => "configuration"
  | .group => "group"
  | .widget => "widget"
  | .series => "series"
  | .dropdown => "dropdown"
  | .column => "column"
  | .node => "node"
  | .link => "link"
  | .property => "property"
  | .option => "option"
  | .properties => "properties"
  | .tags => "tags"
  | .keys => "keys"
  | .placeholders => "placeholders"

def ofName? (name : String) : Option SectionKind :=
  if name = "tag" then some .tags else all.find? fun kind => kind.name == name

/-- How many sections a section of this kind lies within. -/
def depth : SectionKind → Nat
  | .configuration => 0
  | .group => 1
  | .widget => 2
  | .series | .dropdown | .column | .node | .link | .property => 3
  | .option | .properties | .tags | .keys | .placeholders => 4

/-- The kinds that can directly contain this one, for a kind whose depth does not settle that. -/
def parents : SectionKind → List SectionKind
  | .option => [.dropdown]
  | .properties => [.series, .node, .link, .property]
  | .placeholders => [.widget, .series]
  | .tags | .keys =>
    [.configuration, .group, .widget, .series, .dropdown, .column, .node, .link, .property]
  | _ => []

def acceptsParent (kind parent : SectionKind) : Bool :=
  kind.parents.isEmpty || kind.parents.contains parent

/-- Whether the section may stand at any depth below the root and then attaches to what is open. -/
def isInheritable : SectionKind → Bool
  | .tags | .keys => true
  | _ => false

def minDepth (kind : SectionKind) : Nat :=
  if kind.isInheritable then 1 else kind.depth

def isFreeForm : SectionKind → Bool
  | .properties | .tags | .keys | .placeholders => true
  | _ => false

def requiredChildren : SectionKind → List SectionKind
  | .configuration => [.group]
  | .group => [.widget]
  | .widget => [.series]
  | _ => []

def atDepth (depth : Nat) : List SectionKind :=
  all.filter fun kind => kind.depth == depth

end SectionKind
end ChartLint
