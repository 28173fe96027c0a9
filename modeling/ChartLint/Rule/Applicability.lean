import ChartLint.Rule.Basic

/-!
# Settings without effect

A setting may be limited to types of widgets or to sections. In a section above it is fine, because
it holds in the sections below too.
-/

namespace ChartLint.Rule

def checkWidgetEffect (t : SectionTree) (id : Nat) : List Diagnostic :=
  match t.node? id, t.widgetType? id with
  | some node, some widget =>
    if isComputed widget then []
    else
      (node.settings.filter fun s => !s.descriptor.affects widget).map fun s =>
        .ofProblem (.ineffectiveOnWidget s.descriptor.name widget s.descriptor.widgets) s.name
  | _, _ => []

/-- Whether a section is below all sections that a setting is for, or beside one of them. -/
def isOutside (kind : SectionKind) (kinds : List SectionKind) : Bool :=
  !kinds.isEmpty &&
    ((kinds.all fun k => k.depth < kind.depth) ||
      ((kinds.any fun k => k.depth == kind.depth) && !kinds.contains kind))

def checkSectionEffect (t : SectionTree) (id : Nat) : List Diagnostic :=
  match t.node? id with
  | none => []
  | some node =>
    node.settings.filterMap fun s =>
      let kinds := s.descriptor.sections.filterMap SectionKind.ofName?
      if isOutside node.kind kinds then
        some (.ofProblem (.ineffectiveInSection s.descriptor.name node.kind kinds) s.name)
      else none

end ChartLint.Rule
