import ChartLint.Rule.Basic

/-!
# The rules
-/

namespace ChartLint.Rule

def settingSections : List SectionKind :=
  [.configuration, .group, .widget, .series, .dropdown, .column, .node, .link, .property, .option]

def companion (name dependent : String) (conditions : List Condition) (required : List String) :
    Rule :=
  ⟨name, settingSections, .companion dependent conditions required⟩

def isPie : Condition := ⟨"type", ["pie"]⟩

def isText : Condition := ⟨"type", ["text"]⟩

def hasColumns : Condition := ⟨"mode", ["column", "column-stack"]⟩

def all : List Rule := [
  companion "icon-alert-style-pie" "icon-alert-style" [isPie] ["icon-alert-expression"],
  companion "icon-alert-style-text-expression" "icon-alert-style" [isText] ["alert-expression"],
  companion "icon-alert-style-text-color" "icon-alert-style" [isText] ["icon-color"],
  companion "alert-style" "alert-style" [] ["alert-expression"],
  companion "alert-row-style" "alert-row-style" [] ["alert-expression"],
  companion "node-alert-style" "node-alert-style" [] ["node-alert-expression", "alert-expression"],
  companion "link-alert-style" "link-alert-style" [] ["link-alert-expression", "alert-expression"],
  companion "caption-style" "caption-style" [] ["caption"],
  companion "batch-size" "batch-size" [] ["batch-update"],
  companion "forecast-ssa-groups" "forecast-ssa-group-manual-groups" [] ["forecast-ssa"],
  ⟨"centralize-ticks", settingSections, .effect "centralize-ticks" [hasColumns]⟩,
  ⟨"centralize-columns", settingSections, .effect "centralize-columns" [hasColumns]⟩,
  ⟨"widget-applicability", settingSections, .widgetEffect⟩,
  ⟨"section-applicability", settingSections, .sectionEffect⟩,
  ⟨"colors-thresholds", settingSections, .colors⟩,
  ⟨"start-before-end", settingSections, .order "start-time" "end-time"⟩,
  ⟨"end-before-forecast-horizon", settingSections,
    .order "end-time" "forecast-horizon-end-time"⟩,
  ⟨"layout-overflow", [.group], .layout⟩
]

end ChartLint.Rule
