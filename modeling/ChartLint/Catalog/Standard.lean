import ChartLint.Catalog.Basic
import ChartLint.Pattern.Reader

/-!
# The standard catalog
-/

namespace ChartLint.Catalog

instance : PatternSyntax where
  read? source := (Pattern.parse? source).map Pattern.isMatch

namespace Standard

def dataSettings : List Descriptor := [
  { name := "url", type := .string, sample := some "https://example.org" },
  { name := "entity", type := .string, sample := some "nurswgvml007" },
  { name := "entities", type := .string, sample := some "nurswgvml007, nurswgvml006" },
  { name := "entity-group", type := .string, sample := some "nur-collectors" },
  { name := "entity-expression", type := .string, sample := some "tags.app = 'ATSD'" },
  { name := "metric", type := .string, sample := some "cpu_busy" },
  { name := "table", type := .string, sample := some "cache" },
  { name := "attribute", type := .string, sample := some "hit_ratio" },
  { name := "value", type := .string, sample := some "value('cpu') / 100" }
]

def textSettings : List Descriptor := [
  { name := "label", type := .string },
  { name := "label-format", type := .string, sample := some "entity: metric" },
  { name := "title", type := .string },
  { name := "caption", type := .string },
  { name := "caption-style", type := .string, sample := some "color: red" },
  { name := "style", type := .string, sample := some "stroke-width: 2" },
  { name := "header-style", type := .string, sample := some "font-weight: bold" },
  { name := "text", type := .string },
  { name := "format", type := .string, sample := some "numeric" },
  { name := "sort", type := .string, sample := some "value desc" },
  { name := "group-keys", type := .string, sample := some "type, host" }
]

def viewSettings : List Descriptor := [
  { name := "type", type := .enum,
    options := ["chart", "bar", "pie", "gauge", "treemap", "calendar", "histogram", "box", "table",
      "property", "text", "graph", "page", "console"],
    sample := some "chart",
    overrides := [
      { scope := .equals .sectionName "property",
        patch := { type := some .string, options := some [] } }] },
  { name := "mode", type := .enum,
    options := ["default", "stack", "column", "column-stack", "range", "row", "row-stack", "half",
      "pie", "ring"],
    fallback := some "default",
    overrides := [
      { scope := .equals .widget "chart",
        patch := { options := some ["default", "stack", "column", "column-stack", "range"] } },
      { scope := .equals .widget "bar",
        patch := {
          options := some ["column", "row", "column-stack", "row-stack"],
          fallback := some "column" } },
      { scope := .equals .widget "gauge", patch := { options := some ["default", "half"] } },
      { scope := .equals .widget "pie",
        patch := { options := some ["pie", "ring"], fallback := some "pie" } }] }
]

/-- Groups of numbers and ranges: groups have semicolons between them, and the numbers and ranges of
a group have commas. -/
def componentGroups : String :=
  "^\\s*\\d+(\\s*-\\s*\\d+)?(\\s*,\\s*\\d+(\\s*-\\s*\\d+)?)*" ++
  "(\\s*;\\s*\\d+(\\s*-\\s*\\d+)?(\\s*,\\s*\\d+(\\s*-\\s*\\d+)?)*)*\\s*$"

def timeSettings : List Descriptor := [
  { name := "timespan", type := .interval, fallback := some "1 hour", sample := some "1 day" },
  { name := "update-interval", type := .interval, fallback := some "1 minute",
    sample := some "5 minute" },
  { name := "period", type := .interval, options := ["auto"], sample := some "5 minute" },
  { name := "rate", type := .interval, sample := some "1 minute" },
  { name := "disconnect-interval", type := .interval, sample := some "15 minute" },
  { name := "start-time", type := .date, sample := some "current_day - 1 * day" },
  { name := "end-time", type := .date, sample := some "current_day" },
  { name := "forecast-horizon-end-time", type := .date, sections := ["series"],
    sample := some "next_month" },
  { name := "forecast-horizon-interval", type := .interval, sections := ["series"],
    sample := some "1 day" },
  { name := "timezone", type := .string, sample := some "utc" },
  { name := "forecast-ssa", type := .boolean, sections := ["series"] },
  { name := "forecast-ssa-group-manual-groups", type := .string, sections := ["series"],
    format := Format.parse? componentGroups,
    sample := some "1-3;4,5" }
]

def valueSettings : List Descriptor := [
  { name := "statistic", type := .enum, options := ["avg", "min", "max", "sum", "count", "first",
    "last", "delta", "counter", "wavg", "wtavg", "median", "standard_deviation", "percentile"],
    sample := some "avg" },
  { name := "interpolate", type := .enum, options := ["none", "linear", "previous", "next",
    "value"], sample := some "linear" },
  { name := "colors", type := .string, multiLine := true, sample := some "green, orange, red" },
  { name := "thresholds", type := .string, multiLine := true, sample := some "0, 60, 80, 100" },
  { name := "color", type := .string, sample := some "steelblue" },
  { name := "fill-opacity", type := .number, min := some { value := 0 },
    max := some { value := 1 }, percent := true, sample := some "0.5" },
  { name := "min-range", type := .number },
  { name := "max-range", type := .number }
]

def layoutSettings : List Descriptor := [
  { name := "width-units", type := .number, min := some { value := 0, excluded := true },
    fallback := some "1",
    overrides := [
      { scope := .equals .sectionName "configuration", patch := { fallback := some "6" } }] },
  { name := "height-units", type := .number, min := some { value := 0, excluded := true },
    fallback := some "1",
    overrides := [
      { scope := .equals .sectionName "configuration", patch := { fallback := some "4" } }] },
  { name := "widgets-per-row", type := .integer, min := some { value := 1 }, sample := some "3" },
  { name := "offset-right", type := .number },
  { name := "offset-bottom", type := .number },
  { name := "ticks", type := .integer, min := some { value := 0 }, sample := some "5" },
  { name := "rotate-ticks", type := .number, min := some { value := (-360) },
    max := some { value := 360 } }
]

def displaySettings : List Descriptor := [
  { name := "centralize-ticks", type := .boolean, widgets := ["chart"] },
  { name := "centralize-columns", type := .boolean, widgets := ["chart"] },
  { name := "step-line", type := .boolean, widgets := ["chart"] },
  { name := "horizontal", type := .boolean, widgets := ["bar", "histogram", "box"] },
  { name := "horizontal-grid", type := .boolean },
  { name := "legend-position", type := .enum, options := ["top", "bottom", "right", "left", "none",
    "hidden"] },
  { name := "legend-value", type := .boolean },
  { name := "legend-last-value", type := .boolean,
    deprecated := some "Use 'legend-value' instead." },
  { name := "markers", type := .boolean },
  { name := "last-marker", type := .boolean, deprecated := some "Use 'markers' instead." },
  { name := "display", type := .boolean },
  { name := "enabled", type := .boolean },
  { name := "responsive", type := .boolean },
  { name := "exact-match", type := .boolean }
]

def serverSettings : List Descriptor := [
  { name := "add-meta", type := .boolean },
  { name := "server-aggregate", type := .boolean },
  { name := "rate-counter", type := .boolean },
  { name := "batch-update", type := .boolean },
  { name := "batch-size", type := .integer, min := some { value := 0 }, sample := some "8" },
  { name := "limit", type := .integer, min := some { value := 1 } },
  { name := "series-limit", type := .integer, min := some { value := 1 },
    max := some { value := 10000 } },
  { name := "offset", type := .integer },
  { name := "gradient-count", type := .integer, min := some { value := 1 }, widgets := ["gauge",
    "treemap", "calendar"] },
  { name := "disconnect-value", type := .number },
  { name := "expand-panels", type := .enum, options := ["all", "compact", "none", "auto"] }
]

def alertSettings : List Descriptor := [
  { name := "alert-expression", type := .string, sample := some "value > 80" },
  { name := "alert-style", type := .string, sample := some "color: red" },
  { name := "alert-row-style", type := .string, widgets := ["table"],
    sample := some "background-color: red" },
  { name := "icon", type := .string },
  { name := "icon-color", type := .string, widgets := ["pie", "text"] },
  { name := "icon-alert-expression", type := .string, widgets := ["pie", "text"] },
  { name := "icon-alert-style", type := .string, widgets := ["pie", "text"] },
  { name := "node-alert-expression", type := .string, widgets := ["graph"] },
  { name := "node-alert-style", type := .string, widgets := ["graph"] },
  { name := "link-alert-expression", type := .string, widgets := ["graph"] },
  { name := "link-alert-style", type := .string, widgets := ["graph"] }
]

def controlSettings : List Descriptor := [
  { name := "on-change", type := .string, sections := ["dropdown"],
    sample := some "widget.reload()" },
  { name := "change-field", type := .string, sections := ["dropdown"],
    sample := some "series.entity" },
  { name := "options", type := .object, sample := some "\x7b\"animation\": false\x7d" },
  { name := "url-parameters", type := .string, sample := some "?add=true" },
  { name := "dialog-maximize", type := .boolean }
]

def requirements : List (String × Requirement) := [
  ("widget", { groups := [[⟨["type"]⟩]] }),
  ("series", { groups := [[⟨["entity"]⟩, ⟨["entities"]⟩, ⟨["entity-group"]⟩,
    ⟨["entity-expression"]⟩], [⟨["metric"]⟩, ⟨["table", "attribute"]⟩]], waivers := ["value"] }),
  ("dropdown", { groups := [[⟨["on-change"]⟩, ⟨["change-field"]⟩]] })
]

def widgetSections : List (String × List String) := [
  ("chart", ["series"]), ("bar", ["series"]), ("pie", ["series"]), ("gauge", ["series"]),
  ("treemap", ["series"]), ("calendar", ["series"]), ("histogram", ["series"]),
  ("box", ["series"]), ("table", ["series"]), ("text", ["series"]), ("graph", ["series"]),
  ("property", ["property"]), ("page", []), ("console", [])
]

end Standard

def standard : Catalog where
  descriptors :=
    Standard.dataSettings ++ Standard.textSettings ++ Standard.viewSettings ++
    Standard.timeSettings ++ Standard.valueSettings ++ Standard.layoutSettings ++
    Standard.displaySettings ++ Standard.serverSettings ++ Standard.alertSettings ++
    Standard.controlSettings
  requirements := Standard.requirements
  widgetSections := Standard.widgetSections

end ChartLint.Catalog
