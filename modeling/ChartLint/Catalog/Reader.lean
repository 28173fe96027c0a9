import ChartLint.Catalog.Basic
import ChartLint.Json.Reader

/-!
# Catalogs as JSON texts

A text is first read as a whole, then each description is built in turn. An override whose scope is
no predicate is left out.
-/

namespace ChartLint

inductive CatalogError where
  | malformed
  | invalidPattern (setting : String)
  | duplicate (setting : String)
  deriving DecidableEq, Repr

def CatalogError.message : CatalogError → String
  | .malformed => "invalid catalog"
  | .invalidPattern setting => s!"invalid pattern for setting '{setting}'"
  | .duplicate setting => s!"setting '{setting}' is declared twice"

namespace CatalogText

open JsonValue

/-- A kind of value, by name or as an object with the name as its only key. -/
def valueType? : JsonValue → Option ValueType
  | .string name => ValueType.ofName? name
  | .object [(name, .null)] => ValueType.ofName? name
  | _ => none

/-- A bound: a number, or an object with a number and the word whether it is excluded. -/
def bound? : JsonValue → Option Bound
  | .number x => some { value := x }
  | .object members => do
    let members ← record? ["value", "excluded"]
      (.object (members.filter fun m => m.1 == "value" || m.1 == "excluded"))
    let value ← Members.required members "value" number?
    let excluded ← Members.optional members "excluded" false bool?
    return { value, excluded }
  | _ => none

def patch? (v : JsonValue) : Option Patch := do
  let m ← record? ["type", "enum", "min", "max", "default", "example", "multi-line"] v
  return {
    type := ← Members.optional m "type" none (orNull valueType?)
    options := ← Members.optional m "enum" none (orNull (list? text?))
    min := ← Members.optional m "min" none (orNull bound?)
    max := ← Members.optional m "max" none (orNull bound?)
    fallback := ← Members.optional m "default" none (orNull text?)
    sample := ← Members.optional m "example" none (orNull text?)
    multiLine := ← Members.optional m "multi-line" none (orNull bool?) }

structure OverrideText where
  scope : String
  patch : Patch

def override? (v : JsonValue) : Option OverrideText := do
  let m ← record? ["scope", "patch"] v
  return {
    scope := ← Members.required m "scope" text?
    patch := ← Members.required m "patch" patch? }

/-- A description as it is written: its pattern and its scopes are texts. -/
structure DescriptorText where
  descriptor : Descriptor
  pattern : Option String
  overrides : List OverrideText

def descriptor? (v : JsonValue) : Option DescriptorText := do
  let m ← record? ["name", "display-name", "type", "enum", "min", "max", "example", "default",
    "multi-line", "widgets", "sections", "deprecated", "percent", "pattern", "overrides"] v
  let name ← Members.required m "name" text?
  let displayName ← Members.optional m "display-name" none (orNull text?)
  let descriptor : Descriptor := {
    name
    displayName := displayName.getD name
    type := ← Members.required m "type" valueType?
    options := ← Members.optional m "enum" [] (list? text?)
    min := ← Members.optional m "min" none (orNull bound?)
    max := ← Members.optional m "max" none (orNull bound?)
    sample := ← Members.optional m "example" none (orNull text?)
    fallback := ← Members.optional m "default" none (orNull text?)
    multiLine := ← Members.optional m "multi-line" false bool?
    widgets := ← Members.optional m "widgets" [] (list? text?)
    sections := ← Members.optional m "sections" [] (list? text?)
    deprecated := ← Members.optional m "deprecated" none (orNull text?)
    percent := ← Members.optional m "percent" false bool? }
  let pattern ← Members.optional m "pattern" none (orNull text?)
  let overrides ← Members.optional m "overrides" [] (list? override?)
  return { descriptor, pattern, overrides }

def requirement? (v : JsonValue) : Option Requirement := do
  let m ← record? ["groups", "unless"] v
  let groups ← Members.required m "groups" (list? (list? text?))
  let waivers ← Members.optional m "unless" [] (list? text?)
  return { groups := groups.map fun group => group.map Alternative.parse, waivers }

def OverrideText.build? (entry : OverrideText) : Option Override :=
  match Predicate.parse entry.scope with
  | .ok scope => some { scope, patch := entry.patch }
  | .error _ => none

def DescriptorText.build [PatternSyntax] (raw : DescriptorText) :
    Except CatalogError Descriptor := do
  let format ← match raw.pattern with
    | none => pure none
    | some source =>
      match Format.parse? source with
      | some format => pure (some format)
      | none => throw (.invalidPattern raw.descriptor.name)
  return { raw.descriptor with format, overrides := raw.overrides.filterMap OverrideText.build? }

/-- Builds descriptions one after the other and enters them into a catalog, unless a key is
taken. -/
def buildAll [PatternSyntax] (c : Catalog) : List DescriptorText → Except CatalogError Catalog
  | [] => .ok c
  | raw :: rest => do
    let d ← raw.build
    if (c.byKey.lookup (settingKey d.name)).isSome then throw (.duplicate d.name)
    buildAll (c.add d) rest

structure Parts where
  settings : List DescriptorText
  requirements : List (String × Requirement)
  widgetSections : List (String × List String)

def parts? (v : JsonValue) : Option Parts := do
  let m ← record? ["settings", "required-section-settings", "widget-sections"] v
  return {
    settings := ← Members.required m "settings" (list? descriptor?)
    requirements :=
      ← Members.optional m "required-section-settings" [] (entries? requirement?)
    widgetSections := ← Members.optional m "widget-sections" [] (entries? (list? text?)) }

end CatalogText

def Catalog.parse [PatternSyntax] (text : String) : Except CatalogError Catalog :=
  match (JsonValue.parse text).toOption.bind CatalogText.parts? with
  | none => .error .malformed
  | some parts => do
    let c ← CatalogText.buildAll {} parts.settings
    return { c with
      requirements := parts.requirements
      widgetSections := parts.widgetSections }

end ChartLint
