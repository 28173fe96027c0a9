import ChartLint.Diagnostic.Basic
import ChartLint.Section.Tree
import ChartLint.Time.Zone.Basic

/-!
# Rules

A rule looks at one section of a finished tree. It compares settings with each other, where a value
check sees one setting only.
-/

namespace ChartLint

inductive RuleCheck where
  /-- Where `dependent` holds and all conditions are met, one of the required settings has to hold
  too, or to be declared somewhere below the declaration of `dependent`. -/
  | companion (dependent : String) (conditions : List Condition) (required : List String)
  | effect (name : String) (conditions : List Condition)
  | widgetEffect
  | sectionEffect
  /-- There is one colour for each interval between thresholds. -/
  | colors
  | order (earlier later : String)
  | layout
  deriving DecidableEq, Repr

structure Rule where
  name : String
  kinds : List SectionKind
  check : RuleCheck
  deriving DecidableEq, Repr

structure RuleContext where
  catalog : Catalog
  now : WallClock
  zone : Zone
  [zones : ZoneDatabase]

namespace RuleContext

def valueAt? (ctx : RuleContext) (t : SectionTree) (id : Nat) (name : String) : Option String :=
  match t.find? id name with
  | some s => some s.value.text
  | none => do
    let d ← ctx.catalog.find? name
    let node ← t.node? id
    ((d.specialize? ⟨node.kind.name, t.widgetType? id⟩).getD d).fallback

def zoneAt (ctx : RuleContext) (t : SectionTree) (id : Nat) : Zone :=
  match t.find? id "timezone" with
  | none => ctx.zone
  | some s =>
    if isComputed s.value.text then ctx.zone
    else ctx.zones.zoneOr s.value.text ctx.zone

def meets (ctx : RuleContext) (t : SectionTree) (id : Nat) (c : Condition) : Bool :=
  (ctx.valueAt? t id c.setting).any fun value =>
    c.allowed.any fun allowed => Text.sameIgnoringCase allowed value

end RuleContext
end ChartLint
