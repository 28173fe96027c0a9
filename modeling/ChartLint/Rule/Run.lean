import ChartLint.Rule.Applicability
import ChartLint.Rule.Colors
import ChartLint.Rule.Companion
import ChartLint.Rule.Layout
import ChartLint.Rule.Order
import ChartLint.Rule.Registry

/-!
# Running the rules

The rules run section by section, in the order of the document.
-/

namespace ChartLint.Rule

def runCheck (ctx : RuleContext) (t : SectionTree) (id : Nat) :
    RuleCheck → SectionTree × List Diagnostic
  | .companion dependent conditions required =>
    (t, checkCompanion ctx t id dependent conditions required)
  | .effect name conditions => (t, checkEffect ctx t id name conditions)
  | .widgetEffect => (t, checkWidgetEffect t id)
  | .sectionEffect => (t, checkSectionEffect t id)
  | .colors => (t, checkColors t id)
  | .order earlier later => checkOrder ctx t id earlier later
  | .layout => (t, Layout.check t id)

def runAt (ctx : RuleContext) (id : Nat) : List Rule → SectionTree → SectionTree × List Diagnostic
  | [], t => (t, [])
  | rule :: rules, t =>
    let applies := (t.node? id).any fun n => rule.kinds.contains n.kind
    let (t, found) := if applies then runCheck ctx t id rule.check else (t, [])
    let (t, others) := runAt ctx id rules t
    (t, found ++ others)

def runAll (ctx : RuleContext) (rules : List Rule) :
    List Nat → SectionTree → SectionTree × List Diagnostic
  | [], t => (t, [])
  | id :: ids, t =>
    let (t, found) := runAt ctx id rules t
    let (t, others) := runAll ctx rules ids t
    (t, found ++ others)

def run (ctx : RuleContext) (rules : List Rule) (t : SectionTree) : List Diagnostic :=
  (runAll ctx rules (List.range t.size) t).2

end ChartLint.Rule
