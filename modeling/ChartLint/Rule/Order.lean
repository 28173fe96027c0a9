import ChartLint.Rule.Basic

/-!
# The order of dates
-/

namespace ChartLint.Rule

/-- Compares two dates that hold in a section, where one of them is declared. The dates that are
worked out are kept in the tree. -/
def checkOrder (ctx : RuleContext) (t : SectionTree) (id : Nat) (earlier later : String) :
    SectionTree × List Diagnostic :=
  if t.declaresAt earlier id || t.declaresAt later id then
    match t.locate? id earlier, t.locate? id later with
    | some first, some second =>
      let dates : DateContext := ⟨ctx.now, ctx.zoneAt t id⟩
      let (t, start) := t.dateValue dates first
      let (t, stop) := t.dateValue dates second
      match start, stop, t.setting? second with
      | some start, some stop, some s =>
        if start.utc < stop.utc then (t, [])
        else (t, [.ofProblem (.dateOrder earlier later) s.name])
      | _, _, _ => (t, [])
    | _, _ => (t, [])
  else (t, [])

end ChartLint.Rule
