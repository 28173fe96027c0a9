import ChartLint.Rule.Basic

/-!
# Settings that need others
-/

namespace ChartLint.Rule

def hasCompanion (t : SectionTree) (id owner : Nat) (required : List String) : Bool :=
  required.any fun name => (t.find? id name).isSome || t.declaredBelow owner name

def checkCompanion (ctx : RuleContext) (t : SectionTree) (id : Nat) (dependent : String)
    (conditions : List Condition) (required : List String) : List Diagnostic :=
  match t.find? id dependent with
  | none => []
  | some s =>
    let owner := (t.declaring? id dependent).getD id
    if conditions.all (ctx.meets t id) && !hasCompanion t id owner required then
      [.ofProblem (.missingCompanion dependent conditions required) s.name]
    else []

def checkEffect (ctx : RuleContext) (t : SectionTree) (id : Nat) (name : String)
    (conditions : List Condition) : List Diagnostic :=
  match (t.node? id).bind fun n => n.local? name with
  | none => []
  | some s =>
    if conditions.all (ctx.meets t id) then []
    else [.ofProblem (.ineffective name conditions) s.name]

end ChartLint.Rule
