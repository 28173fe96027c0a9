import ChartLint.Rule.Basic
import ChartLint.Setting.Items

/-!
# Colours and thresholds

Thresholds divide the values into intervals, and each interval needs a colour.
-/

namespace ChartLint.Rule

def itemCount? (s : Setting) : Option Nat :=
  if s.values.any fun value => isComputed value.text then none
  else some (s.values.foldl (fun n value => n + (Items.split value.text).length) 0)

/-- Compares the number of colours with the number of thresholds, where one of them is declared. -/
def checkColors (t : SectionTree) (id : Nat) : List Diagnostic :=
  if t.declaresAt "colors" id || t.declaresAt "thresholds" id then
    match t.find? id "colors", t.find? id "thresholds" with
    | some colors, some thresholds =>
      match itemCount? colors, itemCount? thresholds with
      | some found, some limits =>
        if limits = 0 ∨ found + 1 = limits then []
        else [.ofProblem (.colorCount limits found) colors.name]
      | _, _ => []
    | _, _ => []
  else []

end ChartLint.Rule
