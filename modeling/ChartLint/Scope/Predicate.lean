import ChartLint.Text.Basic

/-!
# Scopes and conditions on them

What a setting may hold depends on where it is declared. A predicate is a condition on the section
that declares the setting and on the type of the widget around it.
-/

namespace ChartLint

inductive ScopeVar where
  | widget
  | sectionName
  deriving DecidableEq, Repr

def ScopeVar.word : ScopeVar → String
  | .widget => "widget"
  | .sectionName => "section"

structure Scope where
  sectionName : String
  widget : Option String
  deriving DecidableEq, Repr

def Scope.get? (s : Scope) : ScopeVar → Option String
  | .widget => s.widget
  | .sectionName => some s.sectionName

inductive Predicate where
  | equals (var : ScopeVar) (value : String)
  | oneOf (var : ScopeVar) (values : List String)
  | not (inner : Predicate)
  | all (parts : List Predicate)
  deriving Repr

namespace Predicate

mutual

/-- Whether a scope meets a condition. Letter case does not count, and what is unknown equals
nothing. -/
def holds (scope : Scope) : Predicate → Bool
  | .equals var value => (scope.get? var).any fun actual => Text.sameIgnoringCase actual value
  | .oneOf var values =>
    (scope.get? var).any fun actual => values.any fun value => Text.sameIgnoringCase actual value
  | .not inner => !holds scope inner
  | .all parts => allHold scope parts

def allHold (scope : Scope) : List Predicate → Bool
  | [] => true
  | part :: parts => holds scope part && allHold scope parts

end

end Predicate
end ChartLint
