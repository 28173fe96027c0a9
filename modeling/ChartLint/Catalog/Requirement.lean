import ChartLint.Text.Basic

/-!
# Settings that a section needs
-/

namespace ChartLint

structure Alternative where
  names : List String
  deriving DecidableEq, Repr

namespace Alternative

def parse (text : String) : Alternative :=
  ⟨((Text.splitOn '+' text.toList).map Text.trim).filterMap fun name =>
    if name.isEmpty then none else some (String.ofList name)⟩

def isMet (a : Alternative) (visible : String → Bool) : Bool :=
  a.names.all visible

def render (a : Alternative) : String :=
  Text.joined " + " a.names

end Alternative

/-- What a kind of section needs: of each group one alternative, unless a name is there that takes
the place of all. -/
structure Requirement where
  groups : List (List Alternative)
  waivers : List String := []
  deriving DecidableEq, Repr

def Requirement.unmet (r : Requirement) (visible : String → Bool) : List (List Alternative) :=
  if r.waivers.any visible then []
  else r.groups.filter fun group => !group.any (·.isMet visible)

end ChartLint
