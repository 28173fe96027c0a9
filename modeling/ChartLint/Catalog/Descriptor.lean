import ChartLint.Scope.Reader

/-!
# Descriptions of settings

What a catalog knows about one setting, and how that depends on where the setting is declared.
-/

namespace ChartLint

inductive ValueType where
  | string
  | number
  | integer
  | boolean
  | enum
  | interval
  | date
  | object
  deriving DecidableEq, Repr

namespace ValueType

def all : List ValueType :=
  [.string, .number, .integer, .boolean, .enum, .interval, .date, .object]

def name : ValueType → String
  | .string => "string"
  | .number => "number"
  | .integer => "integer"
  | .boolean => "boolean"
  | .enum => "enum"
  | .interval => "interval"
  | .date => "date"
  | .object => "object"

def ofName? (name : String) : Option ValueType :=
  all.find? fun kind => kind.name == name

end ValueType

structure Bound where
  value : Float
  excluded : Bool := false

namespace Bound

def admitsAbove (b : Bound) (x : Float) : Bool :=
  if b.excluded then b.value < x else b.value ≤ x

def admitsBelow (b : Bound) (x : Float) : Bool :=
  if b.excluded then x < b.value else x ≤ b.value

def scaled (b : Bound) (factor : Float) : Bound :=
  { b with value := b.value * factor }

end Bound

/-- How patterns are read: which texts a pattern in writing asks for, if it is one at all. -/
class PatternSyntax where
  read? : String → Option (String → Bool)

structure Format where
  source : String
  accepts : String → Bool

def Format.parse? [PatternSyntax] (source : String) : Option Format :=
  (PatternSyntax.read? source).map fun accepts => ⟨source, accepts⟩

structure Patch where
  type : Option ValueType := none
  options : Option (List String) := none
  min : Option Bound := none
  max : Option Bound := none
  fallback : Option String := none
  sample : Option String := none
  multiLine : Option Bool := none

structure Override where
  scope : Predicate
  patch : Patch

structure Descriptor where
  name : String
  displayName : String := name
  type : ValueType
  options : List String := []
  min : Option Bound := none
  max : Option Bound := none
  sample : Option String := none
  fallback : Option String := none
  /-- Whether repeated declarations add up. -/
  multiLine : Bool := false
  /-- The types of widgets that the setting affects; all, if there are none. -/
  widgets : List String := []
  /-- The sections that the setting belongs to; all, if there are none. -/
  sections : List String := []
  deprecated : Option String := none
  percent : Bool := false
  format : Option Format := none
  overrides : List Override := []

namespace Descriptor

def apply (d : Descriptor) (p : Patch) : Descriptor :=
  { d with
    type := p.type.getD d.type
    options := p.options.getD d.options
    min := p.min <|> d.min
    max := p.max <|> d.max
    fallback := p.fallback <|> d.fallback
    sample := p.sample <|> d.sample
    multiLine := p.multiLine.getD d.multiLine }

def patchesIn (d : Descriptor) (scope : Scope) : List Patch :=
  (d.overrides.filter fun entry => entry.scope.holds scope).map Override.patch

def specialize? (d : Descriptor) (scope : Scope) : Option Descriptor :=
  match d.patchesIn scope with
  | [] => none
  | patches => some (patches.foldl apply d)

def affects (d : Descriptor) (widget : String) : Bool :=
  d.widgets.isEmpty || d.widgets.any fun w => Text.sameIgnoringCase w widget

/-- Whether a value is one of those to choose from. Letter case and outer blanks do not count. -/
def lists (d : Descriptor) (value : String) : Bool :=
  d.options.any fun option => Text.sameIgnoringCase option (Text.trimmed value)

end Descriptor
end ChartLint
