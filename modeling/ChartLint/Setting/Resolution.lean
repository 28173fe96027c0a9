import ChartLint.Block.Keyword
import ChartLint.Catalog.Basic
import ChartLint.Section.Kind

/-!
# What a name stands for
-/

namespace ChartLint

inductive Resolution where
  | known (descriptor : Descriptor)
  | exempt
  | unknown

namespace Resolution

def isReserved (name : String) : Bool :=
  Block.Keyword.all.any fun kw => kw.spelling == name || kw.closer == name

def isFreeForm (sectionName : String) : Bool :=
  (SectionKind.ofName? sectionName).any SectionKind.isFreeForm

/-- Whether a name is free to use: it names a column or a keyword, or the section takes any. -/
def isExempt (name : String) (scope : Scope) : Bool :=
  (Text.dropLead? "column-".toList name.toList).isSome || isReserved name ||
    isFreeForm scope.sectionName

end Resolution

def Catalog.resolve (c : Catalog) (name : String) (scope : Scope) : Resolution :=
  let name := Text.trimmed name
  if Resolution.isExempt name scope then .exempt
  else
    match c.find? name with
    | none => .unknown
    | some d => .known ((d.specialize? scope).getD d)

end ChartLint
