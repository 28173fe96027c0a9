import ChartLint.Catalog.Descriptor
import ChartLint.Catalog.Requirement

/-!
# Catalogs

A catalog describes the known settings, and says which settings a section and which sections a
widget needs. A setting goes by its key: the letters of its name. An index says where among the
descriptions that of a key stands.
-/

namespace ChartLint

def settingKey (name : String) : String :=
  String.ofList (Text.lower (name.toList.filter Char.isAlpha))

structure Catalog where
  descriptors : List Descriptor := []
  /-- The places of the descriptions, by their keys. -/
  byKey : List (String × Nat) :=
    descriptors.zipIdx.map fun entry => (settingKey entry.1.name, entry.2)
  requirements : List (String × Requirement) := []
  widgetSections : List (String × List String) := []

namespace Catalog

/-- The description of a setting, whatever the signs, blanks and capitals in its name. -/
def find? (c : Catalog) (name : String) : Option Descriptor := do
  let place ← c.byKey.lookup (settingKey name)
  c.descriptors[place]?

def add (c : Catalog) (d : Descriptor) : Catalog :=
  { c with
    byKey := (settingKey d.name, c.descriptors.length) :: c.byKey
    descriptors := c.descriptors ++ [d] }

def requirement? (c : Catalog) (sectionName : String) : Option Requirement :=
  c.requirements.lookup sectionName

def sectionsOf? (c : Catalog) (widget : String) : Option (List String) :=
  c.widgetSections.lookup widget

end Catalog
end ChartLint
