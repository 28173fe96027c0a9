import ChartLint.Diagnostic.Basic
import ChartLint.Options.Entry
import ChartLint.Time.Iso
import ChartLint.Time.Zone.Basic

/-!
# Options of a validation
-/

namespace ChartLint

structure Options where
  source : String := Diagnostic.defaultSource
  zone : Zone := .utc
  now : Option WallClock := none
  disabledRules : List String := []
  suggestions : Bool := true
  [zones : ZoneDatabase]

inductive OptionsError where
  | malformed
  | unknownZone (name : String)
  | invalidNow (text : String)
  deriving DecidableEq, Repr

def OptionsError.message : OptionsError → String
  | .malformed => "invalid configuration"
  | .unknownZone name => s!"invalid timezone '{name}'"
  | .invalidNow text => s!"invalid 'now' timestamp '{text}'"

namespace Options

def isEnabled (o : Options) (rule : String) : Bool :=
  !o.disabledRules.contains rule

structure FileValues where
  source : String := Diagnostic.defaultSource
  zone : String := "utc"
  now : Option String := none
  disabledRules : List String := []
  suggestions : Bool := true

def FileValues.set? (v : FileValues) (key : String) : OptionFile.Value → Option FileValues
  | .text s =>
    if key = "source" then some { v with source := s }
    else if key = "timezone" then some { v with zone := s }
    else if key = "now" then some { v with now := some s }
    else none
  | .flag b => if key = "suggestions" then some { v with suggestions := b } else none
  | .texts items => if key = "disabled-rules" then some { v with disabledRules := items } else none

def fileValues? (entries : List (String × OptionFile.Value)) : Option FileValues :=
  if (entries.map Prod.fst).eraseDups.length = entries.length then
    entries.foldlM (fun v entry => v.set? entry.1 entry.2) {}
  else none

def parse [ZoneDatabase] (text : String) : Except OptionsError Options := do
  let some values := (OptionFile.parse? text).bind fileValues? | throw .malformed
  let .ok zone := Zone.parse values.zone | throw (.unknownZone values.zone)
  let now ← match values.now with
    | none => pure none
    | some text =>
      match Iso.timestamp? text with
      | some now => pure (some now)
      | none => throw (.invalidNow text)
  return {
    source := values.source, zone, now, disabledRules := values.disabledRules
    suggestions := values.suggestions }

end Options
end ChartLint
