/-!
# Codes of diagnostics
-/

namespace ChartLint

inductive Severity where
  | error
  | warning
  | information
  deriving DecidableEq, Repr

inductive Code where
  | unclosedBlock
  | unmatchedEnd
  | malformedKeyword
  | unknownName
  | unknownSection
  | unexpectedSection
  | missingSection
  | unknownSetting
  | repeatedSetting
  | invalidValue
  | invalidDate
  | invalidObject
  | missingSetting
  | colorCount
  | dateOrder
  | uselessSetting
  | deprecatedSetting
  | layoutOverflow
  deriving DecidableEq, Repr

namespace Code

def all : List Code :=
  [.unclosedBlock, .unmatchedEnd, .malformedKeyword, .unknownName, .unknownSection,
   .unexpectedSection, .missingSection, .unknownSetting, .repeatedSetting, .invalidValue,
   .invalidDate, .invalidObject, .missingSetting, .colorCount, .dateOrder, .uselessSetting,
   .deprecatedSetting, .layoutOverflow]

/-- The code in writing. Blocks have the numbers from 1 on, sections from 101, settings from 201,
and rules from 301; warnings count for themselves. -/
def text : Code → String
  | .unclosedBlock => "E001"
  | .unmatchedEnd => "E002"
  | .malformedKeyword => "E003"
  | .unknownName => "E004"
  | .unknownSection => "E101"
  | .unexpectedSection => "E102"
  | .missingSection => "E103"
  | .unknownSetting => "E201"
  | .repeatedSetting => "E202"
  | .invalidValue => "E203"
  | .invalidDate => "E204"
  | .invalidObject => "E205"
  | .missingSetting => "E301"
  | .colorCount => "E302"
  | .dateOrder => "E303"
  | .uselessSetting => "W001"
  | .deprecatedSetting => "W002"
  | .layoutOverflow => "W003"

def severity : Code → Severity
  | .uselessSetting | .deprecatedSetting | .layoutOverflow => .warning
  | _ => .error

end Code
end ChartLint
