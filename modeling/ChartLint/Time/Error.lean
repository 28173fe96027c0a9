/-!
# What can be wrong with a time
-/

namespace ChartLint

inductive TimeError where
  | empty
  | unknownKeyword (word : String)
  | invalidLiteral (text : String)
  | unexpectedToken (text : String)
  | missingCount (sign : String)
  | unknownUnit (word : String)
  /-- Months, quarters and years take whole counts only. -/
  | fractionalCount (unit : String)
  | outOfRange
  | unknownZone (name : String)
  | invalidInterval (text : String)
  deriving DecidableEq, Repr

def TimeError.message : TimeError → String
  | .empty => "empty time expression"
  | .unknownKeyword word => s!"unknown calendar keyword '{word}'"
  | .invalidLiteral text => s!"invalid date '{text}'"
  | .unexpectedToken text => s!"unexpected '{text}'"
  | .missingCount sign => s!"expected a count after '{sign}'"
  | .unknownUnit word => s!"unknown time unit '{word}'"
  | .fractionalCount unit => s!"'{unit}' requires a whole count"
  | .outOfRange => "date out of range"
  | .unknownZone name => s!"unknown time zone '{name}'"
  | .invalidInterval text => s!"invalid interval '{text}'"

end ChartLint
