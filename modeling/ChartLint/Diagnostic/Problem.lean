import ChartLint.Block.Keyword
import ChartLint.Decimal.Shortest
import ChartLint.Diagnostic.Code
import ChartLint.Json.Error
import ChartLint.Section.Kind
import ChartLint.Setting.Suggestion
import ChartLint.Time.Error

/-!
# What can be wrong with a document

Each problem names its cause. Its code and its wording follow from that.
-/

namespace ChartLint

structure Condition where
  setting : String
  allowed : List String
  deriving DecidableEq, Repr

def Condition.describe (c : Condition) : String :=
  match c.allowed with
  | [one] => s!"{c.setting} is {one}"
  | many => s!"{c.setting} is one of: " ++ Text.joined ", " many

structure Bounds where
  min : Option Bound
  max : Option Bound

def Bounds.describe (b : Bounds) : String :=
  match b.min, b.max with
  | some low, some high =>
    let opening := if low.excluded then "(" else "["
    let closing := if high.excluded then ")" else "]"
    s!"in range {opening}{Decimal.text low.value}, {Decimal.text high.value}{closing}"
  | some low, none =>
    if low.excluded then s!"greater than {Decimal.text low.value}"
    else s!"greater than or equal to {Decimal.text low.value}"
  | none, some high =>
    if high.excluded then s!"less than {Decimal.text high.value}"
    else s!"less than or equal to {Decimal.text high.value}"
  | none, none => "a number"

inductive Problem where
  | unclosedBlock (keyword : Block.Keyword)
  | unmatchedEnd (keyword : Block.Keyword)
  | strayArm (which : Block.Arm)
  | malformedFor
  | missingCondition (keyword : String)
  | missingName (keyword : Block.Keyword)
  | unknownName (name : String)
  | columnCount (expected found : Nat)
  | unknownSection (name : String)
  /-- A section that is too deep; `expected` are the kinds that could stand there. -/
  | unexpectedSection (kind : SectionKind) (expected : List SectionKind)
  | misplacedSection (kind : SectionKind)
  | missingSection (header : String) (awaited : List String)
  | unknownSetting (name : String) (suggestions : List String)
  | repeatedSetting (name : String)
  | deprecatedSetting (name notice : String)
  | emptyValue (name : String)
  | unknownZone (name : String) (cause : TimeError)
  | notListed (name value : String) (options : List String)
  | wrongFormat (name : String) (sample : Option String)
  | notNumber (name value : String) (integer : Bool)
  | outOfBounds (name : String) (bounds : Bounds)
  | notBoolean (name : String) (options : List String)
  | percentileRank (rank : String)
  | deprecatedPercentile (value rank : String)
  | deprecatedSeconds (name value : String)
  | notInterval (name : String) (options : List String)
  | invalidDate (name : String) (cause : TimeError)
  | notStructured (name : String)
  | malformedObject (name : String) (cause : JsonError)
  | missingSettings (group : List Alternative)
  | missingCompanion (dependent : String) (conditions : List Condition) (required : List String)
  | ineffective (name : String) (conditions : List Condition)
  | ineffectiveOnWidget (name widget : String) (widgets : List String)
  | ineffectiveInSection (name : String) (kind : SectionKind) (kinds : List SectionKind)
  | colorCount (thresholds colors : Nat)
  | dateOrder (earlier later : String)
  | rowOverflow (needed available : Float)
  | groupOverflow (needed available : Float)

namespace Problem

def code : Problem → Code
  | .unclosedBlock _ => .unclosedBlock
  | .unmatchedEnd _ | .strayArm _ => .unmatchedEnd
  | .malformedFor | .missingCondition _ | .missingName _ => .malformedKeyword
  | .unknownName _ => .unknownName
  | .unknownSection _ => .unknownSection
  | .unexpectedSection .. | .misplacedSection _ => .unexpectedSection
  | .missingSection .. => .missingSection
  | .unknownSetting .. => .unknownSetting
  | .repeatedSetting _ => .repeatedSetting
  | .columnCount .. | .emptyValue _ | .unknownZone .. | .notListed .. | .wrongFormat ..
  | .notNumber .. | .outOfBounds .. | .notBoolean .. | .percentileRank _ | .notInterval .. =>
    .invalidValue
  | .invalidDate .. => .invalidDate
  | .notStructured _ | .malformedObject .. => .invalidObject
  | .missingSettings _ | .missingCompanion .. => .missingSetting
  | .colorCount .. => .colorCount
  | .dateOrder .. => .dateOrder
  | .ineffective .. | .ineffectiveOnWidget .. | .ineffectiveInSection .. => .uselessSetting
  | .deprecatedSetting .. | .deprecatedPercentile .. | .deprecatedSeconds .. => .deprecatedSetting
  | .rowOverflow .. | .groupOverflow .. => .layoutOverflow

def listed (values : List String) : String :=
  Text.joined ", " values

def bracketed (name : String) : String :=
  s!"[{name}]"

def headers (kinds : List SectionKind) : List String :=
  kinds.map fun kind => bracketed kind.name

def choice : List String → String
  | [] => ""
  | [a] => a
  | texts => listed texts.dropLast ++ " or " ++ texts.getLastD ""

def together (conditions : List Condition) : String :=
  Text.joined " and " (conditions.map Condition.describe)

def message : Problem → String
  | .unclosedBlock kw => s!"'{kw.spelling}' is not closed, expected '{kw.closer}'"
  | .unmatchedEnd kw => s!"'{kw.closer}' has no matching '{kw.spelling}'"
  | .strayArm a => s!"'{a.spelling}' has no matching 'if'"
  | .malformedFor => "for must be followed by '<name> in <collection>'"
  | .missingCondition keyword => s!"{keyword} must be followed by a condition"
  | .missingName kw => s!"{kw.spelling} must be followed by a name"
  | .unknownName name => s!"unknown name '{name}'"
  | .columnCount expected found => s!"expected {expected} columns, found {found}"
  | .unknownSection name => s!"unknown section {bracketed name}"
  | .unexpectedSection kind expected =>
    s!"unexpected section {bracketed kind.name}, expected {choice (headers expected)}"
  | .misplacedSection kind =>
    s!"{bracketed kind.name} must be inside {choice (headers kind.parents)}"
  | .missingSection header awaited =>
    s!"{bracketed header} requires {choice (awaited.map bracketed)}"
  | .unknownSetting name [] => s!"unknown setting '{name}'"
  | .unknownSetting name suggestions =>
    s!"unknown setting '{name}', did you mean {Suggestion.render suggestions}?"
  | .repeatedSetting name => s!"{name} is already defined"
  | .deprecatedSetting name notice => s!"{name} is deprecated. {notice}"
  | .emptyValue name => s!"{name} must not be empty"
  | .unknownZone name cause => s!"{name}: {cause.message}"
  | .notListed name value options =>
    s!"'{value}' is not a valid {name}, expected one of: {listed options}"
  | .wrongFormat name none => s!"{name} has an invalid format"
  | .wrongFormat name (some sample) => s!"{name} has an invalid format, for example: {sample}"
  | .notNumber name value true => s!"{name} must be an integer, found '{value}'"
  | .notNumber name value false => s!"{name} must be a number, found '{value}'"
  | .outOfBounds name bounds => s!"{name} must be {bounds.describe}"
  | .notBoolean name options => s!"{name} must be one of: {listed options}"
  | .percentileRank rank => s!"percentile rank must be between 0 and 100, found '{rank}'"
  | .deprecatedPercentile value rank =>
    s!"{value} is deprecated, use percentile({rank}) instead"
  | .deprecatedSeconds name value =>
    s!"{name} without a unit is deprecated, use '{value} second' instead"
  | .notInterval name [] => s!"{name} must be an interval such as '1 hour' or 'all'"
  | .notInterval name options =>
    s!"{name} must be an interval such as '1 hour' or 'all', or one of: {listed options}"
  | .invalidDate name cause => s!"{name}: {cause.message}"
  | .notStructured name => s!"{name} must be an object or an array"
  | .malformedObject name cause => s!"{name} is not a valid object: {cause.message}"
  | .missingSettings group =>
    Text.joined " or " (group.map Alternative.render) ++ " is required"
  | .missingCompanion dependent conditions required =>
    let need := Text.joined " or " required ++ s!" is required if {dependent} is specified"
    if conditions.isEmpty then need else s!"{need} and {together conditions}"
  | .ineffective name conditions => s!"{name} has no effect unless {together conditions}"
  | .ineffectiveOnWidget name widget widgets =>
    s!"{name} has no effect on {widget} widgets, it applies to: {listed widgets}"
  | .ineffectiveInSection name kind kinds =>
    s!"{name} has no effect in {bracketed kind.name}, it applies to: {listed (headers kinds)}"
  | .colorCount thresholds colors =>
    let needed := thresholds - 1
    s!"incorrect colors count: {thresholds} thresholds need {needed} colors, found {colors}"
  | .dateOrder earlier later => s!"{later} must be greater than {earlier}"
  | .rowOverflow needed available =>
    let need := s!"widgets in this row need {Decimal.text needed} width-units"
    s!"{need}, the grid has {Decimal.text available}"
  | .groupOverflow needed available =>
    let need := s!"widgets in this group need {Decimal.text needed} height-units"
    s!"{need}, the grid has {Decimal.text available}"

end Problem
end ChartLint
