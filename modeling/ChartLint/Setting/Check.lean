import ChartLint.Diagnostic.Basic
import ChartLint.Json.Reader
import ChartLint.Setting.Basic
import ChartLint.Setting.Items
import ChartLint.Time.Interval
import ChartLint.Time.Zone.Basic

/-!
# Checking values

Each kind of value has its check. A value has at most one problem.
-/

namespace ChartLint

namespace ValueCheck

def truthValues : List String :=
  ["true", "false", "yes", "no", "on", "off", "1", "0", "null", "none"]

def zoneSetting : String := "timezone"

def secondsSetting : String := "update-interval"

def isInteger (cs : List Char) : Bool :=
  let digits := (Decimal.splitSign cs).2
  !digits.isEmpty && digits.all Char.isDigit

def isDecimal (cs : List Char) : Bool :=
  let body := (Decimal.splitSign cs).2
  let (whole, places) := (Text.splitOnce? '.' body).getD (body, [])
  (!whole.isEmpty || !places.isEmpty) && whole.all Char.isDigit && places.all Char.isDigit

def text? (d : Descriptor) (text : String) : Option Problem :=
  if d.options.isEmpty then
    match d.format with
    | some format =>
      if format.accepts text then none else some (.wrongFormat d.name d.sample)
    | none => none
  else
    ((Items.split text).find? fun item => !d.lists item).map fun item =>
      .notListed d.name item d.options

def number? (d : Descriptor) (text : String) : Option Problem :=
  let integer := d.type == .integer
  let (digits, factor) :=
    match Text.dropLast? '%' text.toList with
    | some before => if d.percent then (Text.trimEnd before, (100 : Float)) else (text.toList, 1)
    | none => (text.toList, 1)
  let wellFormed := if integer then isInteger digits else isDecimal digits
  match if wellFormed then Decimal.read? (String.ofList digits) else none with
  | none => some (.notNumber d.name text integer)
  | some x =>
    let bounds : Bounds := ⟨d.min.map (·.scaled factor), d.max.map (·.scaled factor)⟩
    if bounds.min.all (·.admitsAbove x) && bounds.max.all (·.admitsBelow x) then none
    else some (.outOfBounds d.name bounds)

def rank? (rank : List Char) : Option Problem :=
  let text := String.ofList rank
  if isDecimal rank && (Decimal.read? text).any fun x => 0 ≤ x && x ≤ 100 then none
  else some (.percentileRank text)

def rankInParens? (cs : List Char) : Option (List Char) := do
  let rest ← Text.dropLead? "percentile".toList cs
  let rest ← Text.dropLead? ['('] (Text.trimStart rest)
  let inner ← Text.dropLast? ')' rest
  return Text.trim inner

/-- One of some values. Where `percentile` is one, it may come with a rank. -/
def choice? (d : Descriptor) (text : String) : Option Problem :=
  if d.lists text then none
  else
    let unlisted := Problem.notListed d.name text d.options
    if d.lists "percentile" then
      match rankInParens? text.toList with
      | some rank => rank? rank
      | none =>
        match Text.dropLead? "percentile_".toList text.toList with
        | some rank => some ((rank? rank).getD (.deprecatedPercentile text (String.ofList rank)))
        | none => some unlisted
    else some unlisted

def interval? (d : Descriptor) (text : String) : Option Problem :=
  if (IntervalValue.parse text).isOk || d.lists text then none
  else if isInteger text.toList && d.name == secondsSetting then
    some (.deprecatedSeconds d.name text)
  else some (.notInterval d.name d.options)

def date? (d : Descriptor) (dates : DateContext) (text : String) : Option Problem :=
  match (DateExpression.parse text).bind fun e => e.evaluate dates.now dates.zone with
  | .ok _ => none
  | .error cause => some (.invalidDate d.name cause)

def object? (d : Descriptor) (text : String) : Option Problem :=
  match JsonValue.parse text with
  | .ok (.object _) | .ok (.array _) => none
  | .ok _ => some (.notStructured d.name)
  | .error cause => some (.malformedObject d.name cause)

def zone? [ZoneDatabase] (d : Descriptor) (text : String) : Option Problem :=
  match Zone.parse text with
  | .ok _ => none
  | .error cause => some (.unknownZone d.name cause)

end ValueCheck

open ValueCheck in
def Descriptor.problem? [ZoneDatabase] (d : Descriptor) (dates : DateContext) (text : String) :
    Option Problem :=
  if d.name = zoneSetting then zone? d text
  else
    match d.type with
    | .string => text? d text
    | .number | .integer => number? d text
    | .boolean => if truthValues.contains text then none else some (.notBoolean d.name truthValues)
    | .enum => choice? d text
    | .interval => interval? d text
    | .date => date? d dates text
    | .object => object? d text

namespace Setting

/-- What is wrong with a value of a setting, and where. A computed value is not looked at, and an
empty one is reported at the name. -/
def problem? [ZoneDatabase] (s : Setting) (dates : DateContext) (value : Span) :
    Option (Problem × Span) :=
  if isComputed value.text then none
  else if value.text.isEmpty then some (.emptyValue s.descriptor.name, s.name)
  else (s.descriptor.problem? dates value.text).map fun p => (p, value)

/-- Checks a value of a setting. The setting takes note of a value that is no date. -/
def check [ZoneDatabase] (s : Setting) (dates : DateContext) (value : Span) :
    Setting × Option Diagnostic :=
  match s.problem? dates value with
  | none => (s, none)
  | some (p, place) =>
    (if p.code = .invalidDate then s.markBroken else s, some (.ofProblem p place))

end Setting
end ChartLint
