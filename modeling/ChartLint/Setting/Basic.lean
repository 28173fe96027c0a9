import ChartLint.Catalog.Descriptor
import ChartLint.Span
import ChartLint.Time.Expression.Basic

/-!
# Settings

A setting is a declaration `name = value` together with what is known about its name.
-/

namespace ChartLint

structure DateContext where
  now : WallClock
  zone : Zone

inductive DateMemo where
  | unread
  | read (value : Instant)
  | broken

structure Setting where
  descriptor : Descriptor
  name : Span
  value : Span
  /-- The values of later declarations that add to this one. -/
  more : List Span := []
  date : DateMemo := .unread

/-- Whether a value is worked out only when the document is shown. -/
def isComputed (value : String) : Bool :=
  Text.contains ['$', '\x7b'] value.toList || Text.contains ['@', '\x7b'] value.toList

namespace Setting

def values (s : Setting) : List Span :=
  s.value :: s.more

def isBroken (s : Setting) : Bool :=
  match s.date with
  | .broken => true
  | _ => false

def markBroken (s : Setting) : Setting :=
  { s with date := .broken }

def addValue (s : Setting) (value : Span) : Setting :=
  { s with more := s.more ++ [value] }

/-- The value as a date. It is worked out once and then kept, and so is a failure. -/
def dateValue (s : Setting) (dates : DateContext) : Setting × Option Instant :=
  if isComputed s.value.text then (s, none)
  else
    match s.date with
    | .broken => (s, none)
    | .read value => (s, some value)
    | .unread =>
      match (DateExpression.parse s.value.text).bind fun e => e.evaluate dates.now dates.zone with
      | .ok value => ({ s with date := .read value }, some value)
      | .error _ => (s.markBroken, none)

end Setting
end ChartLint
