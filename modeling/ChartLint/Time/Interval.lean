import ChartLint.Decimal.Read
import ChartLint.Time.Unit

/-!
# Intervals

An interval is a count of a unit, such as `15 minute` or `1.5 * hours`, or the word `all`.
-/

namespace ChartLint

structure Interval where
  count : Float
  unit : TimeUnit

inductive IntervalValue where
  | all
  | counted (interval : Interval)

namespace Interval

def millisFrom (i : Interval) (start : WallClock) : Except TimeError Int := do
  let stop ← start.shift i.unit i.count
  return (stop.nanos - start.nanos).tdiv 1000000

def inCount (c : Char) : Bool :=
  c.isDigit || c == '.'

def ofChars? (cs : List Char) : Option Interval := do
  let number := cs.takeWhile inCount
  let rest := Text.trimStart (cs.dropWhile inCount)
  if number.isEmpty then none
  else
    let count ← Decimal.read? (String.ofList number)
    let unit ← TimeUnit.ofName? ((Text.dropLead? ['*'] rest).getD rest)
    return ⟨count, unit⟩

end Interval

def IntervalValue.parse (text : String) : Except TimeError IntervalValue :=
  let cs := Text.lower (Text.trim text.toList)
  if cs = ['a', 'l', 'l'] then .ok .all
  else
    match Interval.ofChars? cs with
    | some interval => .ok (.counted interval)
    | none => .error (.invalidInterval (String.ofList cs))

end ChartLint
