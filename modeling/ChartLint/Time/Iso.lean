import ChartLint.Decimal.Read
import ChartLint.Time.WallClock

/-!
# Dates and times as text

Dates are written `yyyy-mm-dd`, times `hh:mm:ss` with as many decimals as they need in groups of
three. A year that is negative or has more than four digits carries its sign.
-/

namespace ChartLint.Iso

def padded (width n : Nat) : String :=
  let digits := Nat.toDigits 10 n
  String.ofList (List.replicate (width - digits.length) '0' ++ digits)

def yearText (year : Int) : String :=
  let digits := padded 4 year.natAbs
  if year < 0 then s!"-{digits}" else if year > 9999 then s!"+{digits}" else digits

def dateText (date : Date) : String :=
  let c := date.civil
  s!"{yearText c.year}-{padded 2 c.month}-{padded 2 c.day}"

/-- A fraction of a second in three, six or nine digits, and nothing for a whole second. -/
def fractionText (nano : Nat) : String :=
  if nano = 0 then ""
  else if nano % 1000000 = 0 then s!".{padded 3 (nano / 1000000)}"
  else if nano % 1000 = 0 then s!".{padded 6 (nano / 1000)}"
  else s!".{padded 9 nano}"

def timeText (time : TimeOfDay) : String :=
  let seconds := time.nanos / 1000000000
  let fraction := fractionText (time.nanos % 1000000000)
  s!"{padded 2 (seconds / 3600)}:{padded 2 (seconds / 60 % 60)}:{padded 2 (seconds % 60)}{fraction}"

def clockText (w : WallClock) : String :=
  s!"{dateText w.date}T{timeText w.time}"

def offsetText (minutes : Int) : String :=
  let sign := if minutes < 0 then "-" else "+"
  s!"{sign}{padded 2 (minutes.natAbs / 60)}:{padded 2 (minutes.natAbs % 60)}"

/-! ## Reading -/

def digits? (width : Nat) (cs : List Char) : Option (Nat × List Char) :=
  let ds := cs.take width
  if ds.length = width ∧ ds.all Char.isDigit then some (Decimal.natOfDigits ds, cs.drop width)
  else none

def oneOf? (choices : List Char) : List Char → Option (List Char)
  | [] => none
  | c :: cs => if choices.contains c then some cs else none

/-- Nanoseconds from the digits after the point; digits past the ninth are dropped. -/
def nanosOfFraction (digits : List Char) : Nat :=
  let ds := digits.take 9
  Decimal.natOfDigits (ds ++ List.replicate (9 - ds.length) '0')

def fraction? : List Char → Option (Nat × List Char)
  | '.' :: cs =>
    let digits := cs.takeWhile Char.isDigit
    if digits.isEmpty then none else some (nanosOfFraction digits, cs.dropWhile Char.isDigit)
  | cs => some (0, cs)

def monthAndDay? (year : Int) (cs : List Char) : Option (Date × List Char) := do
  let cs ← oneOf? ['-'] cs
  let (month, cs) ← digits? 2 cs
  let cs ← oneOf? ['-'] cs
  let (day, cs) ← digits? 2 cs
  let date ← Date.ofCivil? ⟨year, month, day⟩
  return (date, cs)

def time? (cs : List Char) : Option (TimeOfDay × List Char) := do
  let (hour, cs) ← digits? 2 cs
  let cs ← oneOf? [':'] cs
  let (minute, cs) ← digits? 2 cs
  let cs ← oneOf? [':'] cs
  let (second, cs) ← digits? 2 cs
  let (nano, cs) ← fraction? cs
  let time ← TimeOfDay.of? hour minute second nano
  return (time, cs)

def year? (cs : List Char) : Option (Int × List Char) :=
  match cs with
  | c :: r =>
    if c = '+' ∨ c = '-' then
      let digits := r.takeWhile Char.isDigit
      if digits.isEmpty then none
      else
        let n : Int := Decimal.natOfDigits digits
        some (if c = '-' then -n else n, r.dropWhile Char.isDigit)
    else (digits? 4 cs).map fun (n, rest) => (n, rest)
  | [] => none

def clock? (text : String) : Option WallClock := do
  let (year, cs) ← year? text.toList
  let (date, cs) ← monthAndDay? year cs
  let cs ← oneOf? ['T'] cs
  let (time, cs) ← time? cs
  if cs.isEmpty then return .ofDate date time else none

def offset? (cs : List Char) : Option (Int × List Char) :=
  match cs with
  | [] => none
  | c :: cs =>
    if c = 'Z' ∨ c = 'z' then some (0, cs)
    else do
      let sign : Int ← if c = '+' then some 1 else if c = '-' ∨ c = '−' then some (-1) else none
      let (hours, cs) ← digits? 2 cs
      let cs ← oneOf? [':'] cs
      let (minutes, cs) ← digits? 2 cs
      if hours ≤ 23 ∧ minutes ≤ 59 then return (sign * (hours * 60 + minutes), cs) else none

/-- The UTC clock at a timestamp such as `2021-06-10T15:30:00+02:00`. -/
def timestamp? (text : String) : Option WallClock := do
  let (year, cs) ← digits? 4 text.toList
  let (date, cs) ← monthAndDay? year cs
  let cs ← oneOf? ['T', 't', ' '] cs
  let (time, cs) ← time? cs
  let (offset, cs) ← offset? cs
  if cs.isEmpty then (WallClock.ofDate date time).addMinutes? (-offset) else none

end ChartLint.Iso
