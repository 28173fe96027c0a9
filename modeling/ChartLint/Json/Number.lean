import ChartLint.Decimal.Read
import ChartLint.Json.Error

/-!
# JSON numbers

The digits of a number are gathered in a significand of 64 bits. Digits that do not fit are only
counted. The number is the significand, as a float, times or divided by a power of ten.
-/

namespace ChartLint.JsonNumber

open Text

/-- A fault together with the number of bytes that had not been looked at. -/
structure Stop where
  fault : JsonFault
  unread : Nat

/-- A fault at the next character. At the end of the text there is none to look at. -/
def atNext {α : Type} (fault : JsonFault) (cs : List Char) : Except Stop α :=
  .error ⟨fault, byteLength cs - 1⟩

def before {α : Type} (fault : JsonFault) (cs : List Char) : Except Stop α :=
  .error ⟨fault, byteLength cs⟩

def atNextOr {α : Type} (fault atEnd : JsonFault) (cs : List Char) : Except Stop α :=
  atNext (if cs.isEmpty then atEnd else fault) cs

/-- Adds digits to a significand as long as it fits 64 bits. Gives the significand, the number of
digits taken and the rest. -/
def gather (significand taken : Nat) : List Char → Nat × Nat × List Char
  | [] => (significand, taken, [])
  | c :: cs =>
    let next := significand * 10 + (c.toNat - '0'.toNat)
    if c.isDigit && next < 2 ^ 64 then gather next (taken + 1) cs
    else (significand, taken, c :: cs)

def powerOfTen (n : Nat) : Float :=
  Float.ofScientific 1 false n

def divide (x : Float) (n : Nat) : Float :=
  if n ≤ 308 then x / powerOfTen n
  else if x == 0 then x
  else divide (x / powerOfTen 308) (n - 308)
termination_by n

def scale? (significand : Nat) (exponent : Int) : Option Float :=
  let x := Decimal.nearest significand 0
  if exponent < 0 then some (divide x exponent.natAbs)
  else if exponent ≤ 308 then
    let y := x * powerOfTen exponent.natAbs
    if y.isInf then none else some y
  else if x == 0 then some x
  else none

def finish (significand : Nat) (exponent : Int) (rest : List Char) :
    Except Stop (Float × List Char) :=
  match scale? significand exponent with
  | some x => .ok (x, rest)
  | none => before .numberOutOfRange rest

/-- Reads the digits of an exponent after the first. An exponent that does not fit 32 bits makes the
number zero or too large at once. -/
def readExponentDigits (significand : Nat) (start : Int) (negative : Bool) (exponent : Nat) :
    List Char → Except Stop (Float × List Char)
  | [] => finish significand (if negative then start - exponent else start + exponent) []
  | c :: cs =>
    if c.isDigit then
      let next := exponent * 10 + (c.toNat - '0'.toNat)
      if next < 2 ^ 31 then readExponentDigits significand start negative next cs
      else if significand ≠ 0 ∧ !negative then before .numberOutOfRange cs
      else .ok (0, cs.dropWhile Char.isDigit)
    else finish significand (if negative then start - exponent else start + exponent) (c :: cs)

def readExponent (significand : Nat) (start : Int) (cs : List Char) :
    Except Stop (Float × List Char) :=
  let (negative, digits) := Decimal.splitSign cs
  match digits with
  | [] => atNext .endInValue []
  | c :: rest =>
    if c.isDigit then
      readExponentDigits significand start negative (c.toNat - '0'.toNat) rest
    else atNext .invalidNumber digits

def readTail (significand : Nat) (exponent : Int) : List Char → Except Stop (Float × List Char)
  | 'e' :: rest | 'E' :: rest => readExponent significand exponent rest
  | rest => finish significand exponent rest

def readFraction (significand : Nat) (exponent : Int) :
    List Char → Except Stop (Float × List Char)
  | '.' :: places =>
    if places.head?.any Char.isDigit then
      let (significand, taken, rest) := gather significand 0 places
      readTail significand (exponent - taken) (rest.dropWhile Char.isDigit)
    else atNextOr .invalidNumber .endInValue places
  | rest => readTail significand exponent rest

def readMagnitude : List Char → Except Stop (Float × List Char)
  | [] => atNext .endInValue []
  | '0' :: rest =>
    if rest.head?.any Char.isDigit then atNext .invalidNumber rest else readFraction 0 0 rest
  | c :: cs =>
    if c.isDigit then
      let (significand, _, rest) := gather 0 0 (c :: cs)
      let uncounted := rest.takeWhile Char.isDigit
      readFraction significand uncounted.length (rest.dropWhile Char.isDigit)
    else atNext .invalidNumber (c :: cs)

def read : List Char → Except Stop (Float × List Char)
  | '-' :: rest => (readMagnitude rest).map fun (x, after) => (-x, after)
  | cs => readMagnitude cs

end ChartLint.JsonNumber
