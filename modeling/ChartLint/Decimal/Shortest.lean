import ChartLint.Decimal.Binary

/-!
# The shortest decimal text of a float

Of all decimals that read back as a given float, the text shows one with the fewest digits, and of
those the one nearest to the float. It is written positionally, never with an exponent, and a whole
number has no decimal point.
-/

namespace ChartLint.Decimal

structure Digits where
  digits : Nat
  exponent : Int
  deriving DecidableEq, Repr

structure Fraction where
  num : Nat
  den : Nat
  deriving DecidableEq, Repr

def Fraction.scaled (value base : Nat) (power : Int) : Fraction :=
  match power with
  | .ofNat p => ⟨value * Nat.pow base p, 1⟩
  | .negSucc p => ⟨value, Nat.pow base (p + 1)⟩

def Fraction.compare (a b : Fraction) : Ordering :=
  Ord.compare (a.num * b.den) (b.num * a.den)

/-- The decimals that read back as a float lie between two bounds, which themselves count when the
float's mantissa is even. -/
structure Reach where
  value : Fraction
  low : Fraction
  high : Fraction
  closed : Bool

/-- The bounds of `mantissa * 2 ^ exponent`: half way to its neighbours. Below a power of two the
neighbour is nearer. -/
def Reach.ofBinary (m : Nat) (e : Int) : Reach where
  value := .scaled (4 * m) 2 (e - 2)
  low := .scaled (if m = Nat.pow 2 52 ∧ e > -1074 then 4 * m - 1 else 4 * m - 2) 2 (e - 2)
  high := .scaled (4 * m + 2) 2 (e - 2)
  closed := m % 2 == 0

def Reach.admits (r : Reach) (d : Digits) : Bool :=
  let x := Fraction.scaled d.digits 10 d.exponent
  match r.low.compare x, x.compare r.high with
  | .lt, .lt => true
  | .eq, .lt | .lt, .eq | .eq, .eq => r.closed
  | _, _ => false

def Reach.neighbours (r : Reach) (exponent : Int) : Digits × Digits :=
  let unit := Fraction.scaled 1 10 exponent
  let below := r.value.num * unit.den / (r.value.den * unit.num)
  (⟨below, exponent⟩, ⟨below + 1, exponent⟩)

/-- The neighbour that reads back; of two the nearer, and the upper one when both are as near. -/
def Reach.pick? (r : Reach) (exponent : Int) : Option Digits :=
  let (below, above) := r.neighbours exponent
  match r.admits below, r.admits above with
  | true, false => some below
  | false, true => some above
  | false, false => none
  | true, true =>
    -- Twice the value against the sum of the two neighbours.
    let middle := Fraction.scaled (below.digits + above.digits) 10 exponent
    let twice : Fraction := ⟨2 * r.value.num, r.value.den⟩
    if twice.compare middle == .lt then some below else some above

def Reach.search (r : Reach) : Nat → Int → Digits
  | 0, exponent => (r.neighbours exponent).1
  | fuel + 1, exponent =>
    match r.pick? exponent with
    | some d => d
    | none => r.search fuel (exponent - 1)

/-- The shortest decimal that reads back as `mantissa * 2 ^ exponent`. The search starts above every
float and stops at the latest with the float's own digits. -/
def shortest (m : Nat) (e : Int) : Digits :=
  let r := Reach.ofBinary m e
  -- A number of `k` bits lies below `10 ^ (k * 0.302)`.
  let top : Int := ((Nat.log2 m : Int) + 1 + e) * 302 / 1000 + 2
  r.search 40 top

def dropZeros : Nat → Digits → Digits
  | 0, d => d
  | fuel + 1, d =>
    if d.digits % 10 = 0 ∧ d.exponent < 0 then dropZeros fuel ⟨d.digits / 10, d.exponent + 1⟩ else d

def Digits.positional (d : Digits) : List Char :=
  let d := dropZeros 40 d
  let digits := Nat.toDigits 10 d.digits
  match d.exponent with
  | .ofNat e => digits ++ List.replicate e '0'
  | .negSucc e =>
    let places := e + 1
    let padded := List.replicate (places + 1 - digits.length) '0' ++ digits
    padded.take (padded.length - places) ++ '.' :: padded.drop (padded.length - places)

def text (x : Float) : String :=
  match Binary.ofFloat x with
  | .nan => "NaN"
  | .infinite negative => if negative then "-inf" else "inf"
  | .finite negative m e =>
    let magnitude := if m = 0 then ['0'] else (shortest m e).positional
    String.ofList (if negative then '-' :: magnitude else magnitude)

end ChartLint.Decimal
