/-!
# Floating-point numbers as exact values

A `Float` that is a number equals `± mantissa * 2 ^ exponent` with whole `mantissa` and `exponent`.
What has to be exact about it (rounding to a whole number, its shortest digits) is worked out on
these two.
-/

namespace ChartLint

inductive Binary where
  | nan
  | infinite (negative : Bool)
  | finite (negative : Bool) (mantissa : Nat) (exponent : Int)
  deriving DecidableEq, Repr

namespace Binary

/-- The exact value of a float, from its sign, eleven exponent and 52 fraction bits. -/
def ofFloat (x : Float) : Binary :=
  let bits := x.toBits.toNat
  let negative := Nat.pow 2 63 ≤ bits
  let biased : Nat := bits / Nat.pow 2 52 % Nat.pow 2 11
  let fraction : Nat := bits % Nat.pow 2 52
  if biased = 2047 then
    if fraction = 0 then .infinite negative else .nan
  else if biased = 0 then .finite negative fraction (-1074)
  else .finite negative (Nat.pow 2 52 + fraction) ((biased : Int) - 1075)

/-- The whole number nearest to `mantissa * 2 ^ exponent`, a half going up. -/
def roundedMagnitude (mantissa : Nat) (exponent : Int) : Nat :=
  match exponent with
  | .ofNat e => mantissa * Nat.pow 2 e
  | .negSucc e => (mantissa + Nat.pow 2 e) / Nat.pow 2 (e + 1)

/-- The largest whole number not above `mantissa * 2 ^ exponent`. -/
def flooredMagnitude (mantissa : Nat) (exponent : Int) : Nat :=
  match exponent with
  | .ofNat e => mantissa * Nat.pow 2 e
  | .negSucc e => mantissa / Nat.pow 2 (e + 1)

def signed (negative : Bool) (magnitude : Nat) : Int :=
  if negative then -(magnitude : Int) else magnitude

def whole? : Binary → Option Int
  | .finite negative m e =>
    match e with
    | .ofNat e => some (signed negative (m * Nat.pow 2 e))
    | .negSucc e =>
      if m % Nat.pow 2 (e + 1) = 0 then some (signed negative (m / Nat.pow 2 (e + 1))) else none
  | _ => none

end Binary
end ChartLint
