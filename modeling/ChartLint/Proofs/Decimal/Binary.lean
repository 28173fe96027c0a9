import ChartLint.Decimal.Binary
import Mathlib

/-!
# Floats that are not less than one

The product of two such floats is one again, or infinite (`Binary.AtLeastOne.mul`). A product is
rounded to 53 binary digits and packed into the bits of a float, so the facts used here are what
rounding does to a number of at least that many digits, and what the packed bits are.
-/

namespace ChartLint.Binary

open Float.Model Float.Model.UnpackedFloat

theorem toNat_unpackMantissa (bits : BitVec 64) :
    (@unpackMantissa .binary64 bits).toNat = bits.toNat % 2 ^ 52 := by
  simp [unpackMantissa, BitVec.extractLsb_toNat]

theorem toNat_unpackExponent (bits : BitVec 64) :
    (@unpackExponent .binary64 bits).toNat = bits.toNat / 2 ^ 52 % 2 ^ 11 := by
  simp [unpackExponent, BitVec.extractLsb_toNat, Nat.shiftRight_eq_div_pow]

theorem toNat_unpackSign (bits : BitVec 64) :
    (@unpackSign .binary64 bits).toNat = bits.toNat / 2 ^ 63 % 2 := by
  simp [unpackSign, BitVec.extractLsb_toNat, Nat.shiftRight_eq_div_pow]

theorem toNat_packComponents (sign : Sign) (exponent : BitVec 11) (mantissa : BitVec 52) :
    (packComponents .binary64 sign exponent mantissa).toNat =
      (sign.toBitVec.toNat * 2 ^ 11 + exponent.toNat) * 2 ^ 52 + mantissa.toNat := by
  have low := mantissa.isLt
  have high := exponent.isLt
  simp only [packComponents, BitVec.toNat_append]
  rw [← Nat.shiftLeft_add_eq_or_of_lt low, ← Nat.shiftLeft_add_eq_or_of_lt high]
  simp [Nat.shiftLeft_eq]

theorem mantissa_shiftRight (em : ExtendedMantissa) (n : Nat) :
    (em >>> n).mantissa = em.mantissa / 2 ^ n := by
  change (Nat.repeat ExtendedMantissa.shiftRightOne n em).mantissa = _
  induction n with
  | zero => simp [Nat.repeat]
  | succ n ih =>
      simp [Nat.repeat, ExtendedMantissa.shiftRightOne, ih, Nat.div_div_eq_div_mul, Nat.pow_succ]

theorem roundedMantissa_eq (em : ExtendedMantissa) :
    em.roundedMantissa = em.mantissa ∨ em.roundedMantissa = em.mantissa + 1 := by
  obtain ⟨m, round, sticky⟩ := em
  cases round <;> cases sticky <;>
    simp [ExtendedMantissa.roundedMantissa, ExtendedMantissa.accuracy, Accuracy.roundToNearestEven]
  omega

theorem shiftToTargetExponent_eq {m n : Nat} {e : Int} (accuracy : Accuracy)
    (size : m.log2 = 52 + n) (large : -1074 ≤ e + n) :
    (shiftToTargetExponent .binary64 m e accuracy).1.mantissa = m / 2 ^ n ∧
      (shiftToTargetExponent .binary64 m e accuracy).2 = e + n := by
  have target : Format.binary64.targetExponent (totalExponent m e) = e + n := by
    simp only [Format.targetExponent, totalExponent, Format.mantissaBits, Format.minExponent, size]
    omega
  have amount : (e + n - e).toNat = n := by omega
  simp only [shiftToTargetExponent, shiftToExponent, target, amount, mantissa_shiftRight, and_true]
  unfold ExtendedMantissa.ofMantissaAndAccuracy
  split <;> rfl

theorem div_normal {m n : Nat} (size : m.log2 = 52 + n) :
    2 ^ 52 ≤ m / 2 ^ n ∧ m / 2 ^ n < 2 ^ 53 := by
  have pos : m ≠ 0 := by
    rintro rfl
    simp only [Nat.log2_zero] at size
    omega
  obtain ⟨le, lt⟩ := (Nat.log2_eq_iff pos).mp size
  constructor
  · rw [Nat.le_div_iff_mul_le (Nat.two_pow_pos n), ← Nat.pow_add]
    exact le
  · rw [Nat.div_lt_iff_lt_mul (Nat.two_pow_pos n), ← Nat.pow_add]
    exact Nat.lt_of_lt_of_eq lt (by congr 1; omega)

theorem log2_normal {m : Nat} (le : 2 ^ 52 ≤ m) (le' : m ≤ 2 ^ 53) :
    ∃ n, m.log2 = 52 + n := by
  have := (Nat.le_log2 (n := m) (k := 52) (by omega)).mpr le
  exact ⟨m.log2 - 52, by omega⟩

/-- The significand `m` takes up 53 binary digits, and `m * 2 ^ e` is not less than one. -/
structure IsNormal (m : Nat) (e : Int) : Prop where
  le : 2 ^ 52 ≤ m
  lt : m < 2 ^ 53
  large : -52 ≤ e

theorem IsNormal.pos {m : Nat} {e : Int} (normal : IsNormal m e) : 0 < m :=
  Nat.lt_of_lt_of_le (by decide) normal.le

theorem roundWithAccuracy_normal {m n : Nat} {e : Int} (sign : Sign) (accuracy : Accuracy)
    (size : m.log2 = 52 + n) (large : -52 ≤ e + n) :
    ∃ m' e', ∃ normal : IsNormal m' e',
      roundWithAccuracy .binary64 sign m e accuracy = .finite sign m' e' normal.pos := by
  obtain ⟨mantissa, exponent⟩ := shiftToTargetExponent_eq accuracy size (by omega : -1074 ≤ e + n)
  have normal := div_normal size
  generalize first : shiftToTargetExponent .binary64 m e accuracy = shifted at mantissa exponent
  have rounded := roundedMantissa_eq shifted.1
  obtain ⟨n', size'⟩ := log2_normal (m := shifted.1.roundedMantissa) (by omega) (by omega)
  obtain ⟨mantissa', exponent'⟩ :=
    shiftToTargetExponent_eq (e := shifted.2) .exact size' (by omega)
  have normal' := div_normal size'
  unfold roundWithAccuracy
  simp only [first, mantissa', exponent']
  rw [dif_neg (by omega)]
  exact ⟨_, _, ⟨normal'.1, normal'.2, by omega⟩, rfl⟩

def AtLeastOne (x : Float) : Prop :=
  ∃ m e, ofFloat x = .finite false m e ∧ IsNormal m e

theorem ofFloat_normal_iff {x : Float} {m : Nat} {e : Int} (le : 2 ^ 52 ≤ m) :
    ofFloat x = .finite false m e ↔
      x.toBits.toNat < 2 ^ 63 ∧ x.toBits.toNat / 2 ^ 52 % 2 ^ 11 ≠ 2047 ∧
        x.toBits.toNat / 2 ^ 52 % 2 ^ 11 ≠ 0 ∧ 2 ^ 52 + x.toBits.toNat % 2 ^ 52 = m ∧
        (x.toBits.toNat / 2 ^ 52 % 2 ^ 11 : Nat) - (1075 : Int) = e := by
  simp only [ofFloat, Nat.pow_eq]
  generalize x.toBits.toNat = bits
  by_cases special : bits / 2 ^ 52 % 2 ^ 11 = 2047
  · rw [if_pos special]
    constructor
    · intro equal
      split at equal <;> cases equal
    · intro normal
      exact absurd special normal.2.1
  · rw [if_neg special]
    by_cases subnormal : bits / 2 ^ 52 % 2 ^ 11 = 0
    · rw [if_pos subnormal]
      simp only [finite.injEq, subnormal, ne_eq, not_true, false_and, and_false, iff_false]
      omega
    · rw [if_neg subnormal]
      simp only [finite.injEq, decide_eq_false_iff_not, Nat.not_le, ne_eq, special, subnormal,
        not_false_eq_true, true_and]

theorem unpack_of_atLeastOne {x : Float} (large : AtLeastOne x) :
    ∃ m e, ∃ normal : IsNormal m e, x.toModel.unpack = .finite .positive m e normal.pos := by
  obtain ⟨m, e, value, normal⟩ := large
  refine ⟨m, e, normal, ?_⟩
  obtain ⟨positive, special, subnormal, mantissa, exponent⟩ :=
    (ofFloat_normal_iff normal.le).mp value
  have unpackedExponent := toNat_unpackExponent x.toModel.toBits.toBitVec
  have unpackedMantissa := toNat_unpackMantissa x.toModel.toBits.toBitVec
  have unpackedSign := toNat_unpackSign x.toModel.toBits.toBitVec
  change _ = x.toBits.toNat / 2 ^ 52 % 2 ^ 11 at unpackedExponent
  change _ = x.toBits.toNat % 2 ^ 52 at unpackedMantissa
  change _ = x.toBits.toNat / 2 ^ 63 % 2 at unpackedSign
  have normalExponent : @unpackExponent .binary64 x.toModel.toBits.toBitVec ≠ -1#11 := by
    intro equal
    rw [equal] at unpackedExponent
    exact special unpackedExponent.symm
  have largeExponent : @unpackExponent .binary64 x.toModel.toBits.toBitVec ≠ 0#11 := by
    intro equal
    rw [equal] at unpackedExponent
    exact subnormal unpackedExponent.symm
  have positiveSign : @unpackSign .binary64 x.toModel.toBits.toBitVec = 0#1 := by
    apply BitVec.eq_of_toNat_eq
    rw [unpackedSign]
    simp only [BitVec.toNat_ofNat]
    omega
  have wholeMantissa : (1#1 ++ @unpackMantissa .binary64 x.toModel.toBits.toBitVec).toNat = m := by
    rw [BitVec.toNat_append, ← Nat.shiftLeft_add_eq_or_of_lt (BitVec.isLt _), unpackedMantissa,
      ← mantissa]
    rfl
  simp only [Float.Model.unpack, UnpackedFloat.unpack, normalExponent, largeExponent, if_false,
    positiveSign, wholeMantissa, unpackedExponent]
  simp only [Sign.ofBitVec, if_true, UnpackedFloat.finite.injEq, true_and]
  rw [← exponent]
  rfl

theorem toNat_pack {m : Nat} {e : Int} (normal : IsNormal m e) :
    (UnpackedFloat.pack .binary64 (.finite .positive m e normal.pos)).toNat =
      if 972 ≤ e then 2047 * 2 ^ 52 else (e + 1075).toNat * 2 ^ 52 + (m - 2 ^ 52) := by
  obtain ⟨le, lt, large⟩ := normal
  have size : m.log2 + 1 = Format.binary64.mantissaBits :=
    congrArg (· + 1) ((Nat.log2_eq_iff (by omega)).mpr ⟨le, lt⟩)
  have biased :
      (e + Format.binary64.exponentBias + Format.binary64.mantissaBitsWithoutImplicit).toNat =
        (e + 1075).toNat := congrArg Int.toNat (Int.add_assoc e _ _)
  unfold UnpackedFloat.pack
  dsimp only
  rw [biased, if_pos size]
  by_cases overflow : 972 ≤ e
  · rw [if_pos (show 2 ^ 11 ≤ (e + 1075).toNat + 1 by omega), if_pos overflow]
    rfl
  · rw [if_neg (show ¬ 2 ^ 11 ≤ (e + 1075).toNat + 1 by omega), if_neg overflow,
      toNat_packComponents]
    simp only [Sign.toBitVec, BitVec.toNat_ofNat]
    omega

theorem ofFloat_pack {m : Nat} {e : Int} (normal : IsNormal m e) :
    ofFloat ⟨Float.Model.pack (.finite .positive m e normal.pos)⟩ = .finite false m e ∨
      ofFloat ⟨Float.Model.pack (.finite .positive m e normal.pos)⟩ = .infinite false := by
  have bits := toNat_pack normal
  change (Float.toBits ⟨Float.Model.pack (.finite .positive m e normal.pos)⟩).toNat = _ at bits
  have := normal.le
  have := normal.lt
  have := normal.large
  split at bits
  · right
    simp [ofFloat, bits]
  · left
    have exponent :
        ((e + 1075).toNat * 2 ^ 52 + (m - 2 ^ 52)) / 2 ^ 52 % 2 ^ 11 = (e + 1075).toNat := by
      omega
    rw [ofFloat_normal_iff normal.le, bits, exponent]
    omega

theorem AtLeastOne.mul {x y : Float} (large : AtLeastOne x) (large' : AtLeastOne y) :
    AtLeastOne (x * y) ∨ ofFloat (x * y) = .infinite false := by
  obtain ⟨m, e, normal, unpacked⟩ := unpack_of_atLeastOne large
  obtain ⟨m', e', normal', unpacked'⟩ := unpack_of_atLeastOne large'
  have product : 2 ^ 52 * 2 ^ 52 ≤ m * m' := Nat.mul_le_mul normal.le normal'.le
  have digits : 104 ≤ (m * m').log2 := by
    rw [← Nat.pow_add] at product
    exact (Nat.le_log2 (by omega)).mpr product
  have := normal.large
  have := normal'.large
  obtain ⟨m'', e'', normal'', rounded⟩ :=
    roundWithAccuracy_normal (m := m * m') (n := (m * m').log2 - 52) (e := e + e') .positive .exact
      (by omega) (by omega)
  have value : x * y = ⟨Float.Model.pack (.finite .positive m'' e'' normal''.pos)⟩ := by
    change Float.ofModel (Float.Model.pack
      (UnpackedFloat.mul .binary64 x.toModel.unpack y.toModel.unpack)) = _
    rw [unpacked, unpacked', ← rounded]
    rfl
  rw [value]
  rcases ofFloat_pack normal'' with finite | infinite
  · exact .inl ⟨m'', e'', finite, normal''⟩
  · exact .inr infinite

theorem ofFloat_finite {x : Float} {negative : Bool} {m : Nat} {e : Int}
    (value : ofFloat x = .finite negative m e) : m < 2 ^ 53 ∧ (e = -1074 ∨ 2 ^ 52 ≤ m) := by
  simp only [ofFloat, Nat.pow_eq] at value
  generalize x.toBits.toNat = bits at value
  by_cases special : bits / 2 ^ 52 % 2 ^ 11 = 2047
  · rw [if_pos special] at value
    split at value <;> cases value
  · rw [if_neg special] at value
    by_cases subnormal : bits / 2 ^ 52 % 2 ^ 11 = 0
    · rw [if_pos subnormal, finite.injEq] at value
      omega
    · rw [if_neg subnormal, finite.injEq] at value
      omega

theorem eq_signed_of_whole? {negative : Bool} {m : Nat} {e n : Int}
    (whole : (finite negative m e).whole? = some n) :
    n = signed negative (flooredMagnitude m e) := by
  unfold whole? at whole
  unfold flooredMagnitude
  cases e with
  | ofNat e => exact (Option.some.inj whole).symm
  | negSucc e =>
      dsimp only at whole ⊢
      split at whole
      · exact (Option.some.inj whole).symm
      · cases whole

theorem exponent_of_flooredMagnitude {m : Nat} {e : Int} (lt : m < 2 ^ 53)
    (pos : 1 ≤ flooredMagnitude m e) : -52 ≤ e := by
  cases e with
  | ofNat e => exact Int.le_trans (by decide) (Int.natCast_nonneg e)
  | negSucc e =>
      by_cases small : e < 52
      · omega
      · have power : 2 ^ 53 ≤ 2 ^ (e + 1) := Nat.pow_le_pow_right (by decide) (by omega)
        have zero : m / 2 ^ (e + 1) = 0 := Nat.div_eq_of_lt (by omega)
        have floored : flooredMagnitude m (.negSucc e) = 0 := zero
        omega

theorem atLeastOne_of_whole? {x : Float} {n : Int} (whole : (ofFloat x).whole? = some n)
    (one_le : 1 ≤ n) : AtLeastOne x := by
  cases value : ofFloat x with
  | nan => simp [value, whole?] at whole
  | infinite negative => simp [value, whole?] at whole
  | finite negative m e =>
      obtain ⟨lt, size⟩ := ofFloat_finite value
      rw [value] at whole
      have magnitude := eq_signed_of_whole? whole
      cases negative with
      | true =>
          simp only [signed, if_true] at magnitude
          omega
      | false =>
          simp only [signed, Bool.false_eq_true, if_false] at magnitude
          have large := exponent_of_flooredMagnitude lt (e := e) (by omega)
          exact ⟨m, e, value, by omega, lt, large⟩

theorem roundedMagnitude_pos {m : Nat} {e : Int} (normal : IsNormal m e) :
    1 ≤ roundedMagnitude m e := by
  obtain ⟨le, -, large⟩ := normal
  cases e with
  | ofNat e => exact Nat.mul_pos (by omega) (Nat.two_pow_pos e)
  | negSucc e =>
      have power : 2 ^ (e + 1) ≤ 2 ^ 52 := Nat.pow_le_pow_right (by decide) (by omega)
      apply (Nat.le_div_iff_mul_le (Nat.two_pow_pos (e + 1))).mpr
      change 1 * 2 ^ (e + 1) ≤ m + 2 ^ e
      omega

end ChartLint.Binary
