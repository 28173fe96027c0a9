import ChartLint.Proofs.Decimal.Binary

/-!
# Floats that are whole numbers

A float that is a number has an exact value (`Binary.value?`), which is negated with the float
(`Binary.value?_neg`). `Binary.whole?` gives this value wherever it is a whole number.
-/

namespace ChartLint.Binary

open Float.Model Float.Model.UnpackedFloat

def value? : Binary → Option ℚ
  | .finite negative m e => some (signed negative m * 2 ^ e)
  | _ => none

theorem signed_mul (negative : Bool) (m k : Nat) :
    signed negative (m * k) = signed negative m * k := by
  cases negative <;> simp [signed]

theorem signed_not (negative : Bool) (m : Nat) : signed (!negative) m = -signed negative m := by
  cases negative <;> simp [signed]

theorem signed_eq_mul_iff {negative : Bool} {m k : Nat} {n : Int} (pos : 0 < k) :
    signed negative m = n * k ↔ m % k = 0 ∧ signed negative (m / k) = n := by
  constructor
  · intro same
    have divides : k ∣ m := by
      have multiple : (k : Int) ∣ signed negative m := ⟨n, by rw [same, Int.mul_comm]⟩
      cases negative <;> simpa [signed, Int.natCast_dvd_natCast] using multiple
    refine ⟨Nat.mod_eq_zero_of_dvd divides, ?_⟩
    rw [← Nat.div_mul_cancel divides, signed_mul] at same
    exact Int.eq_of_mul_eq_mul_right (by omega) same
  · rintro ⟨divides, rfl⟩
    rw [← signed_mul, Nat.div_mul_cancel (Nat.dvd_of_mod_eq_zero divides)]

theorem whole?_eq_some_iff {b : Binary} {n : Int} :
    b.whole? = some n ↔ b.value? = some (n : ℚ) := by
  cases b with
  | nan => simp [whole?, value?]
  | infinite negative => simp [whole?, value?]
  | finite negative m e =>
      rw [value?, Option.some.injEq]
      cases e with
      | ofNat e =>
          have value : (signed negative m : ℚ) * 2 ^ Int.ofNat e =
              (signed negative (m * 2 ^ e) : Int) := by
            rw [signed_mul]
            push_cast
            rfl
          rw [value, Int.cast_inj, whole?, Option.some.injEq]
          rfl
      | negSucc e =>
          have scaled : (signed negative m : ℚ) * 2 ^ Int.negSucc e = n ↔
              signed negative m = n * (2 ^ (e + 1) : Nat) := by
            rw [zpow_negSucc, ← div_eq_mul_inv, div_eq_iff (by positivity)]
            exact_mod_cast Iff.rfl
          rw [scaled, signed_eq_mul_iff (Nat.two_pow_pos _)]
          simp [whole?]

/-! ## Negated floats -/

theorem pack_subnormal (sign : Sign) {mantissa : BitVec 52} (pos : 0 < mantissa.toNat) :
    UnpackedFloat.pack .binary64 (.finite sign mantissa.toNat (-1074) pos) =
      packComponents .binary64 sign 0#11 mantissa := by
  have size : mantissa.toNat.log2 + 1 ≠ Format.binary64.mantissaBits := by
    have := (Nat.log2_lt (by omega)).mpr mantissa.isLt
    change _ ≠ 53
    omega
  unfold UnpackedFloat.pack
  dsimp only
  rw [if_neg (by decide), if_neg size]
  exact congrArg _ (BitVec.eq_of_toNat_eq (by simp))

theorem pack_normal (sign : Sign) {exponent : BitVec 11} {mantissa : BitVec 52}
    (finite : exponent ≠ -1#11) (pos : 0 < (1#1 ++ mantissa).toNat) :
    UnpackedFloat.pack .binary64
        (.finite sign (1#1 ++ mantissa).toNat ((exponent.toNat : Int) - 1075) pos) =
      packComponents .binary64 sign exponent mantissa := by
  have whole : (1#1 ++ mantissa).toNat = 2 ^ 52 + mantissa.toNat := by
    rw [BitVec.toNat_append, ← Nat.shiftLeft_add_eq_or_of_lt mantissa.isLt]
    rfl
  have fraction := mantissa.isLt
  have size : (1#1 ++ mantissa).toNat.log2 + 1 = Format.binary64.mantissaBits := by
    apply congrArg (· + 1)
    rw [whole]
    exact (Nat.log2_eq_iff (by omega)).mpr ⟨by omega, by omega⟩
  have biased : ((exponent.toNat : Int) - 1075 + Format.binary64.exponentBias +
      Format.binary64.mantissaBitsWithoutImplicit).toNat = exponent.toNat := by
    change ((exponent.toNat : Int) - 1075 + 1023 + 52).toNat = _
    omega
  have small : exponent.toNat ≠ 2047 := fun same => finite (BitVec.eq_of_toNat_eq same)
  have bound := exponent.isLt
  unfold UnpackedFloat.pack
  dsimp only
  rw [biased, if_neg (show ¬ 2 ^ 11 ≤ exponent.toNat + 1 by omega), if_pos size]
  congr 1
  · exact BitVec.eq_of_toNat_eq (by simp)
  · apply BitVec.eq_of_toNat_eq
    rw [BitVec.toNat_ofNat, whole]
    omega

-- The sign is the first bit, so a float is negated by packing the other bits with the other sign.
theorem pack_neg_unpack {bits : BitVec 64}
    (finite : @unpackExponent .binary64 bits ≠ -1#11) :
    UnpackedFloat.pack .binary64 (UnpackedFloat.neg (UnpackedFloat.unpack .binary64 bits)) =
      packComponents .binary64 (-Sign.ofBitVec (@unpackSign .binary64 bits))
        (@unpackExponent .binary64 bits) (@unpackMantissa .binary64 bits) := by
  by_cases small : @unpackExponent .binary64 bits = 0#11
  · have special : 0#11 ≠ -1#11 := by decide
    by_cases zero : @unpackMantissa .binary64 bits = 0#52
    · simp only [UnpackedFloat.unpack, small, zero]
      rfl
    · simp only [UnpackedFloat.unpack, special, small, zero, if_false, if_true, dite_false,
        UnpackedFloat.neg]
      exact pack_subnormal _ _
  · simp only [UnpackedFloat.unpack, finite, small, if_false, UnpackedFloat.neg]
    exact pack_normal _ finite _

theorem toNat_toBits_neg {x : Float} (finite : x.toBits.toNat / 2 ^ 52 % 2 ^ 11 ≠ 2047) :
    (-x).toBits.toNat =
      (1 - x.toBits.toNat / 2 ^ 63) * 2 ^ 63 + x.toBits.toNat % 2 ^ 63 := by
  have exponent := toNat_unpackExponent x.toModel.toBits.toBitVec
  have mantissa := toNat_unpackMantissa x.toModel.toBits.toBitVec
  have sign := toNat_unpackSign x.toModel.toBits.toBitVec
  change _ = x.toBits.toNat / 2 ^ 52 % 2 ^ 11 at exponent
  change _ = x.toBits.toNat % 2 ^ 52 at mantissa
  change _ = x.toBits.toNat / 2 ^ 63 % 2 at sign
  have number : @unpackExponent .binary64 x.toModel.toBits.toBitVec ≠ -1#11 := by
    intro equal
    rw [equal] at exponent
    exact finite exponent.symm
  have flipped (bit : BitVec 1) : (-Sign.ofBitVec bit).toBitVec.toNat = 1 - bit.toNat := by
    rcases BitVec.eq_zero_or_eq_one bit with rfl | rfl <;> rfl
  have packed : (-x).toBits.toNat = (UnpackedFloat.pack .binary64 (UnpackedFloat.neg
      (UnpackedFloat.unpack .binary64 x.toModel.toBits.toBitVec))).toNat := rfl
  have bound : x.toBits.toNat < 2 ^ 64 := x.toBits.toNat_lt
  rw [packed, pack_neg_unpack number, toNat_packComponents, exponent, mantissa, flipped, sign]
  omega

theorem ofFloat_neg {x : Float} {negative : Bool} {m : Nat} {e : Int}
    (value : ofFloat x = .finite negative m e) : ofFloat (-x) = .finite (!negative) m e := by
  have bound : x.toBits.toNat < 2 ^ 64 := x.toBits.toNat_lt
  have number : x.toBits.toNat / 2 ^ 52 % 2 ^ 11 ≠ 2047 := by
    intro special
    simp only [ofFloat, Nat.pow_eq, special, if_true] at value
    split at value <;> cases value
  have bits := toNat_toBits_neg number
  have sign : decide (2 ^ 63 ≤ (-x).toBits.toNat) = !decide (2 ^ 63 ≤ x.toBits.toNat) := by
    rw [← decide_not, decide_eq_decide]
    omega
  have exponent : (-x).toBits.toNat / 2 ^ 52 % 2 ^ 11 = x.toBits.toNat / 2 ^ 52 % 2 ^ 11 := by omega
  have mantissa : (-x).toBits.toNat % 2 ^ 52 = x.toBits.toNat % 2 ^ 52 := by omega
  simp only [ofFloat, Nat.pow_eq, number, if_false] at value
  simp only [ofFloat, Nat.pow_eq, exponent, mantissa, sign, number, if_false]
  by_cases subnormal : x.toBits.toNat / 2 ^ 52 % 2 ^ 11 = 0
  · rw [if_pos subnormal] at value ⊢
    cases value
    rfl
  · rw [if_neg subnormal] at value ⊢
    cases value
    rfl

theorem value?_neg {x : Float} {q : ℚ} (value : (ofFloat x).value? = some q) :
    (ofFloat (-x)).value? = some (-q) := by
  cases shown : ofFloat x with
  | nan => simp [shown, value?] at value
  | infinite negative => simp [shown, value?] at value
  | finite negative m e =>
      rw [shown, value?, Option.some.injEq] at value
      rw [ofFloat_neg shown, value?, signed_not, ← value]
      push_cast
      rw [neg_mul]

end ChartLint.Binary
