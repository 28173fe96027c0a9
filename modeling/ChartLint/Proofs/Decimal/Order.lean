import ChartLint.Proofs.Decimal.Whole

/-!
# The order of floats

Two floats that are numbers are comparable (`Binary.lt_of_not_le`), and a float is compared with one
as its exact value is (`Binary.one_le_iff`). The whole part of a float is that of its exact value
(`Binary.flooredMagnitude_of_value`).
-/

namespace ChartLint.Binary

open Float.Model Float.Model.UnpackedFloat

/-! ## Comparing unpacked floats -/

theorem compare_swap (a b : UnpackedFloat) :
    UnpackedFloat.compare b a = (UnpackedFloat.compare a b).map Ordering.swap := by
  rcases a with s | _ | s | ⟨s, m, e, pos⟩ <;> rcases b with s' | _ | s' | ⟨s', m', e', pos'⟩ <;>
    try cases s
  all_goals try cases s'
  all_goals simp [UnpackedFloat.compare, Ordering.swap_then, Int.compare_swap, Nat.compare_swap]
  -- what is left are pairs of infinities, compared by their signs
  all_goals rfl

theorem compare_eq_none_iff {a b : UnpackedFloat} :
    UnpackedFloat.compare a b = none ↔ a = .notANumber ∨ b = .notANumber := by
  rcases a with s | _ | s | ⟨s, m, e, pos⟩ <;> rcases b with s' | _ | s' | ⟨s', m', e', pos'⟩ <;>
    try cases s
  all_goals try cases s'
  all_goals simp [UnpackedFloat.compare]

theorem compare_self {a : UnpackedFloat} (number : a ≠ .notANumber) :
    UnpackedFloat.compare a a = some .eq := by
  rcases a with s | _ | s | ⟨s, m, e, pos⟩
  · cases s <;> rfl
  · exact absurd rfl number
  · rfl
  · cases s <;> simp [UnpackedFloat.compare]

theorem lt_iff_compare {x y : Float} :
    x < y ↔ UnpackedFloat.compare x.toModel.unpack y.toModel.unpack = some .lt := by
  change decide (_ = true) = true ↔ _
  simp [Float.Model.lt, UnpackedFloat.lt]

theorem le_iff_compare {x y : Float} :
    x ≤ y ↔ ∃ o, UnpackedFloat.compare x.toModel.unpack y.toModel.unpack = some o ∧
      o.isLE = true := by
  change decide (_ = true) = true ↔ _
  simp [Float.Model.le, UnpackedFloat.le, Option.any_eq_true]

/-- The float is a number, possibly an infinite one. What is no number is not even as large as
itself. -/
def IsNumber (x : Float) : Prop :=
  x ≤ x

instance (x : Float) : Decidable (IsNumber x) :=
  inferInstanceAs (Decidable (x ≤ x))

theorem isNumber_iff {x : Float} : IsNumber x ↔ x.toModel.unpack ≠ .notANumber := by
  rw [IsNumber, le_iff_compare]
  constructor
  · rintro ⟨o, same, -⟩ nan
    rw [compare_eq_none_iff.mpr (.inl nan)] at same
    cases same
  · intro number
    exact ⟨.eq, compare_self number, rfl⟩

theorem isNumber_of_lt {x y : Float} (lt : x < y) : IsNumber y := by
  rw [isNumber_iff]
  intro nan
  rw [lt_iff_compare, compare_eq_none_iff.mpr (.inr nan)] at lt
  cases lt

theorem lt_of_not_le {x y : Float} (number : IsNumber x) (number' : IsNumber y) (above : ¬ y ≤ x) :
    x < y := by
  rw [isNumber_iff] at number number'
  rw [le_iff_compare, not_exists] at above
  rw [lt_iff_compare, compare_swap]
  cases order : UnpackedFloat.compare y.toModel.unpack x.toModel.unpack with
  | none => exact absurd (compare_eq_none_iff.mp order) (not_or.mpr ⟨number', number⟩)
  | some o =>
      cases o with
      | gt => rfl
      | lt => exact absurd ⟨order, rfl⟩ (above .lt)
      | eq => exact absurd ⟨order, rfl⟩ (above .eq)

/-! ## Floats and one -/

def isNegative : Sign → Bool
  | .negative => true
  | .positive => false

def ofUnpacked : UnpackedFloat → Binary
  | .notANumber => .nan
  | .infinity s => .infinite (isNegative s)
  | .zero s => .finite (isNegative s) 0 (-1074)
  | .finite s m e _ => .finite (isNegative s) m e

theorem isNegative_ofBitVec (bit : BitVec 1) :
    isNegative (Sign.ofBitVec bit) = decide (1 ≤ bit.toNat) := by
  rcases BitVec.eq_zero_or_eq_one bit with rfl | rfl <;> rfl

theorem ofFloat_eq (x : Float) : ofFloat x = ofUnpacked x.toModel.unpack := by
  have exponent := toNat_unpackExponent x.toModel.toBits.toBitVec
  have mantissa := toNat_unpackMantissa x.toModel.toBits.toBitVec
  have sign := toNat_unpackSign x.toModel.toBits.toBitVec
  change _ = x.toBits.toNat / 2 ^ 52 % 2 ^ 11 at exponent
  change _ = x.toBits.toNat % 2 ^ 52 at mantissa
  change _ = x.toBits.toNat / 2 ^ 63 % 2 at sign
  have bound : x.toBits.toNat < 2 ^ 64 := x.toBits.toNat_lt
  have negative : decide (2 ^ 63 ≤ x.toBits.toNat) =
      isNegative (Sign.ofBitVec (@unpackSign .binary64 x.toModel.toBits.toBitVec)) := by
    rw [isNegative_ofBitVec, sign, decide_eq_decide]
    omega
  have whole : (1#1 ++ @unpackMantissa .binary64 x.toModel.toBits.toBitVec).toNat =
      2 ^ 52 + x.toBits.toNat % 2 ^ 52 := by
    rw [BitVec.toNat_append, ← Nat.shiftLeft_add_eq_or_of_lt (BitVec.isLt _), mantissa]
    rfl
  have special : x.toBits.toNat / 2 ^ 52 % 2 ^ 11 = 2047 ↔
      @unpackExponent .binary64 x.toModel.toBits.toBitVec = -1#11 := by
    rw [← exponent]
    exact BitVec.toNat_inj (y := -1#11)
  have small : x.toBits.toNat / 2 ^ 52 % 2 ^ 11 = 0 ↔
      @unpackExponent .binary64 x.toModel.toBits.toBitVec = 0#11 := by
    rw [← exponent]
    exact BitVec.toNat_inj (y := 0#11)
  have zero : x.toBits.toNat % 2 ^ 52 = 0 ↔
      @unpackMantissa .binary64 x.toModel.toBits.toBitVec = 0#52 := by
    rw [← mantissa]
    exact BitVec.toNat_inj (y := 0#52)
  simp only [Float.Model.unpack, UnpackedFloat.unpack, ofFloat, Nat.pow_eq, negative, special,
    small, zero]
  split
  · split <;> rfl
  · split
    · next small' =>
        split
        · next zero' => rw [zero.mpr zero']; rfl
        · simp only [ofUnpacked, mantissa, small']
          rfl
    · simp only [ofUnpacked, whole, exponent]
      rfl

theorem one_unpacked :
    (1 : Float).toModel.unpack = .finite .positive (2 ^ 52) (-52) (Nat.two_pow_pos 52) :=
  rfl

theorem one_le_iff_unpacked {x : Float} :
    1 ≤ x ↔ x.toModel.unpack = .infinity .positive ∨
      ∃ m e, ∃ pos : 0 < m, x.toModel.unpack = .finite .positive m e pos ∧
        (-52 < e ∨ e = -52 ∧ 2 ^ 52 ≤ m) := by
  rw [le_iff_compare, one_unpacked]
  rcases x.toModel.unpack with s | _ | s | ⟨s, m, e, pos⟩
  · cases s <;> simp [UnpackedFloat.compare]
  · simp [UnpackedFloat.compare]
  · simp [UnpackedFloat.compare]
  · cases s with
    | negative => simp [UnpackedFloat.compare]
    | positive =>
        have order : UnpackedFloat.compare (.finite .positive (2 ^ 52) (-52) (Nat.two_pow_pos 52))
            (.finite .positive m e pos) = some ((compare (-52) e).then (compare (2 ^ 52) m)) := rfl
        simp [order, Ordering.isLE_then_iff_or, Int.compare_eq_lt, Nat.isLE_compare, pos,
          @eq_comm _ e]

theorem one_le_value_iff {m : Nat} {e : Int} (lt : m < 2 ^ 53) (size : e = -1074 ∨ 2 ^ 52 ≤ m) :
    (1 : ℚ) ≤ m * 2 ^ e ↔ -52 < e ∨ e = -52 ∧ 2 ^ 52 ≤ m := by
  constructor
  · intro large
    by_contra small
    -- 53 digits that all stand to the right of the point do not reach one
    have power : (2 : ℚ) ^ e ≤ 2 ^ (-53 : Int) := zpow_le_zpow_right₀ (by norm_num) (by omega)
    have digits : (m : ℚ) < 2 ^ 53 := by exact_mod_cast lt
    have below : (m : ℚ) * 2 ^ e < 2 ^ 53 * 2 ^ (-53 : Int) :=
      mul_lt_mul_of_lt_of_le_of_nonneg_of_pos digits power (by positivity) (by positivity)
    norm_num at below
    linarith
  · intro large
    have power : (2 : ℚ) ^ (-52 : Int) ≤ 2 ^ e := zpow_le_zpow_right₀ (by norm_num) (by omega)
    have digits : (2 : ℚ) ^ 52 ≤ m := by exact_mod_cast (by omega : 2 ^ 52 ≤ m)
    calc (1 : ℚ) = 2 ^ 52 * 2 ^ (-52 : Int) := by norm_num
      _ ≤ m * 2 ^ e := mul_le_mul digits power (by positivity) (by positivity)

theorem one_le_iff {x : Float} :
    1 ≤ x ↔ ofFloat x = .infinite false ∨ ∃ q ∈ (ofFloat x).value?, 1 ≤ q := by
  have bounds (negative : Bool) (m : Nat) (e : Int) (value : ofFloat x = .finite negative m e) :=
    ofFloat_finite value
  rw [ofFloat_eq] at bounds ⊢
  rw [one_le_iff_unpacked]
  generalize x.toModel.unpack = unpacked at bounds ⊢
  rcases unpacked with s | _ | s | ⟨s, m, e, pos⟩
  · cases s <;> simp [ofUnpacked, isNegative, value?]
  · simp [ofUnpacked, value?]
  · cases s <;> simp [ofUnpacked, value?, signed, isNegative]
  · obtain ⟨lt, size⟩ := bounds _ _ _ rfl
    cases s with
    | negative =>
        have below : ¬ (1 : ℚ) ≤ -(m : ℚ) * 2 ^ e := by
          have : (0 : ℚ) ≤ m * 2 ^ e := by positivity
          linarith
        simpa [ofUnpacked, value?, signed, isNegative] using below
    | positive =>
        simp [ofUnpacked, value?, signed, isNegative, one_le_value_iff lt size, pos]

theorem flooredMagnitude_eq (m : Nat) (e : Int) :
    flooredMagnitude m e = ⌊(m * 2 ^ e : ℚ)⌋₊ := by
  cases e with
  | ofNat e =>
      have value : (m * 2 ^ Int.ofNat e : ℚ) = (m * 2 ^ e : Nat) := by
        push_cast
        rfl
      rw [value, Nat.floor_natCast]
      rfl
  | negSucc e =>
      have value : (m * 2 ^ Int.negSucc e : ℚ) = (m : ℚ) / (2 ^ (e + 1) : Nat) := by
        rw [zpow_negSucc, ← div_eq_mul_inv]
        push_cast
        rfl
      rw [value, Nat.floor_div_eq_div]
      rfl

theorem flooredMagnitude_of_value {negative : Bool} {m : Nat} {e : Int} {q : ℚ}
    (value : (finite negative m e).value? = some q) (large : 1 ≤ q) :
    flooredMagnitude m e = ⌊q⌋₊ := by
  have equal : q = signed negative m * 2 ^ e := (Option.some.inj value).symm
  cases negative with
  | false => simpa [equal, signed] using flooredMagnitude_eq m e
  | true =>
      have magnitude : (0 : ℚ) ≤ m * 2 ^ e := by positivity
      simp only [signed, if_true, Int.cast_neg, Int.cast_natCast] at equal
      linarith

end ChartLint.Binary
