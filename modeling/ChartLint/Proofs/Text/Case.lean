import ChartLint.Proofs.Span

/-!
# Letter case

Lowering touches the ASCII capitals and nothing else. So a text can be trimmed, cut or searched for
a sign before or after it is lowered.
-/

namespace ChartLint.Text

theorem toLower_cases (c : Char) :
    (c.toLower = c ∧ ¬ ('A' ≤ c ∧ c ≤ 'Z')) ∨
      (('A' ≤ c ∧ c ≤ 'Z') ∧ 'a' ≤ c.toLower ∧ c.toLower ≤ 'z') := by
  delta Char.toLower
  split
  case isTrue upper =>
    refine .inr ⟨upper, ?_⟩
    have range : 65 ≤ c.toNat ∧ c.toNat ≤ 90 := by
      simpa [UInt32.le_iff_toNat_le] using upper
    have shifted : (c.val + ('a'.val - 'A'.val)).toNat = c.toNat + 32 := by
      simp only [UInt32.toNat_add, Char.toNat_val]
      exact Nat.mod_eq_of_lt (by simp; omega)
    simp only [Char.le_def, UInt32.le_iff_toNat_le, shifted]
    simp
    omega
  case isFalse other => exact .inl ⟨rfl, other⟩

theorem toLower_toLower (c : Char) : c.toLower.toLower = c.toLower := by
  rcases toLower_cases c with ⟨same, -⟩ | ⟨-, low, -⟩
  · rw [same, same]
  · rcases toLower_cases c.toLower with ⟨same, -⟩ | ⟨⟨-, high⟩, -⟩
    · exact same
    · exact absurd (Char.le_trans low high) (by decide)

def IsSign (c : Char) : Prop :=
  ¬ ('A' ≤ c ∧ c ≤ 'Z') ∧ ¬ ('a' ≤ c ∧ c ≤ 'z')

instance (c : Char) : Decidable (IsSign c) :=
  inferInstanceAs (Decidable (_ ∧ _))

theorem IsSign.toLower_eq_iff {sign : Char} (is : IsSign sign) (c : Char) :
    c.toLower = sign ↔ c = sign := by
  rcases toLower_cases c with ⟨same, -⟩ | ⟨upper, lower⟩
  · rw [same]
  · constructor
    · rintro rfl
      exact absurd lower is.2
    · rintro rfl
      exact absurd upper is.1

theorem IsSign.toLower_beq {sign : Char} (is : IsSign sign) (c : Char) :
    (c.toLower == sign) = (c == sign) := by
  rw [Bool.eq_iff_iff, beq_iff_eq, beq_iff_eq, is.toLower_eq_iff]

theorem isBlank_toLower (c : Char) : isBlank c.toLower = isBlank c := by
  rcases toLower_cases c with ⟨same, -⟩ | ⟨upper, lower⟩
  · rw [same]
  · rw [isBlank_of_between (Char.le_trans (by decide) lower.1) (Char.le_trans lower.2 (by decide)),
      isBlank_of_between (Char.le_trans (by decide) upper.1) (Char.le_trans upper.2 (by decide))]

theorem lower_lower (cs : List Char) : lower (lower cs) = lower cs := by
  rw [lower, lower, List.map_map]
  exact List.map_congr_left fun c _ => toLower_toLower c

theorem lower_append (as bs : List Char) : lower (as ++ bs) = lower as ++ lower bs :=
  List.map_append

theorem dropWhile_lower (cs : List Char) :
    (lower cs).dropWhile isBlank = lower (cs.dropWhile isBlank) := by
  rw [lower, List.dropWhile_map, Function.comp_def]
  simp only [isBlank_toLower]
  rfl

theorem trim_lower (cs : List Char) : trim (lower cs) = lower (trim cs) := by
  have reversed (ds : List Char) : (lower ds).reverse = lower ds.reverse :=
    List.map_reverse.symm
  rw [trim, trim, trimStart, trimStart, dropWhile_lower, trimEnd, trimEnd, reversed,
    dropWhile_lower, reversed]

end ChartLint.Text
