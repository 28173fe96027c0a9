import Mathlib.Data.List.Nodup
import ChartLint.Firsts

/-!
# Keeping the first of each key

The filter that remembers the keys it has seen keeps what a filter of the rest keeps: an item takes
away all later ones with its key (`firstOfKeys_cons`).
-/

namespace ChartLint

variable {α κ : Type} [DecidableEq κ] {key : α → κ}

theorem firstOfKeys_sublist (seen : List κ) (as : List α) :
    (firstOfKeys key seen as).Sublist as := by
  induction as generalizing seen with
  | nil => exact .slnil
  | cons a as ih =>
      rw [firstOfKeys]
      split
      · exact (ih seen).cons a
      · exact (ih _).cons_cons a

theorem firstOfKeys_congr {seen seen' : List κ} (same : ∀ k, k ∈ seen ↔ k ∈ seen') (as : List α) :
    firstOfKeys key seen as = firstOfKeys key seen' as := by
  induction as generalizing seen seen' with
  | nil => rfl
  | cons a as ih =>
      have more (k : κ) : k ∈ key a :: seen ↔ k ∈ key a :: seen' := by
        simp only [List.mem_cons, same k]
      simp only [firstOfKeys, same (key a), ih same, ih more]

theorem firstOfKeys_seen (k : κ) (seen : List κ) (as : List α) :
    firstOfKeys key (k :: seen) as = (firstOfKeys key seen as).filter fun a => key a ≠ k := by
  induction as generalizing seen with
  | nil => rfl
  | cons a as ih =>
      by_cases old : key a ∈ seen
      · rw [firstOfKeys, firstOfKeys, if_pos old, if_pos (List.mem_cons_of_mem k old), ih]
      · rw [firstOfKeys, firstOfKeys, if_neg old]
        by_cases same : key a = k
        · -- The item is taken away, and its key was about to be remembered anyway.
          rw [if_pos (same ▸ List.mem_cons_self), List.filter_cons_of_neg (by simp [same]), same,
            ih, List.filter_filter]
          simp
        · rw [if_neg (by simp [same, old]), List.filter_cons_of_pos (by simp [same]), ← ih]
          congr 1
          apply firstOfKeys_congr
          intro k'
          simp only [List.mem_cons]
          tauto

theorem firstOfKeys_cons (a : α) (as : List α) :
    firstOfKeys key [] (a :: as) = a :: (firstOfKeys key [] as).filter fun b => key b ≠ key a := by
  rw [firstOfKeys, if_neg List.not_mem_nil, firstOfKeys_seen]

theorem firstOfKeys_of_nodup {as : List α} (distinct : (as.map key).Nodup) :
    firstOfKeys key [] as = as := by
  induction as with
  | nil => rfl
  | cons a as ih =>
      obtain ⟨first, rest⟩ := List.nodup_cons.mp distinct
      rw [firstOfKeys_cons, ih rest, List.filter_eq_self.mpr]
      intro b member
      refine decide_eq_true ?_
      intro same
      exact first (same ▸ List.mem_map_of_mem member)

end ChartLint
