import Mathlib.Data.List.FinRange
import Mathlib.Order.WellFounded
import ChartLint.Diagnostic.Basic
import ChartLint.Proofs.Firsts

/-!
# The first of each kind

Of the diagnostics with one range and one message the first is kept. Those that are kept are found
at their places in the list (`Diagnostic.keptPlaces`), each the earliest of its kind. From this and
from what is kept of two lists after one another (`Diagnostic.firsts_append`) all laws of
`Diagnostic.finish` follow: `Diagnostic.finish_earliest`.
-/

namespace ChartLint
namespace Diagnostic

variable {d e f : Diagnostic} {ds : List Diagnostic}

def Alike (d e : Diagnostic) : Prop :=
  d.range = e.range ∧ d.message = e.message

instance (d e : Diagnostic) : Decidable (d.Alike e) :=
  inferInstanceAs (Decidable (_ ∧ _))

theorem key_eq_iff : d.key = e.key ↔ d.Alike e :=
  Prod.mk_inj

theorem Alike.trans (first : d.Alike e) (second : e.Alike f) : d.Alike f :=
  ⟨first.1.trans second.1, first.2.trans second.2⟩

theorem mem_of_mem_firsts (member : d ∈ firsts ds) : d ∈ ds :=
  (firstOfKeys_sublist [] ds).subset member

theorem firsts_cons (d : Diagnostic) (ds : List Diagnostic) :
    firsts (d :: ds) = d :: (firsts ds).filter fun e => e.key != d.key := by
  rw [firsts, firstOfKeys_cons]
  congr 2
  funext e
  rw [Bool.eq_iff_iff, decide_eq_true_iff, bne_iff_ne]

theorem firsts_cons_unlike (d : Diagnostic) (ds : List Diagnostic) :
    firsts (d :: ds) = d :: (firsts ds).filter fun e => ¬ d.Alike e := by
  rw [firsts_cons]
  congr 2
  funext e
  rw [Bool.eq_iff_iff, bne_iff_ne, decide_eq_true_iff, ← key_eq_iff, ne_comm]

/-! ## Two lists after one another -/

theorem firsts_append (xs ys : List Diagnostic) :
    firsts (xs ++ ys) = firsts xs ++ (firsts ys).filter fun d => ∀ e ∈ xs, ¬ e.Alike d := by
  induction xs with
  | nil => simp [firsts, firstOfKeys]
  | cons x xs ih =>
      rw [List.cons_append, firsts_cons_unlike, firsts_cons_unlike, ih, List.filter_append,
        List.cons_append, List.filter_filter]
      congr 3
      funext d
      simp

/-! ## A second time -/

theorem pairwise_firsts (ds : List Diagnostic) : (firsts ds).Pairwise fun d e => ¬ d.Alike e := by
  induction ds with
  | nil => exact .nil
  | cons d ds ih =>
      rw [firsts_cons_unlike, List.pairwise_cons]
      refine ⟨fun e member => ?_, ih.filter _⟩
      exact of_decide_eq_true (List.mem_filter.mp member).2

theorem firsts_of_pairwise (apart : ds.Pairwise fun d e => ¬ d.Alike e) : firsts ds = ds := by
  induction ds with
  | nil => rfl
  | cons d ds ih =>
      obtain ⟨unlike, apart⟩ := List.pairwise_cons.mp apart
      rw [firsts_cons_unlike, ih apart, List.filter_eq_self.mpr]
      exact fun e member => decide_eq_true (unlike e member)

theorem pairwise_finish (source : String) (ds : List Diagnostic) :
    (finish source ds).Pairwise fun d e => ¬ d.Alike e :=
  List.pairwise_map.mpr (pairwise_firsts ds)

/-! ## Places -/

def keptPlaces (ds : List Diagnostic) : List (Fin ds.length) :=
  (List.finRange ds.length).filter fun i => ∀ m < i, ¬ (ds.get m).Alike (ds.get i)

theorem keptPlaces_cons (d : Diagnostic) (ds : List Diagnostic) :
    keptPlaces (d :: ds) = 0 ::
      ((keptPlaces ds).filter fun i => ¬ d.Alike (ds.get i)).map Fin.succ := by
  -- Before a later place there is the first diagnostic besides what was before it already.
  have later (i : Fin ds.length) :
      (∀ m < i.succ, ¬ ((d :: ds).get m).Alike (ds.get i)) ↔
        ¬ d.Alike (ds.get i) ∧ ∀ m < i, ¬ (ds.get m).Alike (ds.get i) := by
    rw [Fin.forall_fin_succ]
    simp
  have all : List.finRange (d :: ds).length = 0 :: (List.finRange ds.length).map Fin.succ :=
    List.finRange_succ
  unfold keptPlaces
  rw [all, List.filter_cons_of_pos (by simp), List.filter_map, List.filter_filter]
  congr 2
  apply List.filter_congr
  intro i _
  rw [Bool.eq_iff_iff, Bool.and_eq_true, decide_eq_true_iff, decide_eq_true_iff]
  exact decide_eq_true_iff.trans (later i)

theorem firsts_eq_keptPlaces (ds : List Diagnostic) : firsts ds = (keptPlaces ds).map ds.get := by
  induction ds with
  | nil => rfl
  | cons d ds ih =>
      rw [firsts_cons_unlike, ih, keptPlaces_cons, List.map_cons, List.map_map, List.filter_map]
      rfl

theorem pairwise_keptPlaces (ds : List Diagnostic) : (keptPlaces ds).Pairwise (· < ·) :=
  (List.pairwise_lt_finRange _).filter _

theorem exists_place (j : Fin ds.length) :
    ∃ i ∈ keptPlaces ds, i ≤ j ∧ (ds.get i).Alike (ds.get j) ∧
      ∀ m < i, ¬ (ds.get m).Alike (ds.get j) := by
  obtain ⟨i, alike, least⟩ := WellFounded.has_min (@wellFounded_lt (Fin ds.length) _ _)
    {i | (ds.get i).Alike (ds.get j)} ⟨j, rfl, rfl⟩
  have earliest (m : Fin ds.length) (lt : m < i) : ¬ (ds.get m).Alike (ds.get j) :=
    fun alike => least m alike lt
  refine ⟨i, ?_, not_lt.mp (least j ⟨rfl, rfl⟩), alike, earliest⟩
  refine List.mem_filter.mpr ⟨List.mem_finRange i, decide_eq_true ?_⟩
  exact fun m lt repeated => earliest m lt (repeated.trans alike)

/-- The diagnostics that are left stand at increasing places of the list, and only their source is
new. No two of them have one range and one message. For each diagnostic of the list the earliest one
with its range and message is among them. A second time nothing changes. Of two lists after one
another there is left what is left of the first, and then what is left of the second and not like
any of the first. -/
theorem finish_earliest (source : String) (ds : List Diagnostic) :
    (∃ places : List (Fin ds.length), places.Pairwise (· < ·) ∧
      finish source ds = places.map (fun i => { ds.get i with source }) ∧
      ∀ j, ∃ i ∈ places, i ≤ j ∧ (ds.get i).Alike (ds.get j) ∧
        ∀ m < i, ¬ (ds.get m).Alike (ds.get j)) ∧
    (finish source ds).Pairwise (fun d e => ¬ d.Alike e) ∧
    (firsts (firsts ds) = firsts ds ∧ finish source (finish source ds) = finish source ds) ∧
    ∀ xs ys : List Diagnostic,
      firsts (xs ++ ys) = firsts xs ++ (firsts ys).filter fun d => ∀ e ∈ xs, ¬ e.Alike d := by
  refine ⟨⟨keptPlaces ds, pairwise_keptPlaces ds, ?_, exists_place⟩, pairwise_finish source ds,
    ⟨?_, ?_⟩, firsts_append⟩
  · rw [finish, firsts_eq_keptPlaces, List.map_map]
    rfl
  · exact firsts_of_pairwise (pairwise_firsts ds)
  · nth_rewrite 1 [finish]
    rw [firsts_of_pairwise (pairwise_finish source ds), finish, List.map_map]
    rfl

end Diagnostic
end ChartLint
