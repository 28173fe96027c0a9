import Mathlib.Data.List.Perm.Basic
import ChartLint.Proofs.Diagnostic.Firsts

/-!
# Diagnostics of two lines that change places

When two neighbouring lines change places, what is reported on one of them is to be reported on the
other: `Diagnostic.moved`. The order of reports on different lines does not matter then, but that on
one line does, as the first of several with one range and one message is kept. So two lists of
diagnostics count as the same if they agree on each line, `ByLine`. They have the same diagnostics,
and the same of them are kept: `ByLine.finish`.
-/

namespace ChartLint

/-- The number of a line after line `n` and the one after it have changed places. -/
def movedLine (n line : Nat) : Nat :=
  if line = n then n + 1 else if line = n + 1 then n else line

theorem movedLine_movedLine (n line : Nat) : movedLine n (movedLine n line) = line := by
  unfold movedLine
  split_ifs <;> omega

theorem movedLine_inj {n line line' : Nat} :
    movedLine n line = movedLine n line' ↔ line = line' := by
  constructor
  · intro same
    rw [← movedLine_movedLine n line, same, movedLine_movedLine]
  · rintro rfl
    rfl

def Span.Away (n : Nat) (s : Span) : Prop :=
  s.line ≠ n ∧ s.line ≠ n + 1

def Span.moved (n : Nat) (s : Span) : Span :=
  { s with line := movedLine n s.line }

def Range.moved (n : Nat) (r : Range) : Range :=
  ⟨{ r.start with line := movedLine n r.start.line },
    { r.stop with line := movedLine n r.stop.line }⟩

def Related.moved (n : Nat) (r : Related) : Related :=
  { r with range := r.range.moved n }

namespace Span

theorem moved_of_away {n : Nat} {s : Span} (away : s.Away n) : s.moved n = s := by
  rw [Span.moved, movedLine, if_neg away.1, if_neg away.2]

theorem range_moved (n : Nat) (s : Span) : (s.moved n).range = s.range.moved n :=
  rfl

theorem away_of_lt {n : Nat} {s : Span} (earlier : s.line < n) : s.Away n :=
  ⟨by omega, by omega⟩

end Span

theorem Range.moved_inj {n : Nat} {r r' : Range} : r.moved n = r'.moved n ↔ r = r' := by
  obtain ⟨⟨line, column⟩, ⟨line', column'⟩⟩ := r
  obtain ⟨⟨line₂, column₂⟩, ⟨line₂', column₂'⟩⟩ := r'
  simp [Range.moved, movedLine_inj]

namespace Diagnostic

def moved (n : Nat) (d : Diagnostic) : Diagnostic :=
  { d with range := d.range.moved n, related := d.related.map (Related.moved n) }

theorem key_moved_inj {n : Nat} {d e : Diagnostic} :
    (d.moved n).key = (e.moved n).key ↔ d.key = e.key := by
  simp [key, moved, Range.moved_inj]

theorem firsts_map_moved (n : Nat) (ds : List Diagnostic) :
    firsts (ds.map (moved n)) = (firsts ds).map (moved n) := by
  induction ds with
  | nil => rfl
  | cons d ds ih =>
      rw [List.map_cons, firsts_cons, ih, firsts_cons, List.map_cons, List.filter_map]
      congr 2
      apply List.filter_congr
      intro e _
      rw [Function.comp_apply, Bool.eq_iff_iff, bne_iff_ne, bne_iff_ne, ne_eq, key_moved_inj]

theorem filter_firsts_of_key {picked : Diagnostic → Bool}
    (byKey : ∀ d e : Diagnostic, d.key = e.key → picked d = picked e) (ds : List Diagnostic) :
    (firsts ds).filter picked = firsts (ds.filter picked) := by
  induction ds with
  | nil => rfl
  | cons d ds ih =>
      have later : ((firsts ds).filter fun e => e.key != d.key).filter picked =
          (firsts (ds.filter picked)).filter fun e => e.key != d.key := by
        rw [← ih, List.filter_filter, List.filter_filter]
        exact List.filter_congr fun e _ => Bool.and_comm _ _
      rw [firsts_cons]
      cases chosen : picked d with
      | true =>
          rw [List.filter_cons_of_pos chosen, List.filter_cons_of_pos chosen, firsts_cons, later]
      | false =>
          rw [List.filter_cons_of_neg (by simp [chosen]),
            List.filter_cons_of_neg (by simp [chosen]), later, List.filter_eq_self]
          intro e member
          rw [← ih] at member
          rw [bne_iff_ne]
          intro same
          rw [← byKey e d same, (List.mem_filter.mp member).2] at chosen
          cases chosen

def onLine (no : Nat) (d : Diagnostic) : Bool :=
  d.range.start.line == no

end Diagnostic

def ByLine (ds es : List Diagnostic) : Prop :=
  ∀ line, ds.filter (Diagnostic.onLine line) = es.filter (Diagnostic.onLine line)

namespace ByLine

open Diagnostic (onLine)

variable {ds es ds' es' : List Diagnostic}

theorem refl (ds : List Diagnostic) : ByLine ds ds :=
  fun _ => rfl

theorem append (first : ByLine ds es) (second : ByLine ds' es') :
    ByLine (ds ++ ds') (es ++ es') := by
  intro line
  rw [List.filter_append, List.filter_append, first line, second line]

theorem comm {line line' : Nat} (apart : line ≠ line') (here : ∀ d ∈ ds, d.range.start.line = line)
    (there : ∀ d ∈ es, d.range.start.line = line') : ByLine (ds ++ es) (es ++ ds) := by
  intro k
  have away {ds : List Diagnostic} {l : Nat} (all : ∀ d ∈ ds, d.range.start.line = l)
      (other : l ≠ k) : ds.filter (onLine k) = [] := by
    rw [List.filter_eq_nil_iff]
    intro d member same
    exact other ((all d member).symm.trans (eq_of_beq same))
  rw [List.filter_append, List.filter_append]
  by_cases first : line = k
  · rw [away there (by omega), List.append_nil, List.nil_append]
  · rw [away here first, List.append_nil, List.nil_append]

theorem perm (same : ByLine ds es) : ds.Perm es := by
  rw [List.perm_iff_count]
  intro d
  have counted (ds : List Diagnostic) :
      (ds.filter (onLine d.range.start.line)).count d = ds.count d :=
    List.count_filter (by simp [onLine])
  rw [← counted ds, ← counted es, same]

theorem firsts (same : ByLine ds es) : ByLine (Diagnostic.firsts ds) (Diagnostic.firsts es) := by
  intro line
  have byKey (d e : Diagnostic) (key : d.key = e.key) : d.onLine line = e.onLine line := by
    rw [onLine, onLine, show d.range = e.range from congrArg Prod.fst key]
  rw [Diagnostic.filter_firsts_of_key byKey, Diagnostic.filter_firsts_of_key byKey, same line]

theorem finish {n : Nat} (same : ByLine (ds.map (Diagnostic.moved n)) es) (source : String) :
    ((Diagnostic.finish source ds).map (Diagnostic.moved n)).Perm
      (Diagnostic.finish source es) := by
  have kept := same.firsts.perm.map fun d => { d with source }
  rw [Diagnostic.firsts_map_moved, List.map_map] at kept
  rw [Diagnostic.finish, List.map_map]
  exact kept

end ByLine
end ChartLint
