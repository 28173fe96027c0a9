import ChartLint.Proofs.Span
import ChartLint.Setting.Items

/-!
# Lists as sequences of items

A comma that stands where nothing is open cuts a list into two lists, whatever stands after it, and
items written with commas between them are read back as they are: `Items.split_commas`. All of it
rests on one equation for the scan, `Items.pieces_append_comma`.
-/

namespace ChartLint.Items

def Closed (cs : List Char) : Prop :=
  cs.foldl State.after {} = {}

instance (cs : List Char) : Decidable (Closed cs) :=
  inferInstanceAs (Decidable (cs.foldl State.after {} = {}))

@[mk_iff]
structure IsItem (text : String) : Prop where
  filled : text ≠ ""
  solid : Text.trim text.toList = text.toList
  closed : Closed text.toList
  guarded : ∀ i < text.toList.length, text.toList[i]? = some ',' → ¬ Closed (text.toList.take i)

instance (text : String) : Decidable (IsItem text) :=
  decidable_of_iff' _ (isItem_iff text)

theorem isClear_iff {s : State} : s.isClear = true ↔ s = {} := by
  obtain ⟨depth, quote⟩ := s
  simp [State.isClear]

/-! ## The scan -/

theorem pieces_ne_nil (s : State) (cs : List Char) : pieces s cs ≠ [] := by
  fun_cases pieces s cs <;> simp

theorem pieces_comma (cs : List Char) : pieces {} (',' :: cs) = [] :: pieces {} cs :=
  if_pos ⟨rfl, rfl⟩

theorem pieces_cons {s : State} {c : Char} (inner : ¬ (s = {} ∧ c = ',')) (cs : List Char) :
    pieces s (c :: cs) = (pieces (s.after c) cs).modifyHead (c :: ·) := by
  rw [← isClear_iff] at inner
  rw [pieces, if_neg inner]
  split
  · next none => exact absurd none (pieces_ne_nil _ _)
  · next found => rw [found, List.modifyHead_cons]

theorem pieces_append_comma {s : State} {front : List Char} (back : List Char)
    (closed : front.foldl State.after s = {}) :
    pieces s (front ++ ',' :: back) = pieces s front ++ pieces {} back := by
  induction front generalizing s with
  | nil =>
    obtain rfl : s = {} := closed
    exact pieces_comma back
  | cons c front ih =>
    have rest := ih closed
    by_cases cut : s = {} ∧ c = ','
    · -- A separating comma opens nothing, so the rest is scanned from the same state.
      obtain ⟨rfl, rfl⟩ := cut
      rw [List.cons_append, pieces_comma, pieces_comma, List.cons_append]
      exact congrArg _ rest
    · rw [List.cons_append, pieces_cons cut, pieces_cons cut, rest]
      obtain ⟨piece, more, found⟩ := List.exists_cons_of_ne_nil (pieces_ne_nil (s.after c) front)
      rw [found, List.cons_append, List.modifyHead_cons, List.modifyHead_cons, List.cons_append]

theorem pieces_of_guarded {s : State} {cs : List Char}
    (guarded : ∀ i < cs.length, cs[i]? = some ',' → (cs.take i).foldl State.after s ≠ {}) :
    pieces s cs = [cs] := by
  induction cs generalizing s with
  | nil => rfl
  | cons c cs ih =>
    have inner : ¬ (s = {} ∧ c = ',') := by
      rintro ⟨rfl, rfl⟩
      exact guarded 0 (Nat.zero_lt_succ _) rfl rfl
    have rest : pieces (s.after c) cs = [cs] := by
      apply ih
      intro i bounded comma
      exact guarded (i + 1) (Nat.succ_lt_succ bounded) comma
    rw [pieces_cons inner, rest, List.modifyHead_cons]

/-! ## The items -/

theorem split_append_comma {front : String} (back : String) (closed : Closed front.toList) :
    split (front ++ "," ++ back) = split front ++ split back := by
  have cut : (front ++ "," ++ back).toList = front.toList ++ ',' :: back.toList := by simp
  rw [split, cut, pieces_append_comma _ closed, List.map_append, List.filter_append,
    List.map_append]
  rfl

theorem split_blank (text : String) : split (" " ++ text) = split text := by
  have lead : (" " ++ text).toList = ' ' :: text.toList := by simp
  have same : (pieces {} (' ' :: text.toList)).map Text.trim =
      (pieces {} text.toList).map Text.trim := by
    rw [pieces_cons (by decide)]
    obtain ⟨piece, more, found⟩ := List.exists_cons_of_ne_nil (pieces_ne_nil {} text.toList)
    change ((pieces {} text.toList).modifyHead (' ' :: ·)).map Text.trim = _
    rw [found]
    rfl
  rw [split, lead, same]
  rfl

theorem IsItem.split {item : String} (whole : IsItem item) : split item = [item] := by
  have kept : item.toList.isEmpty = false := by
    simpa using whole.filled
  rw [Items.split, pieces_of_guarded whole.guarded, List.map_singleton, whole.solid,
    List.filter_cons_of_pos (by rw [kept]; rfl), List.filter_nil, List.map_singleton,
    String.ofList_toList]

theorem split_joined {items : List String} (whole : ∀ item ∈ items, IsItem item) :
    split (Text.joined ", " items) = items := by
  induction items with
  | nil => rfl
  | cons item items ih =>
    obtain ⟨first, others⟩ := List.forall_mem_cons.mp whole
    cases items with
    | nil => exact first.split
    | cons next items =>
      -- The blank after the comma falls to the next item, where it is trimmed off.
      have cut : Text.joined ", " (item :: next :: items) =
          item ++ "," ++ (" " ++ Text.joined ", " (next :: items)) := by
        simp [Text.joined, String.intercalate_cons_cons, String.append_assoc, ← String.toList_inj]
      rw [cut, split_append_comma _ first.closed, first.split, split_blank, ih others,
        List.singleton_append]

theorem split_commas :
    (∀ front back : String, Closed front.toList →
      split (front ++ "," ++ back) = split front ++ split back) ∧
    ∀ items : List String, (∀ item ∈ items, IsItem item) →
      split (Text.joined ", " items) = items :=
  ⟨fun _ back closed => split_append_comma back closed, fun _ whole => split_joined whole⟩

/-- A quote shields a parenthesis, and a `)` that closes nothing is an ordinary character. -/
theorem split_commas_colors :
    (Closed ") , rgb(1, 2)".toList ∧
      split (") , rgb(1, 2)" ++ "," ++ "('") = [")", "rgb(1, 2)"] ++ ["('"]) ∧
    ((∀ item ∈ ["rgb(1, 2)", "',('"], IsItem item) ∧
      split (Text.joined ", " ["rgb(1, 2)", "',('"]) = ["rgb(1, 2)", "',('"]) := by
  have closed : Closed ") , rgb(1, 2)".toList := by decide
  have whole : ∀ item ∈ ["rgb(1, 2)", "',('"], IsItem item :=
    List.forall_mem_cons.mpr ⟨by decide, List.forall_mem_singleton.mpr (by decide)⟩
  refine ⟨⟨closed, ?_⟩, whole, split_commas.2 _ whole⟩
  rw [split_commas.1 _ _ closed]
  decide

end ChartLint.Items
