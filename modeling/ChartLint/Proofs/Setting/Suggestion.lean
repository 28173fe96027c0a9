import ChartLint.Proofs.Catalog.Lookup
import ChartLint.Proofs.Decimal.Order

/-!
# The suggested names

Candidates have a place in a linear order (`Candidate.rank`), in which no two settings with
different names share a place. So what is suggested is a matter of the settings and not of their
order in the catalog, and a setting that fits is left out only if three others rank before it:
`closest_best`.
-/

namespace ChartLint.Suggestion

open CatalogText

/-! ## The order of candidates -/

/-- The place of a candidate: a high score comes first, then a small distance, then the name. -/
def Candidate.rank (c : Candidate) : ℤ ×ₗ ℕ ×ₗ String :=
  toLex (-scoreKey c.score, toLex (c.distance, c.name))

theorem Candidate.precedes_iff {a b : Candidate} : a.precedes b = true ↔ a.rank ≤ b.rank := by
  rw [rank, rank, Prod.Lex.toLex_le_toLex, Prod.Lex.toLex_le_toLex, precedes]
  by_cases score : scoreKey a.score = scoreKey b.score
  · by_cases distance : a.distance = b.distance
    · simp [score, distance, -String.lt_iff_ltb]
    · simp [score, distance]
  · simp [score]

theorem Candidate.name_eq_of_rank_eq {a b : Candidate} (same : a.rank = b.rank) :
    a.name = b.name :=
  congrArg (fun place => (ofLex (ofLex place).2).2) same

/-! ## Which settings are candidates -/

def entry (query : String) (d : Descriptor) : Candidate where
  score := fit (settingKey query).toList (sortedWords query) d
  distance := Text.editDistance (settingKey query).toList (settingKey d.name).toList
  name := d.name

def Suits (query : String) (d : Descriptor) : Prop :=
  settingKey d.name ≠ settingKey query ∧
    threshold (settingKey query).toList ≤ (entry query d).score

instance (query : String) (d : Descriptor) : Decidable (Suits query d) :=
  inferInstanceAs (Decidable (_ ∧ _))

theorem candidate?_eq (query : String) (d : Descriptor) :
    candidate? (settingKey query).toList (sortedWords query) d =
      if Suits query d then some (entry query d) else none := by
  have keys : (settingKey d.name).toList ≠ (settingKey query).toList ↔
      settingKey d.name ≠ settingKey query := not_congr String.toList_inj
  simp only [candidate?, keys]
  rfl

def ranked (query : String) (ds : List Descriptor) : List Descriptor :=
  (ds.filter (Suits query ·)).mergeSort fun d e => (entry query d).precedes (entry query e)

theorem mem_ranked {query : String} {ds : List Descriptor} {d : Descriptor} :
    d ∈ ranked query ds ↔ d ∈ ds ∧ Suits query d := by
  simp [ranked]

theorem filterMap_candidate? (query : String) (ds : List Descriptor) :
    ds.filterMap (candidate? (settingKey query).toList (sortedWords query)) =
      (ds.filter (Suits query ·)).map (entry query) := by
  induction ds with
  | nil => rfl
  | cons d ds ih =>
      rw [List.filterMap_cons, candidate?_eq, List.filter_cons, ih]
      by_cases suits : Suits query d <;> simp [suits]

theorem closest_eq {query : String} {ds : List Descriptor} (distinct : (keys ds).Nodup) :
    closest query ds =
      if (settingKey query).toList.length < 3 then []
      else ((ranked query ds).take limit).map Descriptor.name := by
  have sorted : ((ds.filter (Suits query ·)).map (entry query)).mergeSort Candidate.precedes =
      (ranked query ds).map (entry query) := by
    apply Eq.symm
    apply List.map_mergeSort
    intro d _ e _
    rfl
  rw [closest]
  dsimp only
  rw [firstOfKeys_of_nodup distinct, filterMap_candidate?, sorted, ← List.map_take, List.map_map]
  rfl

/-! ## The best of them -/

theorem eq_of_rank_eq {query : String} {ds : List Descriptor} (distinct : (keys ds).Nodup)
    {d e : Descriptor} (member : d ∈ ds) (member' : e ∈ ds)
    (same : (entry query d).rank = (entry query e).rank) : d = e :=
  List.inj_on_of_nodup_map distinct member member'
    (congrArg settingKey (Candidate.name_eq_of_rank_eq same))

theorem ranked_sorted (query : String) (ds : List Descriptor) :
    (ranked query ds).Pairwise fun d e => (entry query d).rank ≤ (entry query e).rank := by
  have sorted : (ranked query ds).Pairwise fun d e =>
      (entry query d).precedes (entry query e) = true := by
    apply List.pairwise_mergeSort
    · intro d e f
      simpa only [Candidate.precedes_iff] using le_trans
    · intro d e
      simpa only [Bool.or_eq_true, Candidate.precedes_iff] using le_total _ _
  exact sorted.imp Candidate.precedes_iff.mp

theorem ranked_perm {query : String} {ds ds' : List Descriptor} (distinct : (keys ds).Nodup)
    (perm : ds'.Perm ds) : ranked query ds' = ranked query ds := by
  refine List.Perm.eq_of_pairwise ?_ (ranked_sorted query ds') (ranked_sorted query ds) ?_
  · intro d e member member' le ge
    exact eq_of_rank_eq distinct (perm.subset (mem_ranked.mp member).1) (mem_ranked.mp member').1
      (le_antisymm le ge)
  · exact (List.mergeSort_perm _ _).trans
      ((perm.filter _).trans (List.mergeSort_perm _ _).symm)

theorem ranked_strict (query : String) {ds : List Descriptor} (distinct : (keys ds).Nodup) :
    (ranked query ds).Pairwise fun d e => (entry query d).rank < (entry query e).rank := by
  have single : (ranked query ds).Nodup :=
    (List.mergeSort_perm _ _).nodup_iff.mpr ((List.Nodup.of_map _ distinct).filter _)
  refine ((ranked_sorted query ds).and single).imp_of_mem ?_
  rintro d e member member' ⟨le, ne⟩
  refine lt_of_le_of_ne le ?_
  intro same
  exact ne (eq_of_rank_eq distinct (mem_ranked.mp member).1 (mem_ranked.mp member').1 same)

theorem isNumber_fit (key : List Char) (asked : List String) (d : Descriptor) :
    Binary.IsNumber (fit key asked d) := by
  -- the similarities may be no numbers, but such a thing is never larger than what there is
  have larger {x : Float} (number : Binary.IsNumber x) (y : Float) :
      Binary.IsNumber (better x y) := by
    unfold better
    split
    · next lt => exact Binary.isNumber_of_lt lt
    · exact number
  exact larger (larger (by decide +kernel) _) _

theorem isNumber_threshold (key : List Char) : Binary.IsNumber (threshold key) := by
  unfold threshold
  split <;> decide +kernel

theorem score_lt_of_not_suits {query : String} {d : Descriptor} (unfit : ¬ Suits query d)
    (other : settingKey d.name ≠ settingKey query) :
    (entry query d).score < threshold (settingKey query).toList :=
  Binary.lt_of_not_le (isNumber_fit _ _ d) (isNumber_threshold _) fun fits => unfit ⟨other, fits⟩

theorem first_before {query : String} {ds : List Descriptor} (distinct : (keys ds).Nodup)
    {d : Descriptor} (member : d ∈ ranked query ds) (left : d ∉ (ranked query ds).take limit) :
    ((ranked query ds).take limit).length = limit ∧
      ∀ e ∈ (ranked query ds).take limit, (entry query e).rank < (entry query d).rank := by
  have strict := ranked_strict query distinct
  rw [← List.take_append_drop limit (ranked query ds)] at member strict
  have later := (List.mem_append.mp member).resolve_left left
  refine ⟨?_, fun e first => (List.pairwise_append.mp strict).2.2 e first d later⟩
  have rest := List.length_pos_of_mem later
  rw [List.length_drop] at rest
  rw [List.length_take]
  omega

/-- What is suggested does not depend on the order of the settings. It is at most three names,
without repetition and the best first, of settings that suit. A setting that is left out, if it is
not just what was asked for, scores below the threshold or ranks after three that are suggested. -/
theorem closest_best (query : String) (ds : List Descriptor) (distinct : (keys ds).Nodup) :
    (∀ ds', ds'.Perm ds → closest query ds' = closest query ds) ∧
    ∃ best ⊆ ds, closest query ds = best.map Descriptor.name ∧
      best.length ≤ 3 ∧ (best.map Descriptor.name).Nodup ∧
      best.Pairwise (fun d e => (entry query d).rank < (entry query e).rank) ∧
      (∀ d ∈ best, settingKey d.name ≠ settingKey query ∧
        threshold (settingKey query).toList ≤ (entry query d).score) ∧
      (3 ≤ (settingKey query).toList.length →
        ∀ d ∈ ds, settingKey d.name ≠ settingKey query → d ∉ best →
          (entry query d).score < threshold (settingKey query).toList ∨
          best.length = 3 ∧ ∀ e ∈ best, (entry query e).rank < (entry query d).rank) := by
  constructor
  · intro ds' perm
    have distinct' : (keys ds').Nodup := (perm.map _).nodup_iff.mpr distinct
    rw [closest_eq distinct, closest_eq distinct', ranked_perm distinct perm]
  rw [closest_eq distinct]
  by_cases short : (settingKey query).toList.length < 3
  · rw [if_pos short]
    refine ⟨[], by simp, rfl, by simp, by simp, by simp, by simp, ?_⟩
    intro enough
    omega
  have within : (ranked query ds).take limit ⊆ ranked query ds := List.take_subset _ _
  have strict := (ranked_strict query distinct).sublist (List.take_sublist limit _)
  rw [if_neg short]
  refine ⟨(ranked query ds).take limit, fun d first => (mem_ranked.mp (within first)).1, rfl,
    List.length_take_le _ _, ?_, strict, fun d first => (mem_ranked.mp (within first)).2, ?_⟩
  · rw [List.Nodup, List.pairwise_map]
    refine strict.imp_of_mem ?_
    intro d e first first' before same
    have equal : d = e := List.inj_on_of_nodup_map distinct (mem_ranked.mp (within first)).1
      (mem_ranked.mp (within first')).1 (congrArg settingKey same)
    exact lt_irrefl _ (equal ▸ before)
  · intro _ d member other left
    by_cases suits : Suits query d
    · exact .inr (first_before distinct (mem_ranked.mpr ⟨member, suits⟩) left)
    · exact .inl (score_lt_of_not_suits suits other)

def textSetting (name : String) : Descriptor where
  name := name
  type := .string

/-- Four of these settings are close to `colour`. -/
def colorSettings : List Descriptor :=
  ["colours", "color", "border", "colors", "colour-map"].map textSetting

theorem closest_best_colour :
    (keys colorSettings).Nodup ∧
    closest "colour" colorSettings.reverse = ["colours", "color", "colors"] ∧
    Suits "colour" (textSetting "colour-map") ∧
    ∃ best ⊆ colorSettings, best.map Descriptor.name = ["colours", "color", "colors"] ∧
      ∀ d ∈ best, (entry "colour" d).rank < (entry "colour" (textSetting "colour-map")).rank := by
  have distinct : (keys colorSettings).Nodup := by decide +kernel
  have word : sortedWords "colour" = ["colour"] := List.mergeSort_singleton _
  have close : colorSettings.filter (Suits "colour" ·) =
      ["colours", "color", "colors", "colour-map"].map textSetting := by
    rw [colorSettings, List.filter_map]
    apply congrArg (List.map textSetting)
    simp only [Suits, entry, word, Function.comp_def]
    decide +kernel
  have sorted : ranked "colour" colorSettings =
      ["colours", "color", "colors", "colour-map"].map textSetting := by
    -- They are listed from the best on, so that sorting changes nothing.
    rw [ranked, close]
    apply List.mergeSort_of_pairwise
    simp only [entry, word]
    decide +kernel
  have named : closest "colour" colorSettings = ["colours", "color", "colors"] := by
    rw [closest_eq distinct, sorted]
    decide +kernel
  obtain ⟨same, best, within, names, -, -, -, -, left⟩ :=
    closest_best "colour" colorSettings distinct
  rw [named] at names
  obtain ⟨member, suits⟩ : textSetting "colour-map" ∈ colorSettings ∧
      Suits "colour" (textSetting "colour-map") := by
    apply mem_ranked.mp
    simp [sorted]
  have dropped : textSetting "colour-map" ∉ best := by
    intro first
    have suggested := List.mem_map_of_mem (f := Descriptor.name) first
    rw [← names] at suggested
    exact absurd suggested (by decide)
  have fits : ¬ (entry "colour" (textSetting "colour-map")).score <
      threshold (settingKey "colour").toList := by
    rw [entry, word]
    decide +kernel
  refine ⟨distinct, (same _ (List.reverse_perm _)).trans named, suits, best, within, names.symm, ?_⟩
  exact ((left (by decide +kernel) _ member suits.1 dropped).resolve_left fits).2

end ChartLint.Suggestion
