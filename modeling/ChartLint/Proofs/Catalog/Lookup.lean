import ChartLint.Catalog.Reader
import ChartLint.Catalog.Standard
import ChartLint.Proofs.Firsts
import ChartLint.Proofs.Outcome
import ChartLint.Setting.Suggestion
import Mathlib.Data.List.Forall2
import Mathlib.Data.List.Induction
import Mathlib.Data.List.Nodup

/-!
# Lookup in catalogs

The descriptions of a catalog are built one after the other, and each has to have a key of its own.
While they are entered, the index leads from each key to the place of its description and to no
other (`Catalog.Indexed`). So a text is read up to its first description that cannot be built or
whose key is taken, and in a catalog that has been read every lookup finds the one description with
the key: `Catalog.parse_lookup`. How patterns are read makes no difference.
-/

namespace ChartLint

/-! ## Taking JSON values apart -/

namespace JsonValue

theorem mapM_eq_some_iff {α β : Type} {f : α → Option β} {xs : List α} {ys : List β} :
    xs.mapM f = some ys ↔ List.Forall₂ (fun x y => f x = some y) xs ys := by
  induction xs generalizing ys with
  | nil => simp [eq_comm]
  | cons x xs ih =>
    simp [List.mapM_cons, Option.bind_eq_some_iff, ih, List.forall₂_cons_left_iff, @eq_comm _ ys]

theorem list?_eq_some_iff {α : Type} {item : JsonValue → Option α} {v : JsonValue} {xs : List α} :
    list? item v = some xs ↔
      ∃ items, v = .array items ∧ List.Forall₂ (fun i x => item i = some x) items xs := by
  cases v <;> simp [list?, mapM_eq_some_iff]

theorem record?_cases {keys : List String} {v : JsonValue} {members : Members}
    (read : record? keys v = some members) :
    v = .object members ∨ ∃ items, v = .array items ∧ members = keys.zip items := by
  cases v with
  | object all =>
    rw [record?] at read
    split at read
    · exact .inl (congrArg _ (Option.some.inj read))
    · cases read
  | array items =>
    rw [record?] at read
    split at read
    · exact .inr ⟨items, rfl, (Option.some.inj read).symm⟩
    · cases read
  | _ => cases read

end JsonValue

namespace CatalogText

def keys (ds : List Descriptor) : List String :=
  ds.map fun d => settingKey d.name

end CatalogText

/-! ## The index -/

namespace Catalog

open CatalogText

variable {c : Catalog} {d : Descriptor}

/-- The index leads from a key to a place exactly if the description there has the key. -/
def Indexed (c : Catalog) : Prop :=
  ∀ key place, c.byKey.lookup key = some place ↔
    ∃ d, c.descriptors[place]? = some d ∧ settingKey d.name = key

theorem indexed_empty : Indexed {} := by
  intro key place
  simp

theorem getElem?_concat_eq_some_iff {α : Type} {as : List α} {a b : α} {i : Nat} :
    (as ++ [a])[i]? = some b ↔ as[i]? = some b ∨ i = as.length ∧ a = b := by
  rcases Nat.lt_trichotomy i as.length with inside | rfl | outside
  · rw [List.getElem?_append_left inside]
    simp [Nat.ne_of_lt inside]
  · simp
  · have beyond : (as ++ [a]).length ≤ i := by
      rw [List.length_append]
      exact outside
    rw [List.getElem?_eq_none beyond, List.getElem?_eq_none (Nat.le_of_lt outside)]
    simp [Nat.ne_of_gt outside]

theorem Indexed.add (indexed : c.Indexed) (fresh : settingKey d.name ∉ keys c.descriptors) :
    (c.add d).Indexed := by
  intro key place
  change ((settingKey d.name, c.descriptors.length) :: c.byKey).lookup key = some place ↔
    ∃ e, (c.descriptors ++ [d])[place]? = some e ∧ settingKey e.name = key
  simp only [getElem?_concat_eq_some_iff]
  by_cases new : key = settingKey d.name
  · -- No description before has the key, so only the last place is left.
    rw [new, List.lookup_cons_self]
    constructor
    · rintro ⟨rfl⟩
      exact ⟨d, .inr ⟨rfl, rfl⟩, rfl⟩
    · rintro ⟨e, found | ⟨rfl, -⟩, same⟩
      · exact absurd (List.mem_map.mpr ⟨e, List.mem_of_getElem? found, same⟩) fresh
      · rfl
  · rw [List.lookup_cons, beq_false_of_ne new]
    change c.byKey.lookup key = some place ↔ _
    rw [indexed key place]
    constructor
    · rintro ⟨e, found, same⟩
      exact ⟨e, .inl found, same⟩
    · rintro ⟨e, found | ⟨-, rfl⟩, same⟩
      · exact ⟨e, found, same⟩
      · exact absurd same.symm new

theorem Indexed.isSome_lookup_iff (indexed : c.Indexed) {key : String} :
    (c.byKey.lookup key).isSome = true ↔ key ∈ keys c.descriptors := by
  rw [Option.isSome_iff_exists, keys, List.mem_map]
  simp only [indexed key, List.mem_iff_getElem?]
  constructor
  · rintro ⟨place, d, found, same⟩
    exact ⟨d, ⟨place, found⟩, same⟩
  · rintro ⟨d, ⟨place, found⟩, same⟩
    exact ⟨place, d, found, same⟩

theorem Indexed.nodup (indexed : c.Indexed) : (keys c.descriptors).Nodup := by
  rw [keys, List.Nodup, List.pairwise_map, List.pairwise_iff_getElem]
  intro i j inside inside' before same
  have first := (indexed _ i).mpr ⟨_, List.getElem?_eq_getElem inside, same⟩
  have second := (indexed _ j).mpr ⟨_, List.getElem?_eq_getElem inside', rfl⟩
  exact absurd (Option.some.inj (first.symm.trans second)) (Nat.ne_of_lt before)

theorem Indexed.find?_eq_some_iff (indexed : c.Indexed) {name : String} :
    c.find? name = some d ↔ d ∈ c.descriptors ∧ settingKey d.name = settingKey name := by
  change (c.byKey.lookup (settingKey name)).bind (fun place => c.descriptors[place]?) = some d ↔ _
  simp only [Option.bind_eq_some_iff, indexed (settingKey name), List.mem_iff_getElem?]
  constructor
  · rintro ⟨place, ⟨e, there, same⟩, found⟩
    obtain rfl : e = d := Option.some.inj (there.symm.trans found)
    exact ⟨⟨place, found⟩, same⟩
  · rintro ⟨⟨place, found⟩, same⟩
    exact ⟨place, ⟨d, found, same⟩, found⟩

theorem Indexed.find?_eq_none_iff (indexed : c.Indexed) {name : String} :
    c.find? name = none ↔ ∀ d ∈ c.descriptors, settingKey d.name ≠ settingKey name := by
  rw [Option.eq_none_iff_forall_ne_some]
  simp only [ne_eq, indexed.find?_eq_some_iff, not_and]

theorem descriptors_foldl_add (c : Catalog) (ds : List Descriptor) :
    (ds.foldl add c).descriptors = c.descriptors ++ ds := by
  induction ds generalizing c with
  | nil => exact (List.append_nil _).symm
  | cons d ds ih =>
    rw [List.foldl_cons, ih]
    exact List.append_assoc c.descriptors [d] ds

theorem Indexed.foldl_add {ds : List Descriptor} (indexed : c.Indexed)
    (distinct : (keys (c.descriptors ++ ds)).Nodup) : (ds.foldl Catalog.add c).Indexed := by
  induction ds generalizing c with
  | nil => exact indexed
  | cons d ds ih =>
    have cut : c.descriptors ++ d :: ds = (c.add d).descriptors ++ ds :=
      (List.append_assoc c.descriptors [d] ds).symm
    have fresh : settingKey d.name ∉ keys c.descriptors := by
      rw [keys, List.map_append, List.nodup_append] at distinct
      intro known
      exact distinct.2.2 _ known _ List.mem_cons_self rfl
    exact ih (indexed.add fresh) (cut ▸ distinct)

end Catalog

namespace CatalogText

variable [PatternSyntax]

/-! ## Building descriptions -/

namespace DescriptorText

def key (raw : DescriptorText) : String :=
  settingKey raw.descriptor.name

def Sound (raw : DescriptorText) : Prop :=
  ∀ source ∈ raw.pattern, (PatternSyntax.read? source).isSome = true

theorem build_cases (raw : DescriptorText) :
    (raw.Sound ∧ ∃ d, raw.build = .ok d ∧ d.name = raw.descriptor.name) ∨
      (¬ raw.Sound ∧ raw.build = .error (.invalidPattern raw.descriptor.name)) := by
  unfold Sound build Format.parse?
  cases raw.pattern with
  | none => exact .inl ⟨by simp, _, rfl, rfl⟩
  | some source =>
    cases read : PatternSyntax.read? source with
    | none => exact .inr ⟨by simp [read], by simp only [read]; rfl⟩
    | some accepts =>
      refine .inl ⟨by simp [read], ?_⟩
      simp only [read]
      exact ⟨_, rfl, rfl⟩

end DescriptorText

def Built (raws : List DescriptorText) (ds : List Descriptor) : Prop :=
  List.Forall₂ (fun raw d => raw.build = .ok d) raws ds

theorem Built.keys {raws : List DescriptorText} {ds : List Descriptor} (built : Built raws ds) :
    keys ds = raws.map DescriptorText.key := by
  induction built with
  | nil => rfl
  | @cons raw d raws ds made _ ih =>
    rcases raw.build_cases with ⟨-, e, found, name⟩ | ⟨-, failed⟩
    · obtain rfl : e = d := Except.ok.inj (found.symm.trans made)
      exact congrArg₂ List.cons (congrArg settingKey name) ih
    · cases made.symm.trans failed

/-! ## Building all descriptions -/

theorem buildAll_cons_of_not_sound {raw : DescriptorText} (broken : ¬ raw.Sound) (c : Catalog)
    (rest : List DescriptorText) :
    buildAll c (raw :: rest) = .error (.invalidPattern raw.descriptor.name) := by
  rcases raw.build_cases with ⟨sound, -⟩ | ⟨-, failed⟩
  · exact absurd sound broken
  · rw [buildAll, failed]
    rfl

theorem buildAll_cons_of_sound {raw : DescriptorText} (sound : raw.Sound) {c : Catalog}
    (indexed : c.Indexed) :
    ∃ d, raw.build = .ok d ∧ settingKey d.name = raw.key ∧ ∀ rest,
      buildAll c (raw :: rest) =
        if raw.key ∈ keys c.descriptors then .error (.duplicate raw.descriptor.name)
        else buildAll (c.add d) rest := by
  rcases raw.build_cases with ⟨-, d, made, name⟩ | ⟨broken, -⟩
  · have key : settingKey d.name = raw.key := congrArg settingKey name
    refine ⟨d, made, key, fun rest => ?_⟩
    rw [buildAll, made, ← key, ← name]
    change (if _ then _ else _) = _
    simp only [indexed.isSome_lookup_iff]
    rfl
  · exact absurd sound broken

structure Consistent (raws : List DescriptorText) : Prop where
  sound : ∀ raw ∈ raws, raw.Sound
  distinct : (raws.map DescriptorText.key).Nodup

theorem consistent_concat {raws : List DescriptorText} {raw : DescriptorText}
    (good : Consistent raws) (sound : raw.Sound) (fresh : raw.key ∉ raws.map DescriptorText.key) :
    Consistent (raws ++ [raw]) where
  sound := List.forall_mem_append.mpr ⟨good.sound, List.forall_mem_singleton.mpr sound⟩
  distinct := by
    rw [List.map_append, List.map_singleton, ← List.concat_eq_append]
    exact good.distinct.concat fresh

theorem exists_first_inconsistent {raws : List DescriptorText} (bad : ¬ Consistent raws) :
    ∃ before raw after, raws = before ++ raw :: after ∧ Consistent before ∧
      (raw.Sound → raw.key ∈ before.map DescriptorText.key) := by
  induction raws using List.reverseRecOn with
  | nil => exact absurd ⟨List.forall_mem_nil _, List.nodup_nil⟩ bad
  | append_singleton raws raw ih =>
    by_cases good : Consistent raws
    · refine ⟨raws, raw, [], rfl, good, fun sound => ?_⟩
      by_contra fresh
      exact bad (consistent_concat good sound fresh)
    · obtain ⟨before, first, after, split, rest⟩ := ih good
      exact ⟨before, first, after ++ [raw], by simp [split], rest⟩

theorem buildAll_append {front : List DescriptorText} {c : Catalog} (good : Consistent front)
    (indexed : c.Indexed) (fresh : ∀ raw ∈ front, raw.key ∉ keys c.descriptors) :
    ∃ ds, Built front ds ∧
      ∀ rest, buildAll c (front ++ rest) = buildAll (ds.foldl Catalog.add c) rest := by
  induction front generalizing c with
  | nil => exact ⟨[], .nil, fun _ => rfl⟩
  | cons raw front ih =>
    obtain ⟨first, others⟩ := List.forall_mem_cons.mp good.sound
    obtain ⟨apart, distinct⟩ := List.nodup_cons.mp good.distinct
    obtain ⟨unused, unusedAfter⟩ := List.forall_mem_cons.mp fresh
    obtain ⟨d, made, key, step⟩ := buildAll_cons_of_sound first indexed
    have freshAfter : ∀ other ∈ front, other.key ∉ keys (c.add d).descriptors := by
      intro other member known
      have added : keys (c.add d).descriptors = keys c.descriptors ++ [settingKey d.name] :=
        List.map_append
      rw [added, List.mem_append, List.mem_singleton] at known
      rcases known with known | same
      · exact unusedAfter other member known
      · exact apart (List.mem_map.mpr ⟨other, member, same.trans key⟩)
    obtain ⟨ds, built, run⟩ := ih ⟨others, distinct⟩ (indexed.add (key ▸ unused)) freshAfter
    refine ⟨d :: ds, .cons made built, fun rest => ?_⟩
    rw [List.cons_append, step, if_neg unused, run, List.foldl_cons]

theorem buildAll_empty_append {front : List DescriptorText} (good : Consistent front) :
    ∃ ds, Built front ds ∧ (ds.foldl Catalog.add {}).Indexed ∧
      ∀ rest, buildAll {} (front ++ rest) = buildAll (ds.foldl Catalog.add {}) rest := by
  have fresh : ∀ raw ∈ front, raw.key ∉ keys [] := fun _ _ => List.not_mem_nil
  obtain ⟨ds, built, run⟩ := buildAll_append good Catalog.indexed_empty fresh
  exact ⟨ds, built, Catalog.indexed_empty.foldl_add (built.keys ▸ good.distinct), run⟩

theorem buildAll_of_consistent {raws : List DescriptorText} (good : Consistent raws) :
    ∃ c, buildAll {} raws = .ok c ∧ Built raws c.descriptors ∧ c.Indexed := by
  obtain ⟨ds, built, indexed, run⟩ := buildAll_empty_append good
  refine ⟨ds.foldl Catalog.add {}, ?_, ?_, indexed⟩
  · rw [← List.append_nil raws, run, buildAll]
  · rw [Catalog.descriptors_foldl_add]
    exact built

theorem buildAll_of_not_sound {before : List DescriptorText} {raw : DescriptorText}
    (good : Consistent before) (broken : ¬ raw.Sound) (after : List DescriptorText) :
    buildAll {} (before ++ raw :: after) = .error (.invalidPattern raw.descriptor.name) := by
  obtain ⟨ds, -, -, run⟩ := buildAll_empty_append good
  rw [run, buildAll_cons_of_not_sound broken]

theorem buildAll_of_repeated {before : List DescriptorText} {raw : DescriptorText}
    (good : Consistent before) (sound : raw.Sound)
    (known : raw.key ∈ before.map DescriptorText.key) (after : List DescriptorText) :
    buildAll {} (before ++ raw :: after) = .error (.duplicate raw.descriptor.name) := by
  obtain ⟨ds, built, indexed, run⟩ := buildAll_empty_append good
  obtain ⟨d, -, -, step⟩ := buildAll_cons_of_sound sound indexed
  have taken : raw.key ∈ keys (ds.foldl Catalog.add {}).descriptors := by
    rw [Catalog.descriptors_foldl_add]
    exact built.keys ▸ known
  rw [run, step, if_pos taken]

theorem consistent_of_buildAll {raws : List DescriptorText} {c : Catalog}
    (done : buildAll {} raws = .ok c) : Consistent raws := by
  by_contra bad
  obtain ⟨before, raw, after, rfl, good, taken⟩ := exists_first_inconsistent bad
  by_cases sound : raw.Sound
  · cases done.symm.trans (buildAll_of_repeated good sound (taken sound) after)
  · cases done.symm.trans (buildAll_of_not_sound good sound after)

theorem buildAll_eq_duplicate_iff {raws : List DescriptorText} {name : String} :
    buildAll {} raws = .error (.duplicate name) ↔
      ∃ before raw after, raws = before ++ raw :: after ∧ Consistent before ∧ raw.Sound ∧
        raw.key ∈ before.map DescriptorText.key ∧ raw.descriptor.name = name := by
  constructor
  · intro failed
    have bad : ¬ Consistent raws := by
      intro good
      obtain ⟨c, done, -⟩ := buildAll_of_consistent good
      cases done.symm.trans failed
    obtain ⟨before, raw, after, rfl, good, taken⟩ := exists_first_inconsistent bad
    have sound : raw.Sound := by
      by_contra broken
      cases failed.symm.trans (buildAll_of_not_sound good broken after)
    have same := failed.symm.trans (buildAll_of_repeated good sound (taken sound) after)
    injection same with same
    injection same with same
    exact ⟨before, raw, after, rfl, good, sound, taken sound, same.symm⟩
  · rintro ⟨before, raw, after, rfl, good, sound, known, rfl⟩
    exact buildAll_of_repeated good sound known after

theorem exists_duplicate_iff {raws : List DescriptorText} :
    (∃ name, buildAll {} raws = .error (.duplicate name)) ↔
      ∃ before raw after, raws = before ++ raw :: after ∧ (∀ r ∈ before ++ [raw], r.Sound) ∧
        raw.key ∈ before.map DescriptorText.key := by
  constructor
  · rintro ⟨name, failed⟩
    obtain ⟨before, raw, after, split, good, sound, known, -⟩ := buildAll_eq_duplicate_iff.mp failed
    refine ⟨before, raw, after, split, ?_, known⟩
    exact List.forall_mem_append.mpr ⟨good.sound, List.forall_mem_singleton.mpr sound⟩
  · rintro ⟨before, raw, after, rfl, sound, known⟩
    have bad : ¬ Consistent (before ++ [raw]) := by
      intro good
      have distinct := good.distinct
      rw [List.map_append, List.map_singleton, List.nodup_append] at distinct
      exact distinct.2.2 _ known _ (List.mem_singleton_self _) rfl
    -- The first repetition may come earlier than `raw`, but no pattern before it is broken.
    obtain ⟨front, first, between, cut, good, taken⟩ := exists_first_inconsistent bad
    have fine : first.Sound := sound first (cut ▸ List.mem_append_right _ List.mem_cons_self)
    have whole : before ++ raw :: after = front ++ first :: (between ++ after) := by
      rw [← List.singleton_append, ← List.append_assoc, cut, List.append_assoc, List.cons_append]
    exact ⟨_, whole ▸ buildAll_of_repeated good fine (taken fine) _⟩

/-! ## Reading catalogs -/

def Reads (text : String) (parts : Parts) : Prop :=
  ∃ v, JsonValue.parse text = .ok v ∧ parts? v = some parts

def Describes (item : JsonValue) (d : Descriptor) : Prop :=
  ∃ raw, descriptor? item = some raw ∧ raw.build = .ok d

/-- The settings of a catalog in writing: a member of an object, or the first item of an array. -/
def Lists (v : JsonValue) (items : List JsonValue) : Prop :=
  (∃ members, v = .object members ∧ members.lookup "settings" = some (.array items)) ∨
    ∃ rest, v = .array (.array items :: rest)

omit [PatternSyntax] in
theorem exists_settings {v : JsonValue} {parts : Parts} (read : parts? v = some parts) :
    ∃ items, Lists v items ∧
      List.Forall₂ (fun item raw => descriptor? item = some raw) items parts.settings := by
  unfold parts? at read
  obtain ⟨members, record, read⟩ := Option.bind_eq_some_iff.mp read
  obtain ⟨settings, found, read⟩ := Option.bind_eq_some_iff.mp read
  obtain ⟨requirements, -, read⟩ := Option.bind_eq_some_iff.mp read
  obtain ⟨widgetSections, -, read⟩ := Option.bind_eq_some_iff.mp read
  obtain rfl := Option.some.inj read
  obtain ⟨array, member, listed⟩ := Option.bind_eq_some_iff.mp found
  obtain ⟨items, rfl, described⟩ := JsonValue.list?_eq_some_iff.mp listed
  refine ⟨items, ?_, described⟩
  rcases JsonValue.record?_cases record with rfl | ⟨values, rfl, rfl⟩
  · exact .inl ⟨members, rfl, member⟩
  · cases values with
    | nil => cases member
    | cons first rest => exact .inr ⟨rest, by rw [Option.some.inj member]⟩

theorem Built.describes {items : List JsonValue} {raws : List DescriptorText}
    {ds : List Descriptor} (built : Built raws ds)
    (written : List.Forall₂ (fun item raw => descriptor? item = some raw) items raws) :
    List.Forall₂ Describes items ds := by
  induction built generalizing items with
  | nil =>
    cases written
    exact .nil
  | @cons raw d raws ds made _ ih =>
    cases written with
    | cons first others => exact .cons ⟨raw, first, made⟩ (ih others)

end CatalogText

namespace Suggestion

theorem exists_of_mem_closest {query name : String} {ds : List Descriptor}
    (proposed : name ∈ closest query ds) : ∃ d ∈ ds, d.name = name := by
  unfold closest at proposed
  simp only at proposed
  split at proposed
  · cases proposed
  · obtain ⟨candidate, member, rfl⟩ := List.mem_map.mp proposed
    have found := List.mem_mergeSort.mp (List.mem_of_mem_take member)
    obtain ⟨d, listed, fits⟩ := List.mem_filterMap.mp found
    refine ⟨d, (firstOfKeys_sublist _ _).subset listed, ?_⟩
    unfold candidate? at fits
    simp only at fits
    split at fits
    · rw [← Option.some.inj fits]
    · cases fits

end Suggestion

namespace Catalog

open CatalogText

section

variable [PatternSyntax]

theorem parse_of_reads {text : String} {parts : Parts} (read : Reads text parts) :
    parse text = (buildAll {} parts.settings).map fun c =>
      { c with requirements := parts.requirements, widgetSections := parts.widgetSections } := by
  obtain ⟨v, value, found⟩ := read
  unfold parse
  simp only [value, Except.toOption, Option.bind_some, found]
  cases buildAll {} parts.settings <;> rfl

theorem exists_reads {text : String} (formed : parse text ≠ .error .malformed) :
    ∃ parts, Reads text parts := by
  unfold parse at formed
  cases value : JsonValue.parse text with
  | error e => exact absurd (by rw [value]; rfl) formed
  | ok v =>
    cases found : parts? v with
    | none => exact absurd (by simp only [value, Except.toOption, Option.bind_some, found]) formed
    | some parts => exact ⟨parts, v, value, found⟩

theorem exists_built {text : String} {c : Catalog} (done : parse text = .ok c) :
    ∃ parts, Reads text parts ∧ Consistent parts.settings ∧ Built parts.settings c.descriptors ∧
      c.Indexed := by
  have formed : parse text ≠ .error .malformed := by simp [done]
  obtain ⟨parts, read⟩ := exists_reads formed
  rw [parse_of_reads read] at done
  obtain ⟨made, all, rfl⟩ := map_eq_ok_iff.mp done
  have good := consistent_of_buildAll all
  obtain ⟨made', all', built, indexed⟩ := buildAll_of_consistent good
  obtain rfl : made' = made := Except.ok.inj (all'.symm.trans all)
  exact ⟨parts, read, good, built, indexed⟩

theorem parse_eq_duplicate_iff {text name : String} :
    parse text = .error (.duplicate name) ↔
      ∃ parts, Reads text parts ∧ buildAll {} parts.settings = .error (.duplicate name) := by
  constructor
  · intro failed
    have formed : parse text ≠ .error .malformed := by simp [failed]
    obtain ⟨parts, read⟩ := exists_reads formed
    rw [parse_of_reads read, map_eq_error_iff] at failed
    exact ⟨parts, read, failed⟩
  · rintro ⟨parts, read, failed⟩
    rw [parse_of_reads read, map_eq_error_iff]
    exact failed

theorem exists_parse_iff {text : String} :
    (∃ c, parse text = .ok c) ↔ ∃ parts, Reads text parts ∧ Consistent parts.settings := by
  constructor
  · rintro ⟨c, done⟩
    obtain ⟨parts, read, good, -⟩ := exists_built done
    exact ⟨parts, read, good⟩
  · rintro ⟨parts, read, good⟩
    obtain ⟨c, all, -⟩ := buildAll_of_consistent good
    rw [parse_of_reads read, all]
    exact ⟨_, rfl⟩

/-- A catalog that has been read has the descriptions of the text in their order, each with a key of
its own. The index leads to the place of each key, so a lookup finds the one description with the
key of the name, and finds each description and all that is suggested under their own names. A text
has a repetition exactly if some key is there before, all patterns up to then being fine. -/
theorem parse_lookup (text : String) :
    (∀ c, parse text = .ok c →
      (∃ v items, JsonValue.parse text = .ok v ∧ Lists v items ∧
        List.Forall₂ Describes items c.descriptors) ∧
      (∀ key place, c.byKey.lookup key = some place ↔
        ∃ d, c.descriptors[place]? = some d ∧ settingKey d.name = key) ∧
      (keys c.descriptors).Nodup ∧
      (∀ name d, c.find? name = some d ↔
        d ∈ c.descriptors ∧ settingKey d.name = settingKey name) ∧
      (∀ name, c.find? name = none ↔
        ∀ d ∈ c.descriptors, settingKey d.name ≠ settingKey name) ∧
      (∀ d ∈ c.descriptors, c.find? d.name = some d) ∧
      ∀ query, ∀ name ∈ Suggestion.closest query c.descriptors,
        ∃ d, c.find? name = some d ∧ d.name = name) ∧
    ((∃ c, parse text = .ok c) ↔ ∃ parts, Reads text parts ∧ Consistent parts.settings) ∧
    ((∃ name, parse text = .error (.duplicate name)) ↔
      ∃ parts, Reads text parts ∧ ∃ before raw after, parts.settings = before ++ raw :: after ∧
        (∀ r ∈ before ++ [raw], r.Sound) ∧ raw.key ∈ before.map DescriptorText.key) ∧
    ∀ name, parse text = .error (.duplicate name) ↔
      ∃ parts, Reads text parts ∧ ∃ before raw after, parts.settings = before ++ raw :: after ∧
        Consistent before ∧ raw.Sound ∧ raw.key ∈ before.map DescriptorText.key ∧
        raw.descriptor.name = name := by
  refine ⟨?_, exists_parse_iff, ?_, ?_⟩
  · intro c done
    obtain ⟨parts, ⟨v, value, read⟩, good, built, indexed⟩ := exists_built done
    obtain ⟨items, listed, written⟩ := exists_settings read
    have own : ∀ d ∈ c.descriptors, c.find? d.name = some d :=
      fun d member => indexed.find?_eq_some_iff.mpr ⟨member, rfl⟩
    refine ⟨⟨v, items, value, listed, built.describes written⟩, indexed, indexed.nodup,
      fun _ _ => indexed.find?_eq_some_iff, fun _ => indexed.find?_eq_none_iff, own, ?_⟩
    intro query name proposed
    obtain ⟨d, member, rfl⟩ := Suggestion.exists_of_mem_closest proposed
    exact ⟨d, own d member, rfl⟩
  · simp only [parse_eq_duplicate_iff, ← exists_duplicate_iff]
    constructor
    · rintro ⟨name, parts, read, failed⟩
      exact ⟨parts, read, name, failed⟩
    · rintro ⟨parts, read, name, failed⟩
      exact ⟨name, parts, read, failed⟩
  · intro name
    simp only [parse_eq_duplicate_iff, buildAll_eq_duplicate_iff]

end

/-- A catalog in writing, with two settings of type `date`. The first has a pattern, and the second
is an array. -/
def datesText (first second : String) : String :=
  "\x7b\"settings\": [\x7b\"type\": \"date\", \"pattern\": \"a+\", \"name\": \"" ++ first ++
    "\"\x7d, [\"" ++ second ++ "\", null, \"date\"]]\x7d"

theorem parse_lookup_spellings :
    (∃ c, parse (datesText "start-time" "end-time") = .ok c ∧
      ∃ d, c.find? "END TIME" = some d ∧ d.name = "end-time") ∧
    ∃ parts, Reads (datesText "start-time" "Start Time") parts ∧
      ∃ before raw after, parts.settings = before ++ raw :: after ∧
        (∀ r ∈ before ++ [raw], r.Sound) ∧ raw.key ∈ before.map DescriptorText.key := by
  constructor
  · have read : (parse (datesText "start-time" "end-time")).map
        (fun c => c.descriptors.map Descriptor.name) = .ok ["start-time", "end-time"] := by
      decide +kernel
    obtain ⟨c, done, names⟩ := map_eq_ok_iff.mp read
    have named : "end-time" ∈ c.descriptors.map Descriptor.name := by simp [names]
    obtain ⟨d, listed, name⟩ := List.mem_map.mp named
    refine ⟨c, done, d, ?_, name⟩
    apply (((parse_lookup _).1 c done).2.2.2.1 _ _).mpr
    exact ⟨listed, by rw [name]; decide⟩
  · apply (parse_lookup _).2.2.1.mp
    have failed : (parse (datesText "start-time" "Start Time")).map
        (fun c => c.descriptors.map Descriptor.name) = .error (.duplicate "Start Time") := by
      decide +kernel
    exact ⟨"Start Time", map_eq_error_iff.mp failed⟩

end Catalog
end ChartLint
