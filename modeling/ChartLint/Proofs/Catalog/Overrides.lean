import ChartLint.Setting.Resolution
import Mathlib.Data.List.Basic

/-!
# Settings in a scope

An override is in force where its condition is met (`Predicate.Met`). In a scope, each field of a
description holds what was written last by an override in force, and what no override in force
writes stays as it is: `Descriptor.specialize?_last_writer`. An override that is not in force may as
well be missing from the catalog.
-/

namespace ChartLint

namespace Predicate

/-- What a condition says of a scope. An unknown widget type equals nothing. -/
def Met (scope : Scope) : Predicate → Prop
  | .equals var value => ∃ actual ∈ scope.get? var, Text.sameIgnoringCase actual value
  | .oneOf var values =>
    ∃ actual ∈ scope.get? var, ∃ value ∈ values, Text.sameIgnoringCase actual value
  | .not inner => ¬ Met scope inner
  | .all parts => ∀ part ∈ parts, Met scope part

mutual

theorem holds_iff (scope : Scope) (p : Predicate) : p.holds scope = true ↔ p.Met scope := by
  cases p with
  | equals var value => simp [holds, Met, Option.any_eq_true]
  | oneOf var values => simp [holds, Met, Option.any_eq_true]
  | not inner => rw [holds, Met, ← holds_iff scope inner, Bool.not_eq_true', Bool.not_eq_true]
  | all parts => rw [holds, Met, allHold_iff scope parts]

theorem allHold_iff (scope : Scope) (parts : List Predicate) :
    allHold scope parts = true ↔ ∀ part ∈ parts, part.Met scope := by
  cases parts with
  | nil => simp [allHold]
  | cons part parts =>
      rw [allHold, Bool.and_eq_true, holds_iff scope part, allHold_iff scope parts,
        List.forall_mem_cons]

end

end Predicate

/-- What a field that held `base` holds in a scope: what the last override in force that writes the
field has written, or `base` if none of them writes it. -/
def LastWritten {β : Type} (overrides : List Override) (scope : Scope) (writes : Patch → Option β)
    (base value : β) : Prop :=
  (∃ before last after, overrides = before ++ last :: after ∧ last.scope.Met scope ∧
    writes last.patch = some value ∧ ∀ o ∈ after, o.scope.Met scope → writes o.patch = none) ∨
  value = base ∧ ∀ o ∈ overrides, o.scope.Met scope → writes o.patch = none

namespace Descriptor

structure Overridden (d : Descriptor) (scope : Scope) (e : Descriptor) : Prop where
  type : LastWritten d.overrides scope Patch.type d.type e.type
  options : LastWritten d.overrides scope Patch.options d.options e.options
  min : LastWritten d.overrides scope (fun p => p.min.map some) d.min e.min
  max : LastWritten d.overrides scope (fun p => p.max.map some) d.max e.max
  fallback : LastWritten d.overrides scope (fun p => p.fallback.map some) d.fallback e.fallback
  sample : LastWritten d.overrides scope (fun p => p.sample.map some) d.sample e.sample
  multiLine : LastWritten d.overrides scope Patch.multiLine d.multiLine e.multiLine
  others : e = { d with
    type := e.type, options := e.options, min := e.min, max := e.max, fallback := e.fallback,
    sample := e.sample, multiLine := e.multiLine }

end Descriptor

/-! ## The changes of a scope, one after the other -/

section

variable {β : Type} {overrides : List Override} {scope : Scope} {writes : Patch → Option β}
  {base value : β} {o : Override}

theorem LastWritten.cons_not_met (idle : ¬ o.scope.Met scope)
    (rest : LastWritten overrides scope writes base value) :
    LastWritten (o :: overrides) scope writes base value := by
  rcases rest with ⟨before, last, after, rfl, met, written, silent⟩ | ⟨same, silent⟩
  · exact .inl ⟨o :: before, last, after, rfl, met, written, silent⟩
  · refine .inr ⟨same, List.forall_mem_cons.mpr ⟨?_, silent⟩⟩
    intro met
    exact absurd met idle

theorem LastWritten.cons_met (met : o.scope.Met scope)
    (rest : LastWritten overrides scope writes ((writes o.patch).getD base) value) :
    LastWritten (o :: overrides) scope writes base value := by
  rcases rest with ⟨before, last, after, rfl, lastMet, written, silent⟩ | ⟨same, silent⟩
  · exact .inl ⟨o :: before, last, after, rfl, lastMet, written, silent⟩
  · cases first : writes o.patch with
    | some v =>
        rw [first, Option.getD_some] at same
        exact .inl ⟨[], o, overrides, rfl, met, same ▸ first, silent⟩
    | none =>
        rw [first, Option.getD_none] at same
        exact .inr ⟨same, List.forall_mem_cons.mpr ⟨fun _ => first, silent⟩⟩

end

namespace Descriptor

theorem lastWritten_foldl {β : Type} {field : Descriptor → β} {writes : Patch → Option β}
    (step : ∀ d p, field (apply d p) = (writes p).getD (field d)) (overrides : List Override)
    (scope : Scope) (d : Descriptor) :
    LastWritten overrides scope writes (field d)
      (field (((overrides.filter fun o => o.scope.holds scope).map Override.patch).foldl
        apply d)) := by
  -- on the overrides, of which the first is applied first: what it writes is the base of the rest
  induction overrides generalizing d with
  | nil => exact .inr ⟨rfl, by simp⟩
  | cons o overrides ih =>
      rw [List.filter_cons]
      split
      · next holds =>
          apply LastWritten.cons_met ((Predicate.holds_iff scope _).mp holds)
          rw [← step]
          exact ih (d.apply o.patch)
      · next idle =>
          rw [Predicate.holds_iff] at idle
          exact .cons_not_met idle (ih d)

theorem foldl_apply_others (patches : List Patch) (d : Descriptor) :
    patches.foldl apply d = { d with
      type := (patches.foldl apply d).type, options := (patches.foldl apply d).options,
      min := (patches.foldl apply d).min, max := (patches.foldl apply d).max,
      fallback := (patches.foldl apply d).fallback, sample := (patches.foldl apply d).sample,
      multiLine := (patches.foldl apply d).multiLine } := by
  induction patches generalizing d with
  | nil => rfl
  | cons p patches ih => exact ih (d.apply p)

theorem foldl_apply_overrides (patches : List Patch) (d : Descriptor) (overrides : List Override) :
    patches.foldl apply { d with overrides } = { patches.foldl apply d with overrides } := by
  induction patches generalizing d with
  | nil => rfl
  | cons p patches ih => exact ih (d.apply p)

theorem patchesIn_eq_nil_iff {d : Descriptor} {scope : Scope} :
    d.patchesIn scope = [] ↔ ∀ o ∈ d.overrides, ¬ o.scope.Met scope := by
  simp only [patchesIn, List.map_eq_nil_iff, List.filter_eq_nil_iff, Predicate.holds_iff]

theorem specialize?_eq_none_iff {d : Descriptor} {scope : Scope} :
    d.specialize? scope = none ↔ ∀ o ∈ d.overrides, ¬ o.scope.Met scope := by
  rw [← patchesIn_eq_nil_iff, specialize?]
  cases d.patchesIn scope <;> simp

theorem getD_specialize? (d : Descriptor) (scope : Scope) :
    (d.specialize? scope).getD d = (d.patchesIn scope).foldl apply d := by
  unfold specialize?
  split
  · next none_ => rw [none_]; rfl
  · rfl

theorem overridden_of_specialize? {d e : Descriptor} {scope : Scope}
    (special : d.specialize? scope = some e) : d.Overridden scope e := by
  have made : e = (d.patchesIn scope).foldl apply d := by
    rw [← getD_specialize?, special, Option.getD_some]
  have stands {β : Type} {field : Descriptor → β} {writes : Patch → Option β}
      (step : ∀ d p, field (apply d p) = (writes p).getD (field d)) :
      LastWritten d.overrides scope writes (field d) (field e) :=
    made ▸ lastWritten_foldl step d.overrides scope d
  -- a field that may be missing is written by putting something there
  have filled {α : Type} (new old : Option α) : (new <|> old) = (new.map some).getD old := by
    cases new <;> rfl
  exact {
    type := stands fun _ _ => rfl
    options := stands fun _ _ => rfl
    min := stands fun _ _ => filled _ _
    max := stands fun _ _ => filled _ _
    fallback := stands fun _ _ => filled _ _
    sample := stands fun _ _ => filled _ _
    multiLine := stands fun _ _ => rfl
    others := made ▸ foldl_apply_others _ d }

/-! ## Overrides that are not in force -/

theorem patchesIn_remove {d : Descriptor} {scope : Scope} {before after : List Override}
    {o : Override} (table : d.overrides = before ++ o :: after) (idle : ¬ o.scope.Met scope) :
    patchesIn { d with overrides := before ++ after } scope = d.patchesIn scope := by
  rw [← Predicate.holds_iff] at idle
  rw [patchesIn, patchesIn, table, List.filter_append, List.filter_append, List.filter_cons,
    if_neg idle]

end Descriptor

def Resolution.withoutTable : Resolution → Resolution
  | .known d => .known { d with overrides := [] }
  | .exempt => .exempt
  | .unknown => .unknown

theorem Catalog.find?_replace {c : Catalog} {front back : List Descriptor} {d : Descriptor}
    (listed : c.descriptors = front ++ d :: back) (d' : Descriptor) (name : String) :
    find? { c with descriptors := front ++ d' :: back } name = c.find? name ∨
      c.find? name = some d ∧ find? { c with descriptors := front ++ d' :: back } name =
        some d' := by
  unfold find?
  cases c.byKey.lookup (settingKey name) with
  | none => exact .inl rfl
  | some place =>
      change (front ++ d' :: back)[place]? = c.descriptors[place]? ∨
        c.descriptors[place]? = some d ∧ (front ++ d' :: back)[place]? = some d'
      rw [listed, List.getElem?_append, List.getElem?_append]
      split
      · exact .inl rfl
      · cases place - front.length with
        | zero => exact .inr ⟨rfl, rfl⟩
        | succ later => exact .inl rfl

theorem Catalog.resolve_remove {c : Catalog} {front back : List Descriptor} {d : Descriptor}
    {scope : Scope} {before after : List Override} {o : Override}
    (listed : c.descriptors = front ++ d :: back) (table : d.overrides = before ++ o :: after)
    (idle : ¬ o.scope.Met scope) (name : String) :
    (resolve { c with descriptors := front ++ { d with overrides := before ++ after } :: back }
        name scope).withoutTable = (c.resolve name scope).withoutTable := by
  unfold resolve
  dsimp only
  split
  · rfl
  · rcases find?_replace listed { d with overrides := before ++ after } (Text.trimmed name) with
      same | ⟨found, found'⟩
    · rw [same]
    · rw [found, found']
      dsimp only
      rw [Descriptor.getD_specialize?, Descriptor.getD_specialize?,
        Descriptor.patchesIn_remove table idle, Descriptor.foldl_apply_overrides]
      rfl

/-- The last writer wins, field by field. A setting differs in a scope exactly if an override is in
force there. Each field then holds what the last override in force that writes it has written, or
what it held before. Removing an override that is not in force from a catalog changes nothing of
what names stand for in the scope, the table itself apart. -/
theorem Descriptor.specialize?_last_writer (d : Descriptor) (scope : Scope) :
    (d.specialize? scope = none ↔ ∀ o ∈ d.overrides, ¬ o.scope.Met scope) ∧
    (∀ e, d.specialize? scope = some e → d.Overridden scope e) ∧
    ∀ (c : Catalog) (front back : List Descriptor) (before after : List Override) (o : Override),
      c.descriptors = front ++ d :: back → d.overrides = before ++ o :: after →
      ¬ o.scope.Met scope → ∀ name,
        (Catalog.resolve
            { c with descriptors := front ++ { d with overrides := before ++ after } :: back }
            name scope).withoutTable =
          (c.resolve name scope).withoutTable :=
  ⟨specialize?_eq_none_iff, fun _ => overridden_of_specialize?,
    fun _ _ _ _ _ _ listed table idle => Catalog.resolve_remove listed table idle⟩

/-- A setting that is a whole number in `[series]`, lists other values for two types of widgets, and
takes several lines in all but charts. -/
def stackedSetting : Descriptor where
  name := "mode"
  type := .enum
  options := ["stack", "none"]
  overrides := [
    ⟨.equals .sectionName "series", { type := some .integer, options := some ["0", "1"] }⟩,
    ⟨.oneOf .widget ["pie", "gauge"], { type := some .string, options := some ["ring"] }⟩,
    ⟨.not (.equals .widget "chart"), { options := some ["1", "2"], multiLine := some true }⟩]

theorem Descriptor.specialize?_last_writer_unknown_widget :
    (∃ e, stackedSetting.specialize? ⟨"Series", none⟩ = some e ∧
      stackedSetting.Overridden ⟨"Series", none⟩ e ∧
      e.type = .integer ∧ e.options = ["1", "2"] ∧ e.multiLine = true) ∧
    ∀ name,
      (Catalog.resolve
          { descriptors := [{ stackedSetting with overrides := [
            ⟨.equals .sectionName "series", { type := some .integer, options := some ["0", "1"] }⟩,
            ⟨.not (.equals .widget "chart"),
              { options := some ["1", "2"], multiLine := some true }⟩] }] }
          name ⟨"Series", none⟩).withoutTable =
        (Catalog.resolve { descriptors := [stackedSetting] } name
          ⟨"Series", none⟩).withoutTable := by
  obtain ⟨-, written, removed⟩ := specialize?_last_writer stackedSetting ⟨"Series", none⟩
  have idle : ¬ (Predicate.oneOf .widget ["pie", "gauge"]).Met ⟨"Series", none⟩ := by
    simp [Predicate.Met, Scope.get?]
  exact ⟨⟨_, rfl, written _ rfl, rfl, rfl, rfl⟩,
    removed { descriptors := [stackedSetting] } [] [] [_] [_] _ rfl rfl idle⟩

end ChartLint
