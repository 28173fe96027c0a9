import ChartLint.Proofs.Validation.Declarations
import ChartLint.Proofs.Validation.Entries

/-!
# What the reading of a setting depends on

A setting is read before it is entered into the open section: its name is looked up, and its value
is checked. That depends on the settings before it in two ways only. The type of the widget may call
for another form of the setting, and dates are worked out in the zone of the section. So a setting
is read in the same way before and after another one, unless that one is `type` or `timezone` and
the setting has several forms or is a date: `Pass.indifferent_or_governs`.
-/

namespace ChartLint

namespace OpenPath

theorem visible?_declare (c : Catalog) (p : OpenPath) {name other : String} (differ : other ≠ name)
    (value : String) : (p.declare c name value).visible? other = p.visible? other := by
  unfold declare visible?
  split
  · rfl
  · rename_i l below levels
    rw [levels, List.findSome?_cons, List.findSome?_cons, Level.declare, List.lookup_cons,
      beq_eq_false_iff_ne.mpr differ]

theorem widgetType?_declare (c : Catalog) (p : OpenPath) {name : String} (differ : "type" ≠ name)
    (value : String) : (p.declare c name value).widgetType? = p.widgetType? := by
  unfold declare widgetType?
  split
  · rfl
  · rename_i l below levels
    have kind : (l.declare c name value).kind? = l.kind? := rfl
    have lookup : (l.declare c name value).settings.lookup "type" = l.settings.lookup "type" := by
      rw [Level.declare, List.lookup_cons, beq_eq_false_iff_ne.mpr differ]
    rw [levels, List.filter_cons, List.filter_cons, kind]
    split
    · rw [List.findSome?_cons, List.findSome?_cons, lookup]
    · rfl

end OpenPath

theorem Descriptor.problem?_congr {zones : ZoneDatabase} {d : Descriptor} (other : d.type ≠ .date)
    (dates dates' : DateContext) (text : String) :
    d.problem? dates text = d.problem? dates' text := by
  unfold Descriptor.problem?
  split
  · rfl
  · cases kind : d.type with
    | date => exact absurd kind other
    | _ => rfl

theorem Catalog.resolve_congr {c : Catalog} {name : String} {scope scope' : Scope}
    (same : scope'.sectionName = scope.sectionName)
    (plain : ∀ d, c.find? (Text.trimmed name) = some d → d.overrides = []) :
    c.resolve name scope' = c.resolve name scope := by
  unfold resolve Resolution.isExempt
  rw [same]
  dsimp only
  split
  · rfl
  · cases found : c.find? (Text.trimmed name) with
    | none => rfl
    | some d => simp [Descriptor.specialize?, Descriptor.patchesIn, plain d found]

namespace Pass

variable (env : Environment) {p : Pass} {name value : Span}

def reading (p : Pass) (name value : Span) : Option Setting × List Diagnostic :=
  if p.inUnknown then (none, [])
  else
    match env.catalog.resolve name.text p.scope with
    | .exempt => (none, [])
    | .unknown => (none, [unknownSetting env name])
    | .known descriptor =>
      let (s, found) := p.checkSetting env { descriptor, name, value }
      (some s, found)

def take (p : Pass) : Option Setting → Pass × List Diagnostic
  | none => (p, [])
  | some s => p.declare env s

theorem setting_eq (p : Pass) (name value : Span) :
    p.setting env name value =
      ((p.take env (p.reading env name value).1).1,
        (p.reading env name value).2 ++ (p.take env (p.reading env name value).1).2) := by
  unfold setting reading
  split
  · rfl
  · cases env.catalog.resolve name.text p.scope <;> rfl

theorem descriptor_of_reading {s : Setting} (read : (p.reading env name value).1 = some s) :
    env.catalog.resolve name.text p.scope = .known s.descriptor ∧ s.name = name ∧
      s.value = value := by
  unfold reading at read
  split at read
  · cases read
  · cases resolved : env.catalog.resolve name.text p.scope with
    | exempt => rw [resolved] at read; cases read
    | unknown => rw [resolved] at read; cases read
    | known d =>
        rw [resolved] at read
        obtain ⟨date, checked⟩ := checkSetting_fst env p { descriptor := d, name, value }
        obtain rfl := Option.some.inj read
        rw [checked]
        exact ⟨rfl, rfl, rfl⟩

/-! ## Two passes -/

theorem checkSetting_congr {p' : Pass} (s : Setting)
    (same : letI := env.options.zones
      s.problem? ⟨env.now, p'.zone env⟩ s.value = s.problem? ⟨env.now, p.zone env⟩ s.value) :
    p'.checkSetting env s = p.checkSetting env s := by
  unfold checkSetting Setting.check
  rw [same]

theorem reading_congr {p' : Pass} (passed : p'.inUnknown = p.inUnknown)
    (resolved : env.catalog.resolve name.text p'.scope = env.catalog.resolve name.text p.scope)
    (dates : ∀ d, env.catalog.resolve name.text p.scope = .known d → d.type = .date →
      p'.zone env = p.zone env) :
    p'.reading env name value = p.reading env name value := by
  unfold reading
  rw [passed, resolved]
  split
  · rfl
  · cases known : env.catalog.resolve name.text p.scope with
    | exempt => rfl
    | unknown => rfl
    | known d =>
        dsimp only
        rw [checkSetting_congr]
        by_cases date : d.type = .date
        · rw [dates d known date]
        · unfold Setting.problem?
          rw [Descriptor.problem?_congr date]

/-! ## One setting after another -/

/-- A setting is read as if another one were not before it. The same is wrong with it, and the same
is entered, whatever other values it might have. -/
def Indifferent (p : Pass) (name value name' value' : Span) : Prop :=
  let after := (p.setting env name value).1.reading env name' value'
  let before := p.reading env name' value'
  after.1.map Setting.note = before.1.map Setting.note ∧ after.2 = before.2

/-- A setting can change how another is read: as the type of a widget, if the other has several
forms, or as the zone of a date. -/
def Governs (p : Pass) (name name' : Span) : Prop :=
  ∃ d, env.catalog.resolve name.text p.scope = .known d ∧
    ((d.name = "type" ∧ ∃ d', env.catalog.find? (Text.trimmed name'.text) = some d' ∧
      d'.overrides ≠ []) ∨
      (d.name = "timezone" ∧ ∃ d', env.catalog.resolve name'.text p.scope = .known d' ∧
        d'.type = .date))

theorem sectionName_declare (s : Setting) :
    (p.declare env s).1.scope.sectionName = p.scope.sectionName := by
  unfold scope
  cases pending : p.pending with
  | none =>
      rw [declare, pending]
      dsimp only
      rw [pending]
  | some current =>
      obtain ⟨next, -, kind, -, declared⟩ := declare_entries env pending s
      rw [declared]
      dsimp only [Option.elim_some]
      rw [kind]

theorem path_declare (s : Setting) :
    (p.declare env s).1.path = p.path ∨
      (p.declare env s).1.path = p.path.declare env.catalog s.descriptor.name s.value.text := by
  cases pending : p.pending with
  | none =>
      rw [declare, pending]
      exact .inl rfl
  | some current =>
      obtain ⟨next, -, -, -, declared⟩ := declare_entries env pending s
      rw [declared]
      cases (current.entries.find? (Entry.ofSetting s p.blocks.arm).isSame).isSome with
      | false => exact .inr rfl
      | true => exact .inl rfl

theorem widget_declare (s : Setting) (differ : s.descriptor.name ≠ "type") :
    (p.declare env s).1.scope = p.scope := by
  have widget : (p.declare env s).1.path.widgetType? = p.path.widgetType? := by
    rcases p.path_declare env s with same | same
    · rw [same]
    · rw [same, OpenPath.widgetType?_declare _ _ (Ne.symm differ)]
  exact congrArg₂ Scope.mk (sectionName_declare env s) widget

theorem zone_declare (s : Setting) (differ : s.descriptor.name ≠ "timezone") :
    (p.declare env s).1.zone env = p.zone env := by
  unfold zone
  rcases p.path_declare env s with same | same
  · rw [same]
  · rw [same, OpenPath.visible?_declare _ _ (Ne.symm differ)]

theorem indifferent_of_eq {name' value' : Span}
    (same : (p.setting env name value).1.reading env name' value' = p.reading env name' value') :
    p.Indifferent env name value name' value' := by
  unfold Indifferent
  rw [same]
  exact ⟨rfl, rfl⟩

theorem indifferent_or_governs (p : Pass) (name value name' value' : Span) :
    p.Indifferent env name value name' value' ∨ p.Governs env name name' := by
  refine Or.imp_left (indifferent_of_eq env) ?_
  rw [setting_eq]
  cases read : (p.reading env name value).1 with
  | none => exact .inl rfl
  | some s =>
      obtain ⟨resolved, -, -⟩ := descriptor_of_reading env read
      have passed := p.inUnknown_declare env s
      by_cases forms : s.descriptor.name = "type" ∧
          ∃ d', env.catalog.find? (Text.trimmed name'.text) = some d' ∧ d'.overrides ≠ []
      · exact .inr ⟨s.descriptor, resolved, .inl forms⟩
      by_cases dated : s.descriptor.name = "timezone" ∧
          ∃ d', env.catalog.resolve name'.text p.scope = .known d' ∧ d'.type = .date
      · exact .inr ⟨s.descriptor, resolved, .inr dated⟩
      refine .inl (reading_congr env passed ?_ ?_)
      · by_cases type : s.descriptor.name = "type"
        · apply Catalog.resolve_congr (sectionName_declare env s)
          intro d' found
          by_contra several
          exact forms ⟨type, d', found, several⟩
        · exact congrArg _ (widget_declare env s type)
      · intro d' known date
        apply zone_declare
        intro timezone
        exact dated ⟨timezone, d', known, date⟩

end Pass

/-! ## The same setting on another line -/

def Setting.moved (n : Nat) (s : Setting) : Setting :=
  { s with name := s.name.moved n, value := s.value.moved n }

theorem Setting.map_note_moved (n : Nat) (s : Option Setting) :
    (s.map (Setting.moved n)).map Setting.note = s.map (Setting.movedNote n) :=
  Option.map_map ..

theorem Setting.check_moved {zones : ZoneDatabase} (n : Nat) (s : Setting) (dates : DateContext) :
    (s.moved n).check dates (s.moved n).value =
      ((s.check dates s.value).1.moved n, (s.check dates s.value).2.map (Diagnostic.moved n)) := by
  have found : (s.moved n).problem? dates (s.moved n).value =
      (s.problem? dates s.value).map fun (p, place) => (p, place.moved n) := by
    unfold Setting.problem?
    change (if isComputed s.value.text then _ else if s.value.text.isEmpty then _ else _) = _
    split
    · rfl
    · split
      · rfl
      · rw [Option.map_map]
        rfl
  unfold Setting.check
  rw [found]
  cases s.problem? dates s.value with
  | none => rfl
  | some entry =>
      obtain ⟨p, place⟩ := entry
      dsimp only [Option.map_some]
      split <;> rfl

namespace Pass

variable (env : Environment) (p : Pass) (n : Nat)

theorem checkSetting_moved (s : Setting) :
    p.checkSetting env (s.moved n) =
      ((p.checkSetting env s).1.moved n, (p.checkSetting env s).2.map (Diagnostic.moved n)) := by
  unfold checkSetting
  rw [Setting.check_moved]
  change (_, s.descriptor.deprecated.elim _ _ ++ _) = _
  refine congrArg (Prod.mk _) ?_
  dsimp only
  rw [List.map_append]
  congr 1
  · cases s.descriptor.deprecated <;> rfl
  · cases (@Setting.check env.options.zones s ⟨env.now, p.zone env⟩ s.value).2 <;> rfl

theorem reading_moved (name value : Span) :
    p.reading env (name.moved n) (value.moved n) =
      ((p.reading env name value).1.map (Setting.moved n),
        (p.reading env name value).2.map (Diagnostic.moved n)) := by
  have text : (name.moved n).text = name.text := rfl
  unfold reading
  rw [text]
  split
  · rfl
  · cases env.catalog.resolve name.text p.scope with
    | exempt => rfl
    | unknown => rfl
    | known d =>
        have checked := p.checkSetting_moved env n { descriptor := d, name, value }
        exact congrArg (fun (s, found) => (some s, found)) checked

end Pass
end ChartLint
