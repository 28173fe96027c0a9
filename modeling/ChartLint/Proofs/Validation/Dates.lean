import ChartLint.Proofs.Rule.Dates
import ChartLint.Proofs.Validation.Inheritance

/-!
# The dates of a document

No date is remembered before the rules run on the tree of a document, since reading the lines only
takes notes of values that are no dates. So what a rule finds out about a date depends on the zone
of the section where the rules have read it first.
-/

namespace ChartLint

theorem Setting.unread_check {zones : ZoneDatabase} {s : Setting} (unread : s.Unread)
    (dates : DateContext) (value : Span) : (s.check dates value).1.Unread := by
  unfold Setting.check
  split
  · exact unread
  · dsimp only
    split
    · intro value broken
      cases broken
    · exact unread

theorem SectionTree.unread_attach {t : SectionTree} (unread : t.Unread) (header : Span)
    (kind : SectionKind) {settings : List Setting} (new : ∀ s ∈ settings, s.Unread)
    (parent : Option Nat) : (t.attach header kind settings parent).Unread := by
  intro d s found
  obtain ⟨n, node, at_⟩ := Option.bind_eq_some_iff.mp found
  rcases node?_attach_cases node with ⟨-, rfl⟩ | ⟨m, old, rfl⟩
  · exact new s (List.mem_of_getElem? at_)
  · exact unread d s (by simpa [setting?, old] using at_)

theorem SectionTree.unread_add {t : SectionTree} (unread : t.Unread) (header : Span)
    (kind : SectionKind) {settings : List Setting} (new : ∀ s ∈ settings, s.Unread) :
    (t.add header kind settings).1.Unread := by
  rcases t.add_cases header kind settings with ⟨-, same⟩ | ⟨p, -, -, same⟩ | ⟨-, -, same⟩
  · exact same ▸ unread_attach unread header kind new none
  · exact same ▸ unread_attach unread header kind new (some p)
  · rw [same]
    exact unread

namespace Pass

structure Unread (p : Pass) : Prop where
  tree : p.tree.Unread
  pending : ∀ current ∈ p.pending, ∀ entry ∈ current.settings, entry.1.Unread

variable {p : Pass} (env : Environment)

theorem unread_empty : Unread {} where
  tree d s found := by simp [SectionTree.setting?, SectionTree.node?] at found
  pending := by simp

theorem unread_flush (unread : p.Unread) : p.flush.Unread := by
  unfold flush
  cases open_ : p.pending with
  | none => exact unread
  | some current =>
      refine ⟨SectionTree.unread_add unread.tree _ _ ?_, by simp⟩
      intro s member
      obtain ⟨entry, within, rfl⟩ := List.mem_map.mp member
      exact unread.pending current open_ entry within

theorem unread_header (unread : p.Unread) (name : Span) : (p.header env name).1.Unread := by
  have flushed := unread_flush unread
  unfold header
  dsimp only
  split
  · refine ⟨flushed.tree, ?_⟩
    rintro current ⟨⟩ entry member
    cases member
  · exact ⟨flushed.tree, flushed.pending⟩

theorem unread_declare (unread : p.Unread) {s : Setting} (new : s.Unread) :
    (p.declare env s).1.Unread := by
  unfold declare
  cases open_ : p.pending with
  | none => exact unread
  | some current =>
      have before := unread.pending current open_
      dsimp only
      split
      · split
        · refine ⟨unread.tree, ?_⟩
          rintro _ ⟨⟩ entry member
          obtain ⟨entry', within, rfl⟩ := List.mem_map.mp member
          split
          · exact before entry' within
          · exact before entry' within
        · exact unread
      · refine ⟨unread.tree, ?_⟩
        rintro _ ⟨⟩ entry member
        rcases List.mem_append.mp member with member | member
        · exact before entry member
        · rw [List.mem_singleton] at member
          exact member ▸ new

theorem unread_sectionStep (unread : p.Unread) (line : Line) :
    (p.sectionStep env line).1.Unread := by
  cases line with
  | header name => exact unread_header env unread name
  | setting name value =>
      simp only [sectionStep, setting]
      split
      · exact unread
      · split
        · exact unread
        · exact unread
        · apply unread_declare env unread
          apply Setting.unread_check
          intro value read
          cases read
  | _ => exact unread

theorem unread_step (unread : p.Unread) (no : Nat) (text : String) :
    (p.step env no text).1.Unread := by
  unfold step
  dsimp only
  split
  · exact ⟨unread.tree, unread.pending⟩
  · apply unread_sectionStep
    exact ⟨unread.tree, unread.pending⟩

theorem unread_run (unread : p.Unread) (no : Nat) (lines : List String) :
    (p.run env no lines).1.Unread := by
  induction lines generalizing p no with
  | nil => exact unread
  | cons text lines ih => exact ih (unread_step env unread no text) (no + 1)

end Pass

theorem unread_sectionTree (env : Environment) (lines : List String) :
    (sectionTree env lines).Unread :=
  (Pass.unread_flush (Pass.unread_run env Pass.unread_empty 0 lines)).tree

/-- A setting that is read again keeps the date that it had in the zone of the first time. After the
rules have run on some sections of a document, the order of two dates is checked with their values
in the zones where the rules have read them first. The check reports what it would report by itself
if the two dates are the same in the zones of these sections and in its own. -/
theorem dates_of_first_read {s : Setting} (fresh : s.date = .unread)
    (written : isComputed s.value.text = false) (now : WallClock) (zones : List Zone) (zone : Zone)
    (env : Environment) (lines : List String) (ctx : RuleContext) (rules : List Rule)
    (ids : List Nat) (id : Nat) (earlier later : String) :
    let t := sectionTree env lines
    (∀ i, ((s.readIn now zones).dateValue ⟨now, zone⟩).2 = some i ↔
        ((DateExpression.parse s.value.text).bind fun e => e.evaluate now (zones.headD zone)) =
          .ok i) ∧
      (Rule.checkOrder ctx (Rule.runAll ctx rules ids t).1 id earlier later).2 =
        (Rule.orderReports t id earlier later fun d =>
          t.freshDate? ⟨ctx.now,
            (zonesOf d (Rule.reads ctx rules t ids)).headD (ctx.zoneAt t id)⟩ d) ∧
      ((∀ first second, Rule.comparedAt? t id earlier later = some (first, second) →
          ∀ other ∈ ids, ∀ d, d = first ∨ d = second →
            t.freshDate? ⟨ctx.now, ctx.zoneAt t other⟩ d =
              t.freshDate? ⟨ctx.now, ctx.zoneAt t id⟩ d) →
        (Rule.checkOrder ctx (Rule.runAll ctx rules ids t).1 id earlier later).2 =
          (Rule.checkOrder ctx t id earlier later).2) := by
  intro t
  have unread : t.Unread := unread_sectionTree env lines
  refine ⟨fun i => ?_, Rule.checkOrder_runAll ctx unread rules ids id earlier later,
    Rule.checkOrder_runAll_eq ctx unread rules⟩
  have first : s.Unread := by
    intro value read
    rw [fresh] at read
    cases read
  rw [Setting.dateValue_readIn first, Setting.freshDate?, Setting.isBroken, written, fresh]
  cases (DateExpression.parse s.value.text).bind fun e => e.evaluate now (zones.headD zone) <;>
    simp [Except.toOption]

def dateEnvironment : Environment where
  catalog :=
    { descriptors := [{ name := "start-time", type := .date },
      { name := "end-time", type := .date },
        { name := "timezone", type := .string }] }
  options := {}
  now := ⟨1609459200000000000, by decide, by decide⟩

/-- A start for two widgets, of which the second is in Tokyo. -/
def twoZones : List String :=
  ["[configuration]", "start-time = 2021-01-01 12:00", "[group]",
    "[widget]", "end-time = 2021-01-01 13:00",
    "[widget]", "timezone = asia/tokyo", "end-time = 2021-01-01 12:30"]

def dateContext : RuleContext :=
  ⟨dateEnvironment.catalog, dateEnvironment.now, .utc⟩

def startSetting : Setting where
  descriptor := { name := "start-time", type := .date }
  name := ⟨"start-time", 1, 0, 10⟩
  value := ⟨"2021-01-01 12:00", 1, 13, 29⟩

/-- Noon at the first call, which is for UTC, is what a second call for Tokyo gives. The widget in
Tokyo by itself is checked as if no rule had run. -/
theorem dates_of_first_read_utc :
    ((startSetting.readIn dateContext.now [.utc]).dateValue ⟨dateContext.now, .tokyo⟩).2 =
        some ⟨⟨1609502400000000000, by decide, by decide⟩, 0⟩ ∧
      (Rule.checkOrder dateContext
          (Rule.runAll dateContext Rule.all [3] (sectionTree dateEnvironment twoZones)).1 3
          "start-time" "end-time").2 =
        (Rule.checkOrder dateContext (sectionTree dateEnvironment twoZones) 3
          "start-time" "end-time").2 := by
  obtain ⟨first, -, alone⟩ := dates_of_first_read (s := startSetting) rfl (by decide)
    dateContext.now [.utc] .tokyo dateEnvironment twoZones dateContext Rule.all [3] 3
    "start-time" "end-time"
  refine ⟨(first _).mpr (by decide +kernel), alone ?_⟩
  intro _ _ _ other visited d _
  rw [List.mem_singleton.mp visited]

/-- Noon in Tokyo is not noon in UTC, but it is given as such after a call for UTC. The widget in
Tokyo starts before it ends, and this is reported as wrong once the rules have visited the other. -/
theorem dates_in_other_zone :
    ((DateExpression.parse startSetting.value.text).bind
          fun e => e.evaluate dateContext.now .tokyo).toOption =
        some ⟨⟨1609470000000000000, by decide, by decide⟩, 540⟩ ∧
      ((startSetting.readIn dateContext.now [.utc]).dateValue ⟨dateContext.now, .tokyo⟩).2 =
        some ⟨⟨1609502400000000000, by decide, by decide⟩, 0⟩ ∧
      (Rule.checkOrder dateContext (sectionTree dateEnvironment twoZones) 3
        "start-time" "end-time").2.isEmpty = true ∧
      (Rule.checkOrder dateContext
        (Rule.runAll dateContext Rule.all [0, 1, 2] (sectionTree dateEnvironment twoZones)).1 3
        "start-time" "end-time").2.isEmpty = false := by
  decide +kernel

end ChartLint
