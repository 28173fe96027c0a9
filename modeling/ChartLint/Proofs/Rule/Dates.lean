import ChartLint.Proofs.Section.Lookup
import ChartLint.Rule.Run

/-!
# Remembered dates

A setting is worked out as a date once. All later calls get what came out then, also those that name
another zone. So the date of a setting is its value in the zone in which it was read first, and the
order of two dates that hold in a section is checked with such values: a section may be judged by
the zone of another one that the rules have visited before it.

* `Setting.dateValue_readIn`: what a call gives after any others.
* `Rule.checkOrder_readAll`: what the check of the order reports after any dates have been read.
* `Rule.runAll_tree`: the dates that the rules read, and in which zones.
* `Rule.checkOrder_runAll`: what the check of the order reports after the rules have run on some
  sections.
-/

namespace ChartLint

/-! ## One setting -/

namespace Setting

def freshDate? (s : Setting) (dates : DateContext) : Option Instant :=
  if isComputed s.value.text || s.isBroken then none
  else ((DateExpression.parse s.value.text).bind fun e => e.evaluate dates.now dates.zone).toOption

def Unread (s : Setting) : Prop :=
  ∀ value, s.date ≠ .read value

def readIn (s : Setting) (now : WallClock) : List Zone → Setting
  | [] => s
  | zone :: zones => (s.dateValue ⟨now, zone⟩).1.readIn now zones

theorem dateValue_unread {s : Setting} (unread : s.Unread) (dates : DateContext) :
    (s.dateValue dates).2 = s.freshDate? dates := by
  unfold dateValue freshDate? isBroken
  cases isComputed s.value.text with
  | true => rfl
  | false =>
      cases date : s.date with
      | broken => rfl
      | read value => exact absurd date (unread value)
      | unread =>
          cases (DateExpression.parse s.value.text).bind fun e =>
            e.evaluate dates.now dates.zone <;> rfl

theorem dateValue_again (s : Setting) (dates dates' : DateContext) :
    (s.dateValue dates).1.dateValue dates' = s.dateValue dates := by
  cases computed : isComputed s.value.text with
  | true => simp [dateValue, computed]
  | false =>
      cases date : s.date with
      | broken => simp [dateValue, computed, date]
      | read value => simp [dateValue, computed, date]
      | unread =>
          cases result : (DateExpression.parse s.value.text).bind
              fun e => e.evaluate dates.now dates.zone with
          | ok value => simp [dateValue, computed, date, result]
          | error cause => simp [dateValue, computed, date, result, markBroken]

theorem readIn_cons (s : Setting) (now : WallClock) (zone : Zone) (zones : List Zone) :
    s.readIn now (zone :: zones) = (s.dateValue ⟨now, zone⟩).1 := by
  rw [readIn]
  induction zones with
  | nil => rfl
  | cons next zones ih => rw [readIn, dateValue_again, ih]

theorem dateValue_readIn {s : Setting} (unread : s.Unread) (now : WallClock) (zones : List Zone)
    (zone : Zone) :
    ((s.readIn now zones).dateValue ⟨now, zone⟩).2 = s.freshDate? ⟨now, zones.headD zone⟩ := by
  cases zones with
  | nil => exact dateValue_unread unread _
  | cons first zones => rw [readIn_cons, dateValue_again]; exact dateValue_unread unread _

end Setting

/-! ## The settings of a tree -/

def zonesOf (d : Declaration) (reads : List (Declaration × Zone)) : List Zone :=
  reads.filterMap fun read => if read.1 = d then some read.2 else none

namespace SectionTree

variable {t : SectionTree}

def Unread (t : SectionTree) : Prop :=
  ∀ d s, t.setting? d = some s → s.Unread

def freshDate? (t : SectionTree) (dates : DateContext) (d : Declaration) : Option Instant :=
  (t.setting? d).bind (·.freshDate? dates)

def readAll (t : SectionTree) (now : WallClock) : List (Declaration × Zone) → SectionTree
  | [] => t
  | (d, zone) :: reads => (t.dateValue ⟨now, zone⟩ d).1.readAll now reads

theorem readAll_append (t : SectionTree) (now : WallClock)
    (reads more : List (Declaration × Zone)) :
    t.readAll now (reads ++ more) = (t.readAll now reads).readAll now more := by
  induction reads generalizing t with
  | nil => rfl
  | cons read reads ih => exact ih _

theorem undated_readAll (t : SectionTree) (now : WallClock) (reads : List (Declaration × Zone)) :
    (t.readAll now reads).undated = t.undated := by
  induction reads generalizing t with
  | nil => rfl
  | cons read reads ih => exact (ih _).trans (t.undated_dateValue _ _)

theorem setting?_readAll (t : SectionTree) (now : WallClock) (reads : List (Declaration × Zone))
    (d : Declaration) :
    (t.readAll now reads).setting? d = (t.setting? d).map (·.readIn now (zonesOf d reads)) := by
  induction reads generalizing t with
  | nil => simp [readAll, zonesOf, Setting.readIn]
  | cons read reads ih =>
      obtain ⟨d', zone⟩ := read
      rw [readAll, ih, setting?_dateValue]
      by_cases same : d' = d
      · subst same
        simp [zonesOf, Setting.readIn, Function.comp_def]
      · simp [zonesOf, same, Ne.symm same]

theorem snd_dateValue (t : SectionTree) (dates : DateContext) (d : Declaration) :
    (t.dateValue dates d).2 = (t.setting? d).bind fun s => (s.dateValue dates).2 := by
  unfold dateValue
  cases t.setting? d <;> rfl

theorem dateValue_readAll (unread : t.Unread) (now : WallClock) (reads : List (Declaration × Zone))
    (zone : Zone) (d : Declaration) :
    ((t.readAll now reads).dateValue ⟨now, zone⟩ d).2 =
      t.freshDate? ⟨now, (zonesOf d reads).headD zone⟩ d := by
  rw [snd_dateValue, setting?_readAll, freshDate?]
  cases found : t.setting? d with
  | none => rfl
  | some s => exact Setting.dateValue_readIn (unread d s found) now _ zone

end SectionTree

/-! ## The order of dates -/

theorem SectionTree.readAll_congr {α : Type} (f : SectionTree → α)
    (undated : ∀ t, f t.undated = f t) (t : SectionTree) (now : WallClock)
    (reads : List (Declaration × Zone)) :
    f (t.readAll now reads) = f t := by
  rw [← undated, undated_readAll, undated]

theorem RuleContext.zoneAt_undated (ctx : RuleContext) (t : SectionTree) (id : Nat) :
    ctx.zoneAt t.undated id = ctx.zoneAt t id := by
  unfold zoneAt
  rw [SectionTree.find?_undated]
  cases t.find? id "timezone" <;> rfl

namespace Rule

def comparedAt? (t : SectionTree) (id : Nat) (earlier later : String) :
    Option (Declaration × Declaration) :=
  if t.declaresAt earlier id || t.declaresAt later id then
    match t.locate? id earlier, t.locate? id later with
    | some first, some second => some (first, second)
    | _, _ => none
  else none

def orderReport (earlier later : String) (start stop : Option Instant) (s : Option Setting) :
    List Diagnostic :=
  match start, stop, s with
  | some start, some stop, some s =>
    if start.utc < stop.utc then [] else [.ofProblem (.dateOrder earlier later) s.name]
  | _, _, _ => []

def orderReports (t : SectionTree) (id : Nat) (earlier later : String)
    (date? : Declaration → Option Instant) : List Diagnostic :=
  (comparedAt? t id earlier later).elim [] fun (first, second) =>
    orderReport earlier later (date? first) (date? second) (t.setting? second)

def orderReads (ctx : RuleContext) (t : SectionTree) (id : Nat) (earlier later : String) :
    List (Declaration × Zone) :=
  (comparedAt? t id earlier later).elim [] fun (first, second) =>
    [(first, ctx.zoneAt t id), (second, ctx.zoneAt t id)]

theorem checkOrder_eq (ctx : RuleContext) (t : SectionTree) (id : Nat) (earlier later : String) :
    checkOrder ctx t id earlier later =
      (comparedAt? t id earlier later).elim (t, []) fun (first, second) =>
        let dates : DateContext := ⟨ctx.now, ctx.zoneAt t id⟩
        let start := t.dateValue dates first
        let stop := start.1.dateValue dates second
        (stop.1, orderReport earlier later start.2 stop.2 (stop.1.setting? second)) := by
  unfold checkOrder comparedAt?
  split
  · cases t.locate? id earlier with
    | none => rfl
    | some first =>
        cases t.locate? id later with
        | none => rfl
        | some second =>
            dsimp only [Option.elim_some]
            generalize SectionTree.dateValue _ _ second = stop
            generalize (t.dateValue _ first).2 = start
            obtain ⟨t', stop⟩ := stop
            cases start <;> cases stop <;> cases t'.setting? second <;> try rfl
            dsimp only [orderReport]
            split <;> rfl
  · rfl

theorem checkOrder_tree (ctx : RuleContext) (t : SectionTree) (id : Nat) (earlier later : String) :
    (checkOrder ctx t id earlier later).1 =
      t.readAll ctx.now (orderReads ctx t id earlier later) := by
  rw [checkOrder_eq, orderReads]
  cases comparedAt? t id earlier later <;> rfl

theorem comparedAt?_undated (t : SectionTree) (id : Nat) (earlier later : String) :
    comparedAt? t.undated id earlier later = comparedAt? t id earlier later := by
  simp only [comparedAt?, SectionTree.declaresAt_undated, SectionTree.locate?_undated]

theorem orderReads_undated (ctx : RuleContext) (t : SectionTree) (id : Nat)
    (earlier later : String) :
    orderReads ctx t.undated id earlier later = orderReads ctx t id earlier later := by
  simp only [orderReads, comparedAt?_undated, RuleContext.zoneAt_undated]

theorem orderReport_undated (earlier later : String) (start stop : Option Instant)
    (s : Option Setting) :
    orderReport earlier later start stop (s.map Setting.undated) =
      orderReport earlier later start stop s := by
  cases start <;> cases stop <;> cases s <;> rfl

theorem checkOrder_readAll (ctx : RuleContext) {t : SectionTree} (unread : t.Unread)
    (reads : List (Declaration × Zone)) (id : Nat) (earlier later : String) :
    (checkOrder ctx (t.readAll ctx.now reads) id earlier later).2 =
      orderReports t id earlier later fun d =>
        t.freshDate? ⟨ctx.now, (zonesOf d reads).headD (ctx.zoneAt t id)⟩ d := by
  have zone : ctx.zoneAt (t.readAll ctx.now reads) id = ctx.zoneAt t id :=
    SectionTree.readAll_congr (ctx.zoneAt · id) (ctx.zoneAt_undated · id) t ctx.now reads
  have compared : comparedAt? (t.readAll ctx.now reads) id earlier later =
      comparedAt? t id earlier later :=
    SectionTree.readAll_congr (comparedAt? · id earlier later)
      (comparedAt?_undated · id earlier later)
      t ctx.now reads
  rw [checkOrder_eq, orderReports, compared, zone]
  cases comparedAt? t id earlier later with
  | none => rfl
  | some places =>
      obtain ⟨first, second⟩ := places
      dsimp only [Option.elim_some]
      -- the second date is read after the first, in the same zone
      have after : ((t.readAll ctx.now reads).dateValue ⟨ctx.now, ctx.zoneAt t id⟩ first).1 =
          t.readAll ctx.now (reads ++ [(first, ctx.zoneAt t id)]) := by
        rw [SectionTree.readAll_append]
        rfl
      have default :
          (zonesOf second (reads ++ [(first, ctx.zoneAt t id)])).headD (ctx.zoneAt t id) =
          (zonesOf second reads).headD (ctx.zoneAt t id) := by
        unfold zonesOf
        rw [List.filterMap_append]
        cases reads.filterMap _ with
        | cons zone zones => rfl
        | nil => by_cases same : first = second <;> simp [same]
      rw [after, SectionTree.dateValue_readAll unread, SectionTree.dateValue_readAll unread,
        default]
      rw [← orderReport_undated, ← orderReport_undated _ _ _ _ (t.setting? second),
        ← SectionTree.setting?_undated, ← SectionTree.setting?_undated,
        SectionTree.undated_dateValue, SectionTree.undated_readAll]

/-! ## Runs of the rules -/

def checkReads (ctx : RuleContext) (t : SectionTree) (id : Nat) :
    RuleCheck → List (Declaration × Zone)
  | .order earlier later => orderReads ctx t id earlier later
  | _ => []

def readsAt (ctx : RuleContext) (t : SectionTree) (id : Nat) (rules : List Rule) :
    List (Declaration × Zone) :=
  rules.flatMap fun rule =>
    if (t.node? id).any fun n => rule.kinds.contains n.kind then checkReads ctx t id rule.check
    else []

def reads (ctx : RuleContext) (rules : List Rule) (t : SectionTree) (ids : List Nat) :
    List (Declaration × Zone) :=
  ids.flatMap fun id => readsAt ctx t id rules

theorem readsAt_undated (ctx : RuleContext) (id : Nat) (rules : List Rule) (t : SectionTree) :
    readsAt ctx t.undated id rules = readsAt ctx t id rules := by
  have check (c : RuleCheck) : checkReads ctx t.undated id c = checkReads ctx t id c := by
    cases c <;> first | rfl | exact orderReads_undated ctx t id _ _
  simp only [readsAt, check, SectionTree.node?_undated, Option.any_map]
  rfl

theorem runCheck_tree (ctx : RuleContext) (t : SectionTree) (id : Nat) (c : RuleCheck) :
    (runCheck ctx t id c).1 = t.readAll ctx.now (checkReads ctx t id c) := by
  cases c with
  | order earlier later => exact checkOrder_tree ctx t id earlier later
  | _ => rfl

theorem runAt_tree (ctx : RuleContext) (id : Nat) (rules : List Rule) (t : SectionTree) :
    (runAt ctx id rules t).1 = t.readAll ctx.now (readsAt ctx t id rules) := by
  induction rules generalizing t with
  | nil => rfl
  | cons rule rules ih =>
      have later (reads : List (Declaration × Zone)) :
          readsAt ctx (t.readAll ctx.now reads) id rules = readsAt ctx t id rules :=
        SectionTree.readAll_congr (readsAt ctx · id rules)
          (readsAt_undated ctx id rules) t ctx.now reads
      rw [runAt, readsAt, List.flatMap_cons, SectionTree.readAll_append]
      show (runAt ctx id rules _).1 = _
      rw [ih]
      split
      · rw [runCheck_tree, later]; rfl
      · rfl

theorem runAll_tree (ctx : RuleContext) (rules : List Rule) (ids : List Nat) (t : SectionTree) :
    (runAll ctx rules ids t).1 = t.readAll ctx.now (reads ctx rules t ids) := by
  induction ids generalizing t with
  | nil => rfl
  | cons id ids ih =>
      have later : reads ctx rules (t.readAll ctx.now (readsAt ctx t id rules)) ids =
          reads ctx rules t ids := by
        apply congrArg (ids.flatMap ·)
        funext id'
        exact SectionTree.readAll_congr (readsAt ctx · id' rules) (readsAt_undated ctx id' rules) t
          ctx.now _
      rw [reads, List.flatMap_cons, SectionTree.readAll_append]
      show (runAll ctx rules ids (runAt ctx id rules t).1).1 = _
      rw [ih, runAt_tree, later]
      rfl

theorem zone_of_mem_reads {ctx : RuleContext} {rules : List Rule} {t : SectionTree} {ids : List Nat}
    {read : Declaration × Zone} (member : read ∈ reads ctx rules t ids) :
    ∃ id ∈ ids, read.2 = ctx.zoneAt t id := by
  have compared {id : Nat} {c : RuleCheck} (member : read ∈ checkReads ctx t id c) :
      read.2 = ctx.zoneAt t id := by
    cases c with
    | order earlier later =>
        simp only [checkReads, orderReads] at member
        cases found : comparedAt? t id earlier later with
        | none => simp [found] at member
        | some places =>
            rw [found] at member
            rcases List.mem_pair.mp member with rfl | rfl <;> rfl
    | _ => cases member
  obtain ⟨id, within, member⟩ := List.mem_flatMap.mp member
  obtain ⟨rule, -, member⟩ := List.mem_flatMap.mp member
  split at member
  · exact ⟨id, within, compared member⟩
  · cases member

theorem headD_zonesOf (d : Declaration) (reads : List (Declaration × Zone)) (zone : Zone) :
    (zonesOf d reads).headD zone = zone ∨ (d, (zonesOf d reads).headD zone) ∈ reads := by
  cases zones : zonesOf d reads with
  | nil => exact .inl rfl
  | cons first rest =>
      right
      have member : first ∈ zonesOf d reads := by simp [zones]
      obtain ⟨read, within, here⟩ := List.mem_filterMap.mp member
      obtain ⟨rfl, rfl⟩ : read.1 = d ∧ read.2 = first := by simpa using here
      exact within

theorem checkOrder_runAll (ctx : RuleContext) {t : SectionTree} (unread : t.Unread)
    (rules : List Rule) (ids : List Nat) (id : Nat) (earlier later : String) :
    (checkOrder ctx (runAll ctx rules ids t).1 id earlier later).2 =
      orderReports t id earlier later fun d =>
        t.freshDate? ⟨ctx.now, (zonesOf d (reads ctx rules t ids)).headD (ctx.zoneAt t id)⟩ d := by
  rw [runAll_tree]
  exact checkOrder_readAll ctx unread _ id earlier later

/-- The sections that the rules have visited before do not matter if the two dates are the same in
their zones and in that of the section. -/
theorem checkOrder_runAll_eq (ctx : RuleContext) {t : SectionTree} (unread : t.Unread)
    (rules : List Rule) {ids : List Nat} {id : Nat} {earlier later : String}
    (same : ∀ first second, comparedAt? t id earlier later = some (first, second) →
      ∀ other ∈ ids, ∀ d, d = first ∨ d = second →
        t.freshDate? ⟨ctx.now, ctx.zoneAt t other⟩ d = t.freshDate? ⟨ctx.now, ctx.zoneAt t id⟩ d) :
    (checkOrder ctx (runAll ctx rules ids t).1 id earlier later).2 =
      (checkOrder ctx t id earlier later).2 := by
  have alone := checkOrder_readAll ctx unread [] id earlier later
  rw [SectionTree.readAll] at alone
  rw [checkOrder_runAll ctx unread, alone, orderReports, orderReports]
  cases compared : comparedAt? t id earlier later with
  | none => rfl
  | some places =>
      obtain ⟨first, second⟩ := places
      have value (d : Declaration) (within : d = first ∨ d = second) :
          t.freshDate? ⟨ctx.now, (zonesOf d (reads ctx rules t ids)).headD (ctx.zoneAt t id)⟩ d =
            t.freshDate? ⟨ctx.now, ctx.zoneAt t id⟩ d := by
        rcases headD_zonesOf d (reads ctx rules t ids) (ctx.zoneAt t id) with own | read
        · rw [own]
        · obtain ⟨other, visited, zone⟩ := zone_of_mem_reads read
          dsimp only at zone
          rw [zone]
          exact same first second compared other visited d within
      show orderReport _ _ _ _ _ = orderReport _ _ _ _ _
      rw [value first (.inl rfl), value second (.inr rfl)]
      rfl

end Rule
end ChartLint
