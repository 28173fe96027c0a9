import ChartLint.Proofs.Text.Case
import ChartLint.Time.Expression.Cache

/-!
# What a cache gives

A cache reads the normal form of a text in place of the text, and an error quotes what was read.
Both make no difference: a text and its normal form are read alike (`DateExpression.parse_normal`),
and every entry is what its key is read as (`ExpressionCache.Faithful`), whatever has been asked
before.
-/

namespace ChartLint

namespace Text

def SameWords (cs ds : List Char) : Prop :=
  ∃ lead core trail lead' core' trail', cs = lead ++ core ++ trail ∧ ds = lead' ++ core' ++ trail' ∧
    (∀ c ∈ lead ++ trail, isBlank c = true) ∧ (∀ c ∈ lead' ++ trail', isBlank c = true) ∧
    lower core = lower core'

theorem trim_around {lead trail : List Char} (blank : ∀ c ∈ lead ++ trail, isBlank c = true)
    (core : List Char) : trim (lead ++ core ++ trail) = trim core := by
  obtain ⟨before, after⟩ := List.forall_mem_append.mp blank
  have split : lead ++ core ++ trail = (lead ++ core.takeWhile isBlank) ++ trim core ++
      ((core.dropWhile isBlank).rtakeWhile isBlank ++ trail) := by
    conv => lhs; rw [trim_split core]
    simp only [List.append_assoc]
  rw [split]
  apply trim_of_split
  · exact List.forall_mem_append.mpr ⟨before, fun c member => List.mem_takeWhile_imp member⟩
  · exact solid_trim core
  · exact List.forall_mem_append.mpr ⟨fun c member => List.mem_rtakeWhile_imp member, after⟩

theorem trim_trim (cs : List Char) : trim (trim cs) = trim cs := by
  simpa using @trim_of_split [] (trim cs) [] (by simp) (solid_trim cs) (by simp)

theorem SameWords.lower_trim {cs ds : List Char} (same : SameWords cs ds) :
    lower (trim cs) = lower (trim ds) := by
  obtain ⟨lead, core, trail, lead', core', trail', rfl, rfl, blank, blank', lowered⟩ := same
  rw [trim_around blank, trim_around blank', ← trim_lower, ← trim_lower, lowered]

end Text

namespace DateExpression

theorem normal_normal (text : String) : normal (normal text) = normal text := by
  rw [normal, normal, String.toList_ofList, Text.trim_lower, Text.trim_trim, Text.lower_lower]

theorem parse_normal (text : String) : parse (normal text) = parse text := by
  rw [parse, parse, normal_normal]

theorem normal_eq {text text' : String} (same : Text.SameWords text.toList text'.toList) :
    normal text = normal text' := by
  rw [normal, normal, same.lower_trim]

end DateExpression

namespace ExpressionCache

variable {cache : ExpressionCache}

def after (cache : ExpressionCache) : List String → ExpressionCache
  | [] => cache
  | text :: texts => (cache.parse text).2.after texts

/-- Every entry is what its key is read as, failures included. -/
def Faithful (cache : ExpressionCache) : Prop :=
  ∀ key known, cache.entries.lookup key = some known → known = DateExpression.parse key

theorem faithful_empty : empty.Faithful := by
  intro key known found
  cases found

theorem Faithful.parse (faithful : cache.Faithful) (text : String) :
    (cache.parse text).1 = DateExpression.parse text := by
  rw [← DateExpression.parse_normal, ExpressionCache.parse]
  cases found : cache.entries.lookup (DateExpression.normal text) with
  | none => rfl
  | some known => exact faithful _ known found

theorem Faithful.parse_snd (faithful : cache.Faithful) (text : String) :
    (cache.parse text).2.Faithful := by
  rw [ExpressionCache.parse]
  cases cache.entries.lookup (DateExpression.normal text) with
  | some known => exact faithful
  | none =>
      intro key known found
      dsimp only at found
      rw [List.lookup_cons] at found
      split at found
      · rename_i same
        rw [beq_iff_eq.mp same]
        exact (Option.some.inj found).symm
      · exact faithful key known found

theorem Faithful.after (faithful : cache.Faithful) (texts : List String) :
    (cache.after texts).Faithful := by
  induction texts generalizing cache with
  | nil => exact faithful
  | cons text texts ih => exact ih (faithful.parse_snd text)

/-- After any calls a text gets what reading it gives, result or error, and so do all texts with the
same words, whatever calls they come after. -/
theorem parse_after (history : List String) (text : String) :
    ((empty.after history).parse text).1 = DateExpression.parse text ∧
      ∀ history' text', Text.SameWords text.toList text'.toList →
        ((empty.after history').parse text').1 = ((empty.after history).parse text).1 := by
  have fresh (history : List String) (text : String) :
      ((empty.after history).parse text).1 = DateExpression.parse text :=
    (faithful_empty.after history).parse text
  refine ⟨fresh history text, ?_⟩
  intro history' text' same
  rw [fresh, fresh, ← DateExpression.parse_normal text', ← DateExpression.normal_eq same,
    DateExpression.parse_normal]

/-- A failure is remembered under one entry for all spellings. -/
theorem parse_after_failure :
    ((empty.after ["someday"]).parse " SomeDay\t").1 = DateExpression.parse " SomeDay\t" ∧
      ((empty.after []).parse "someday").1 = ((empty.after ["someday"]).parse " SomeDay\t").1 := by
  have blank : ∀ c ∈ [' ', '\t'], Text.isBlank c = true :=
    List.forall_mem_cons.mpr ⟨rfl, List.forall_mem_singleton.mpr rfl⟩
  have same : Text.SameWords " SomeDay\t".toList "someday".toList :=
    ⟨[' '], "SomeDay".toList, ['\t'], [], "someday".toList, [], by decide, by decide, blank,
      List.forall_mem_nil _, by decide⟩
  have answers := parse_after ["someday"] " SomeDay\t"
  exact ⟨answers.1, answers.2 [] "someday" same⟩

end ExpressionCache
end ChartLint
