import ChartLint.Time.Keyword
import ChartLint.Time.Literal
import ChartLint.Time.Token
import ChartLint.Time.ZonedClock

/-!
# Date expressions

A date expression is a calendar keyword or a literal, followed by any number of signed counts of
units: `current_week - 1 day`, `2021-03-28 02:30 + 2 * hours`.
-/

namespace ChartLint

inductive DateBase where
  | keyword (keyword : CalendarKeyword)
  | literal (literal : DateLiteral)
  deriving DecidableEq, Repr

inductive Sign where
  | plus | minus
  deriving DecidableEq, Repr

structure Summand where
  sign : Sign
  count : Float
  unit : TimeUnit

def Summand.signedCount (s : Summand) : Float :=
  match s.sign with
  | .plus => s.count
  | .minus => -s.count

structure DateExpression where
  base : DateBase
  summands : List Summand

namespace DateExpression

/-! ## Reading -/

def readBase : List TimeToken → Except TimeError (DateBase × List TimeToken)
  | [] => .error .empty
  | ⟨.word, word⟩ :: rest =>
    match CalendarKeyword.ofName? word with
    | some keyword => .ok (.keyword keyword, rest)
    | none => .error (.unknownKeyword word)
  | ⟨.date, date⟩ :: ⟨.time, time⟩ :: rest => do
    return (.literal (← DateLiteral.ofDate date (some time)), rest)
  | ⟨.date, date⟩ :: rest => do return (.literal (← DateLiteral.ofDate date none), rest)
  | ⟨.time, time⟩ :: rest => do return (.literal (← DateLiteral.ofTime time), rest)
  | ⟨.number, number⟩ :: rest => do return (.literal (← DateLiteral.ofYear number), rest)
  | ⟨_, text⟩ :: _ => .error (.unexpectedToken text)

def sign? : TimeToken.Kind → Option Sign
  | .plus => some .plus
  | .minus => some .minus
  | _ => none

def readUnit : List TimeToken → Except TimeError (TimeUnit × List TimeToken)
  | [] => .error (.unknownUnit "")
  | ⟨.word, word⟩ :: rest =>
    match TimeUnit.ofName? word.toList with
    | some unit => .ok (unit, rest)
    | none => .error (.unknownUnit word)
  | ⟨_, text⟩ :: _ => .error (.unknownUnit text)

def skipStar : List TimeToken → List TimeToken
  | ⟨.star, _⟩ :: rest => rest
  | tokens => tokens

def readCount (sign : String) : List TimeToken → Except TimeError (Float × List TimeToken)
  | ⟨.number, number⟩ :: rest =>
    match Decimal.read? number with
    | some count => .ok (count, rest)
    | none => .error (.missingCount sign)
  | _ => .error (.missingCount sign)

theorem length_lt_of_readUnit {tokens rest : List TimeToken} {unit : TimeUnit}
    (h : readUnit tokens = .ok (unit, rest)) : rest.length < tokens.length := by
  unfold readUnit at h
  split at h
  · cases h
  · split at h
    · cases h; simp
    · cases h
  · cases h

theorem length_skipStar_le (tokens : List TimeToken) :
    (skipStar tokens).length ≤ tokens.length := by
  unfold skipStar
  split <;> simp

theorem length_lt_of_readCount {sign : String} {tokens rest : List TimeToken} {count : Float}
    (h : readCount sign tokens = .ok (count, rest)) : rest.length < tokens.length := by
  unfold readCount at h
  split at h
  · split at h
    · cases h; simp
    · cases h
  · cases h

def readSummands : List TimeToken → Except TimeError (List Summand)
  | [] => .ok []
  | token :: tokens =>
    match sign? token.kind with
    | none => .error (.unexpectedToken token.text)
    | some sign =>
      match _hc : readCount token.text tokens with
      | .error e => .error e
      | .ok (count, afterCount) =>
        match _hu : readUnit (skipStar afterCount) with
        | .error e => .error e
        | .ok (unit, rest) => (readSummands rest).map (⟨sign, count, unit⟩ :: ·)
termination_by tokens => tokens.length
decreasing_by
  have := length_lt_of_readCount _hc
  have := length_lt_of_readUnit _hu
  have := length_skipStar_le afterCount
  simp only [List.length_cons]
  omega

def normal (text : String) : String :=
  String.ofList (Text.lower (Text.trim text.toList))

def parse (text : String) : Except TimeError DateExpression := do
  let tokens ← TimeToken.tokenize (normal text)
  let (base, rest) ← readBase tokens
  return ⟨base, ← readSummands rest⟩

/-! ## Evaluation -/

def dependsOnNow (e : DateExpression) : Bool :=
  match e.base with
  | .keyword _ => true
  | .literal l => l.date.isNone

def startClock (base : DateBase) (now : WallClock) (zone : Zone) : Except TimeError ZonedClock := do
  let current ← ZonedClock.ofUtc zone now
  match base with
  | .keyword .now => return current
  | .keyword keyword => (current.setWall zone (keyword.resolve current.wall)).toExcept
  | .literal l =>
    let w := l.clock current.wall.date
    match l.offset with
    | some offset => ZonedClock.ofUtc zone (← ZonedClock.moved w (-offset))
    | none => ZonedClock.ofWall zone w

def applySummands (zone : Zone) : ZonedClock → List Summand → Except TimeError ZonedClock
  | z, [] => .ok z
  | z, s :: rest => do applySummands zone (← (z.shift zone s.unit s.signedCount).toExcept) rest

/-- The moment an expression stands for at the UTC time `now`, in a zone. -/
def evaluate (e : DateExpression) (now : WallClock) (zone : Zone) : Except TimeError Instant := do
  let start ← startClock e.base now zone
  (← applySummands zone start e.summands).instant

end DateExpression
end ChartLint
