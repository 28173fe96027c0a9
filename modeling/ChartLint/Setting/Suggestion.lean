import ChartLint.Catalog.Basic
import ChartLint.Firsts
import ChartLint.Text.Similarity

/-!
# Suggestions for unknown names

Names are compared by their keys, with the name and with the display name of a setting. A name of
several words that are those of the setting in another order is a near hit. The best three are
suggested.
-/

namespace ChartLint.Suggestion

open Text

def limit : Nat := 3

/-- The score of a name with the same words in another order. -/
def reordered : Float := 0.99

def sortedWords (name : String) : List String :=
  let separated := name.toList.map fun c => if c.isAlpha then c.toLower else ' '
  ((words separated).map String.ofList).mergeSort fun a b => !(b < a)

def score (key : List Char) (asked : List String) (spelling : String) : Float :=
  if 1 < asked.length ∧ sortedWords spelling = asked then reordered
  else similarity key (settingKey spelling).toList

/-- A place for each float on a line, in the order of the floats. -/
def scoreKey (x : Float) : Int :=
  let bits := x.toBits.toNat
  if bits < Nat.pow 2 63 then bits else (Nat.pow 2 63 : Int) - 1 - bits

structure Candidate where
  score : Float
  distance : Nat
  name : String

def Candidate.precedes (a b : Candidate) : Bool :=
  if scoreKey a.score ≠ scoreKey b.score then scoreKey b.score < scoreKey a.score
  else if a.distance ≠ b.distance then a.distance < b.distance
  else !(b.name < a.name)

def threshold (key : List Char) : Float :=
  if key.length < 5 then 0.9 else 0.8

def better (x y : Float) : Float :=
  if x < y then y else x

def fit (key : List Char) (asked : List String) (d : Descriptor) : Float :=
  better (better 0 (score key asked d.name)) (score key asked d.displayName)

def candidate? (key : List Char) (asked : List String) (d : Descriptor) : Option Candidate :=
  let own := (settingKey d.name).toList
  let best := fit key asked d
  if own ≠ key ∧ threshold key ≤ best then some ⟨best, editDistance key own, d.name⟩ else none

def closest (query : String) (descriptors : List Descriptor) : List String :=
  let key := (settingKey query).toList
  if key.length < 3 then []
  else
    let distinct := firstOfKeys (fun d => settingKey d.name) [] descriptors
    let found := distinct.filterMap (candidate? key (sortedWords query))
    ((found.mergeSort Candidate.precedes).take limit).map Candidate.name

def render : List String → String
  | [] => ""
  | [a] => s!"'{a}'"
  | [a, b] => s!"'{a}' or '{b}'"
  | a :: b :: c :: _ => s!"'{a}', '{b}', or '{c}'"

end ChartLint.Suggestion
