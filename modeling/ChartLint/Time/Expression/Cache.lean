import ChartLint.Time.Expression.Basic

/-!
# Remembered expressions

Reading the same expression again can be saved by remembering what was read. Texts that differ only
in letter case or outer blanks share one entry.
-/

namespace ChartLint

structure ExpressionCache where
  entries : List (String × Except TimeError DateExpression)

namespace ExpressionCache

def empty : ExpressionCache := ⟨[]⟩

def parse (cache : ExpressionCache) (text : String) :
    Except TimeError DateExpression × ExpressionCache :=
  let key := DateExpression.normal text
  match cache.entries.lookup key with
  | some known => (known, cache)
  | none =>
    let parsed := DateExpression.parse key
    (parsed, ⟨(key, parsed) :: cache.entries⟩)

end ExpressionCache
end ChartLint
