/-!
# The first of each key
-/

namespace ChartLint

/-- The items whose keys have not been seen. A key that comes up has been seen from then on, so only
the first item of each key is kept. -/
def firstOfKeys {α κ : Type} [DecidableEq κ] (key : α → κ) (seen : List κ) : List α → List α
  | [] => []
  | a :: rest =>
    if key a ∈ seen then firstOfKeys key seen rest else a :: firstOfKeys key (key a :: seen) rest

end ChartLint
