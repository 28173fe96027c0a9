import ChartLint.Text.Blank

/-!
# Texts

Measuring, cutting and comparing texts. A text that is being taken apart is a list of characters.
Columns are counted in UTF-8 bytes, and letter case is a matter of the ASCII letters only.
-/

namespace ChartLint.Text

def byteLength : List Char → Nat
  | [] => 0
  | c :: cs => c.utf8Size + byteLength cs

@[simp] theorem byteLength_nil : byteLength [] = 0 := rfl

@[simp] theorem byteLength_cons (c : Char) (cs : List Char) :
    byteLength (c :: cs) = c.utf8Size + byteLength cs := rfl

@[simp] theorem byteLength_append (as bs : List Char) :
    byteLength (as ++ bs) = byteLength as + byteLength bs := by
  induction as with
  | nil => simp
  | cons a as ih => simp [ih, Nat.add_assoc]

def lower (cs : List Char) : List Char :=
  cs.map Char.toLower

def lowered (s : String) : String :=
  String.ofList (lower s.toList)

def sameIgnoringCase (a b : String) : Bool :=
  lower a.toList == lower b.toList

def splitOn (sep : Char) : List Char → List (List Char)
  | [] => [[]]
  | c :: cs =>
    if c = sep then [] :: splitOn sep cs
    else
      match splitOn sep cs with
      | [] => [[c]]
      | piece :: pieces => (c :: piece) :: pieces

def splitOnce? (sep : Char) : List Char → Option (List Char × List Char)
  | [] => none
  | c :: cs =>
    if c = sep then some ([], cs)
    else (splitOnce? sep cs).map fun (before, after) => (c :: before, after)

def dropLead? : List Char → List Char → Option (List Char)
  | [], cs => some cs
  | _ :: _, [] => none
  | a :: as, c :: cs => if a = c then dropLead? as cs else none

def dropLast? (last : Char) (cs : List Char) : Option (List Char) :=
  if cs.getLast? = some last then some cs.dropLast else none

def endsWith (cs : List Char) (last : Char) : Bool :=
  cs.getLast? == some last

def contains (piece : List Char) : List Char → Bool
  | [] => piece.isEmpty
  | c :: cs => (dropLead? piece (c :: cs)).isSome || contains piece cs

def joined (sep : String) (parts : List String) : String :=
  String.intercalate sep parts

end ChartLint.Text
