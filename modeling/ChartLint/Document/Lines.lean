import ChartLint.Document.Comment

/-!
# The lines of a document

A document is read line by line, with comments blanked, letters lowered and a carriage return at
the end of a line dropped. No character moves: columns of a line are columns of the document.
-/

namespace ChartLint.Document

def dropReturn (line : List Char) : List Char :=
  (Text.dropLast? '\r' line).getD line

def charLines (text : List Char) : List (List Char) :=
  (Text.splitOn '\n' (Comment.blank .start text)).map fun line => Text.lower (dropReturn line)

/-- The normalized lines of a document. Even an empty document has one line. -/
def lines (text : String) : List String :=
  (charLines text.toList).map String.ofList

end ChartLint.Document
