import ChartLint.Text.Basic

/-!
# Places in a document

Lines and columns count from zero; a column is a byte offset into its line.
-/

namespace ChartLint

structure Position where
  line : Nat
  column : Nat
  deriving DecidableEq, Repr

structure Range where
  start : Position
  stop : Position
  deriving DecidableEq, Repr

def Range.onLine (line start stop : Nat) : Range :=
  ⟨⟨line, start⟩, ⟨line, stop⟩⟩

def Range.render (r : Range) : String :=
  s!"{r.start.line}:{r.start.column}..{r.stop.line}:{r.stop.column}"

structure Span where
  text : String
  line : Nat
  start : Nat
  stop : Nat
  deriving DecidableEq, Repr

def Span.place (text : List Char) (line start : Nat) : Span :=
  ⟨String.ofList text, line, start, start + Text.byteLength text⟩

def Span.range (s : Span) : Range :=
  .onLine s.line s.start s.stop

def Span.trimmed (text : List Char) (line start : Nat) : Span :=
  .place (Text.trim text) line (start + Text.byteLength (text.takeWhile Text.isBlank))

end ChartLint
