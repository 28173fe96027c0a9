import ChartLint.Json.Reader

/-!
# Lines of an options file

A file has lines `key = value`. A value is a text in quotes, a truth value, or a list of texts in
brackets, which may go over several lines. A `#` starts a comment, and a byte order mark may stand
in front of the first line.
-/

namespace ChartLint.OptionFile

inductive Value where
  | text (s : String)
  | flag (b : Bool)
  | texts (items : List String)
  deriving DecidableEq, Repr

def isControl (c : Char) : Bool :=
  (c.toNat < 0x20 && c != '\t') || c.toNat == 0x7f

def inKey (c : Char) : Bool :=
  c.isAlphanum || c == '-' || c == '_'

def skipGaps (cs : List Char) : List Char :=
  cs.dropWhile Text.isGap

def charOf? (digits : List Char) : Option Char := do
  let values ← digits.mapM JsonValue.hexDigit?
  let code := values.foldl (fun n d => n * 16 + d) 0
  if code.isValidChar then some (Char.ofNat code) else none

def codeWidth? : Char → Option Nat
  | 'x' => some 2
  | 'u' => some 4
  | 'U' => some 8
  | _ => none

def readEscape? : List Char → Option (Char × Nat)
  | 'b' :: _ => some ('\x08', 1)
  | 't' :: _ => some ('\t', 1)
  | 'n' :: _ => some ('\n', 1)
  | 'f' :: _ => some ('\x0c', 1)
  | 'r' :: _ => some ('\r', 1)
  | 'e' :: _ => some ('\x1b', 1)
  | '\x22' :: _ => some ('\x22', 1)
  | '\\' :: _ => some ('\\', 1)
  | letter :: rest => do
    let width ← codeWidth? letter
    if rest.length < width then none
    else (charOf? (rest.take width)).map fun c => (c, width + 1)
  | [] => none

def readQuoted? (cs : List Char) : Option (List Char × List Char) :=
  match cs with
  | [] => none
  | '\x22' :: rest => some ([], rest)
  | '\\' :: rest =>
    match readEscape? rest with
    | none => none
    | some (c, n) => (readQuoted? (rest.drop n)).map fun (text, after) => (c :: text, after)
  | c :: rest =>
    if isControl c then none else (readQuoted? rest).map fun (text, after) => (c :: text, after)
termination_by cs.length
decreasing_by all_goals simp only [List.length_drop, List.length_cons]; omega

/-- Reads a text in quotes. Between single quotes all characters stand for themselves. -/
def readText? : List Char → Option (String × List Char)
  | '\x22' :: rest => (readQuoted? rest).map fun (text, after) => (String.ofList text, after)
  | '\x27' :: rest => do
    let (text, after) ← Text.splitOnce? '\x27' rest
    if text.any isControl then none else some (String.ofList text, after)
  | _ => none

def dropBreak? : List Char → Option (List Char)
  | '\n' :: rest => some rest
  | '\r' :: '\n' :: rest => some rest
  | _ => none

def skipBreaks : List Char → List Char
  | '\r' :: '\n' :: rest => skipBreaks rest
  | c :: rest => if c = '\n' ∨ Text.isGap c then skipBreaks rest else c :: rest
  | [] => []

theorem length_skipBreaks_le (cs : List Char) : (skipBreaks cs).length ≤ cs.length := by
  fun_induction skipBreaks cs with
  | case1 rest ih => simp only [List.length_cons]; omega
  | case2 c rest _ _ ih => simp only [List.length_cons]; omega
  | case3 => exact Nat.le_refl _
  | case4 => exact Nat.le_refl _

/-- Reads a text that ends with three quotes and may go over several lines. Up to two more quotes
belong to the text. Between double quotes a backslash at the end of a line joins it to the next
character that is no blank. -/
def readBlock? (quote : Char) (cs : List Char) : Option (List Char × List Char) :=
  if cs.take 3 = [quote, quote, quote] then
    let more := ((cs.drop 3).takeWhile (· = quote)).take 2
    some (more, cs.drop (3 + more.length))
  else
    match cs with
    | [] => none
    | '\r' :: '\n' :: rest =>
      (readBlock? quote rest).map fun (text, after) => ('\r' :: '\n' :: text, after)
    | c :: rest =>
      if c = '\\' ∧ quote = '\x22' then
        if (dropBreak? (skipGaps rest)).isSome then readBlock? quote (skipBreaks rest)
        else
          match readEscape? rest with
          | none => none
          | some (e, n) =>
            (readBlock? quote (rest.drop n)).map fun (text, after) => (e :: text, after)
      else if isControl c && c != '\n' then none
      else (readBlock? quote rest).map fun (text, after) => (c :: text, after)
termination_by cs.length
decreasing_by
  all_goals try have := length_skipBreaks_le rest
  all_goals simp only [List.length_drop, List.length_cons]; omega

def readAnyText? (cs : List Char) : Option (String × List Char) :=
  let block (quote : Char) :=
    let body := cs.drop 3
    (readBlock? quote ((dropBreak? body).getD body)).map fun (text, after) =>
      (String.ofList text, after)
  if cs.take 3 = ['\x22', '\x22', '\x22'] then block '\x22'
  else if cs.take 3 = ['\x27', '\x27', '\x27'] then block '\x27'
  else readText? cs

def readKey? (cs : List Char) : Option (String × List Char) :=
  match cs.takeWhile inKey with
  | [] => readText? cs
  | key => some (String.ofList key, cs.dropWhile inKey)

/-- The text after the end of a line, which may hold a comment. A carriage return has to be followed
by a line feed. -/
def endOfLine? (cs : List Char) : Option (List Char) :=
  let rest := match skipGaps cs with
    | '#' :: comment => comment.dropWhile fun c => !isControl c
    | rest => rest
  if rest.isEmpty then some [] else dropBreak? rest

/-- Skips blanks, comments and ends of lines within a list. The first argument bounds the steps. -/
def skipLines? : Nat → List Char → Option (List Char)
  | 0, _ => none
  | fuel + 1, cs =>
    match skipGaps cs with
    | [] => some []
    | c :: rest =>
      if c = '#' ∨ c = '\n' ∨ c = '\r' then (endOfLine? (c :: rest)).bind (skipLines? fuel)
      else some (c :: rest)

def readItems? : Nat → List Char → Option (List String × List Char)
  | 0, _ => none
  | fuel + 1, cs => do
    match ← skipLines? (fuel + 1) cs with
    | ']' :: rest => some ([], rest)
    | cs =>
      let (item, rest) ← readAnyText? cs
      match ← skipLines? (fuel + 1) rest with
      | ']' :: rest => some ([item], rest)
      | ',' :: rest =>
        let (items, rest) ← readItems? fuel rest
        return (item :: items, rest)
      | _ => none

def readValue? (cs : List Char) : Option (Value × List Char) :=
  match cs with
  | '[' :: rest =>
    (readItems? (rest.length + 1) rest).map fun (items, after) => (.texts items, after)
  | cs =>
    match Text.dropLead? "true".toList cs, Text.dropLead? "false".toList cs with
    | some rest, _ => some (.flag true, rest)
    | _, some rest => some (.flag false, rest)
    | none, none => (readAnyText? cs).map fun (text, after) => (.text text, after)

def readEntry? (cs : List Char) : Option ((String × Value) × List Char) := do
  let (key, rest) ← readKey? cs
  let rest ← Text.dropLead? ['='] (skipGaps rest)
  let (value, rest) ← readValue? (skipGaps rest)
  return ((key, value), ← endOfLine? rest)

def readEntries? : Nat → List Char → Option (List (String × Value))
  | 0, _ => none
  | fuel + 1, cs => do
    match ← skipLines? (cs.length + 1) cs with
    | [] => some []
    | cs =>
      let (entry, rest) ← readEntry? cs
      let entries ← readEntries? fuel rest
      return entry :: entries

def skipMark : List Char → List Char
  | '\ufeff' :: rest => rest
  | cs => cs

def parse? (text : String) : Option (List (String × Value)) :=
  let cs := skipMark text.toList
  readEntries? (cs.length + 1) cs

end ChartLint.OptionFile
