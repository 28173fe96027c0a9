import ChartLint.Json.Number
import ChartLint.Json.Value

/-!
# Reading JSON texts

A recursive descent over the characters of a text. The faults are those of the first place where
the text cannot go on.
-/

namespace ChartLint.JsonValue

open Text JsonNumber

def isGap (c : Char) : Bool :=
  c == ' ' || c == '\t' || c == '\n' || c == '\r'

def skip (cs : List Char) : List Char :=
  cs.dropWhile isGap

def maxDepth : Nat := 127

def hexDigit? (c : Char) : Option Nat :=
  if c.isDigit then some (c.toNat - '0'.toNat)
  else if 'a' ≤ c ∧ c ≤ 'f' then some (c.toNat - 'a'.toNat + 10)
  else if 'A' ≤ c ∧ c ≤ 'F' then some (c.toNat - 'A'.toNat + 10)
  else none

/-- The number that four hexadecimal digits stand for. Four bytes are looked at together. -/
def readUnit (cs : List Char) : Except Stop Nat :=
  if byteLength cs < 4 then .error ⟨.endInString, 0⟩
  else
    match (cs.take 4).mapM hexDigit? with
    | some digits => .ok (digits.foldl (fun n d => n * 16 + d) 0)
    | none => .error ⟨.invalidEscape, byteLength cs - 4⟩

def isLeading (unit : Nat) : Bool :=
  0xd800 ≤ unit && unit < 0xdc00

def isTrailing (unit : Nat) : Bool :=
  0xdc00 ≤ unit && unit < 0xe000

def readUnicode (cs : List Char) : Except Stop (Char × Nat) := do
  let unit ← readUnit cs
  let rest := cs.drop 4
  if isTrailing unit then before .loneSurrogate rest
  else if isLeading unit then
    match rest with
    | '\\' :: 'u' :: second =>
      let low ← readUnit second
      if isTrailing low then
        return (Char.ofNat (0x10000 + (unit - 0xd800) * 0x400 + (low - 0xdc00)), 10)
      else before .loneSurrogate (second.drop 4)
    | '\\' :: other => atNextOr .cutSurrogate .endInString other
    | other => atNextOr .cutSurrogate .endInString other
  else return (Char.ofNat unit, 4)

def readEscape : List Char → Except Stop (Char × Nat)
  | '\x22' :: _ => .ok ('\x22', 1)
  | '\\' :: _ => .ok ('\\', 1)
  | '/' :: _ => .ok ('/', 1)
  | 'b' :: _ => .ok ('\x08', 1)
  | 'f' :: _ => .ok ('\x0c', 1)
  | 'n' :: _ => .ok ('\n', 1)
  | 'r' :: _ => .ok ('\r', 1)
  | 't' :: _ => .ok ('\t', 1)
  | 'u' :: rest => (readUnicode rest).map fun (c, n) => (c, n + 1)
  | cs => atNextOr .invalidEscape .endInString cs

def readString (cs : List Char) : Except Stop (List Char × List Char) :=
  match cs with
  | [] => atNext .endInString []
  | '\x22' :: rest => .ok ([], rest)
  | '\\' :: rest =>
    match readEscape rest with
    | .error stop => .error stop
    | .ok (c, n) => (readString (rest.drop n)).map fun (text, after) => (c :: text, after)
  | c :: rest =>
    if c.toNat < 0x20 then atNext .controlCharacter cs
    else (readString rest).map fun (text, after) => (c :: text, after)
termination_by cs.length
decreasing_by all_goals simp only [List.length_drop, List.length_cons]; omega

def readWord (value : JsonValue) : List Char → List Char → Except Stop (JsonValue × List Char)
  | [], cs => .ok (value, cs)
  | w :: word, c :: cs => if c = w then readWord value word cs else atNext .expectedIdent (c :: cs)
  | _ :: _, [] => atNext .endInValue []

mutual

/-- Reads a value. The first argument bounds the steps, the second the depth. -/
def readValue (fuel depth : Nat) (cs : List Char) : Except Stop (JsonValue × List Char) :=
  match fuel, skip cs with
  | fuel + 1, '[' :: rest =>
    match depth with
    | 0 => atNext .tooDeep ('[' :: rest)
    | depth + 1 =>
      match skip rest with
      | [] => atNext .endInList []
      | ']' :: rest => .ok (.array [], rest)
      | rest => (readItems fuel depth rest).map fun (items, after) => (.array items, after)
  | fuel + 1, '\x7b' :: rest =>
    match depth with
    | 0 => atNext .tooDeep ('\x7b' :: rest)
    | depth + 1 =>
      match skip rest with
      | [] => atNext .endInObject []
      | '\x7d' :: rest => .ok (.object [], rest)
      | rest => (readMembers fuel depth rest).map fun (members, after) => (.object members, after)
  | _, '\x22' :: rest =>
    (readString rest).map fun (text, after) => (.string (String.ofList text), after)
  | _, 'n' :: rest => readWord .null "ull".toList rest
  | _, 't' :: rest => readWord (.bool true) "rue".toList rest
  | _, 'f' :: rest => readWord (.bool false) "alse".toList rest
  | _, c :: rest =>
    if c = '-' ∨ c.isDigit then
      (JsonNumber.read (c :: rest)).map fun (x, after) => (.number x, after)
    else atNext .expectedValue (c :: rest)
  | _, [] => atNext .endInValue []

def readItems (fuel depth : Nat) (cs : List Char) : Except Stop (List JsonValue × List Char) :=
  match fuel with
  | 0 => atNext .expectedValue cs
  | fuel + 1 => do
    let (item, after) ← readValue fuel depth cs
    match skip after with
    | [] => atNext .endInList []
    | ']' :: rest => return ([item], rest)
    | ',' :: rest =>
      match skip rest with
      | [] => atNext .endInValue []
      | ']' :: rest => atNext .trailingComma (']' :: rest)
      | rest =>
        let (items, after) ← readItems fuel depth rest
        return (item :: items, after)
    | rest => atNext .expectedListComma rest

def readMembers (fuel depth : Nat) (cs : List Char) : Except Stop (Members × List Char) :=
  match fuel, cs with
  | fuel + 1, '\x22' :: rest => do
    let (key, after) ← readString rest
    match skip after with
    | ':' :: rest =>
      let (value, after) ← readValue fuel depth rest
      let member := (String.ofList key, value)
      match skip after with
      | [] => atNext .endInObject []
      | '\x7d' :: rest => return ([member], rest)
      | ',' :: rest =>
        match skip rest with
        | [] => atNext .endInValue []
        | '\x7d' :: rest => atNext .trailingComma ('\x7d' :: rest)
        | rest =>
          let (members, after) ← readMembers fuel depth rest
          return (member :: members, after)
      | rest => atNext .expectedObjectComma rest
    | rest => atNextOr .expectedColon .endInObject rest
  | _, cs => atNext .keyNotString cs

end

def place (line column : Nat) : Nat → List Char → Nat × Nat
  | 0, _ | _, [] => (line, column)
  | n + 1, c :: cs =>
    if c = '\n' then place (line + 1) 0 n cs
    else place line (column + min c.utf8Size (n + 1)) (n + 1 - c.utf8Size) cs

def readAll (cs : List Char) : Except Stop JsonValue := do
  let (value, after) ← readValue (2 * cs.length + 2) maxDepth cs
  match skip after with
  | [] => return value
  | rest => atNext .trailingCharacters rest

def parse (text : String) : Except JsonError JsonValue :=
  let cs := text.toList
  match readAll cs with
  | .ok value => .ok value
  | .error stop =>
    let (line, column) := place 1 0 (byteLength cs - stop.unread) cs
    .error ⟨stop.fault, line, column⟩

end ChartLint.JsonValue
