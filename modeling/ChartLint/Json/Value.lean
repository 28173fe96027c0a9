/-!
# JSON values

Values and how to take them apart. Every reader of a value gives nothing for a value of another
shape.
-/

namespace ChartLint

/-- A JSON value. An object keeps its members in the order of the text. -/
inductive JsonValue where
  | null
  | bool (b : Bool)
  | number (x : Float)
  | string (s : String)
  | array (items : List JsonValue)
  | object (members : List (String × JsonValue))

namespace JsonValue

abbrev Members := List (String × JsonValue)

def text? : JsonValue → Option String
  | .string s => some s
  | _ => none

def bool? : JsonValue → Option Bool
  | .bool b => some b
  | _ => none

def number? : JsonValue → Option Float
  | .number x => some x
  | _ => none

def list? {α : Type} (item : JsonValue → Option α) : JsonValue → Option (List α)
  | .array items => items.mapM item
  | _ => none

def orNull {α : Type} (value : JsonValue → Option α) : JsonValue → Option (Option α)
  | .null => some none
  | v => (value v).map some

def distinctKeys (members : Members) : Bool :=
  (members.map Prod.fst).eraseDups.length == members.length

/-- The members of an object that has no key twice and none but the given ones. In place of the
object there may be an array of the values, in the order of the keys; those at the end may be left
out. -/
def record? (keys : List String) : JsonValue → Option Members
  | .object members =>
    if members.all (fun m => keys.contains m.1) && distinctKeys members then some members else none
  | .array items => if items.length ≤ keys.length then some (keys.zip items) else none
  | _ => none

/-- Enters a value under a key. A key that is there already keeps its place. -/
def insert {α : Type} (key : String) (value : α) : List (String × α) → List (String × α)
  | [] => [(key, value)]
  | (k, v) :: rest => if k = key then (k, value) :: rest else (k, v) :: insert key value rest

/-- An object whose members are all of one shape. The last of several members with one key counts,
at the place of the first. -/
def entries? {α : Type} (value : JsonValue → Option α) : JsonValue → Option (List (String × α))
  | .object members => do
    let entries ← members.mapM fun m => (value m.2).map fun v => (m.1, v)
    return entries.foldl (fun all entry => insert entry.1 entry.2 all) []
  | _ => none

namespace Members

def required {α : Type} (members : Members) (key : String) (value : JsonValue → Option α) :
    Option α :=
  (members.lookup key).bind value

def optional {α : Type} (members : Members) (key : String) (missing : α)
    (value : JsonValue → Option α) : Option α :=
  match members.lookup key with
  | none => some missing
  | some v => value v

end Members
end JsonValue
end ChartLint
