import TypedSettings.Text.Json

/-!
Shapes of values that are stored as text. Reading a text by a schema gives the value in its normal
form: members in order, defaults filled in, nothing that the schema does not name.
-/

namespace TypedSettings

open TypedSettings.Text

/-- The shape of a value. -/
inductive Schema where
  | bool
  /-- a whole number between two bounds -/
  | whole (low high : Int)
  | text
  | list (element : Schema)
  /-- a value or nothing -/
  | optional (value : Schema)
  /-- values under texts, in the order of texts -/
  | dictionary (value : Schema)
  /-- named fields, some with defaults; also written as the list of its fields -/
  | record (fields : List (String × Schema × Option JsonValue))

namespace Schema

/-- Adds a member at the place of its key; the last one with a key holds. -/
def putMember (key : String) (v : JsonValue) :
    List (Option String × JsonValue) → List (Option String × JsonValue)
  | [] => [(some key, v)]
  | (k, w) :: rest =>
    match k with
    | some k' =>
      if key = k' then (k, v) :: rest
      else if key < k' then (some key, v) :: (k, w) :: rest
      else (k, w) :: putMember key v rest
    | none => (k, w) :: putMember key v rest

/-- The members in the order of their keys. -/
def ordered (entries : List (String × JsonValue)) : List (Option String × JsonValue) :=
  entries.foldl (fun ms e => putMember e.1 e.2 ms) []

/-- The members under a name. -/
def membersNamed (name : String) (ms : List (Option String × JsonValue)) : List JsonValue :=
  ms.filterMap fun m => if m.1 = some name then some m.2 else none

mutual

/-- The normal form of a value, if it has the shape. -/
def normal? : Schema → JsonValue → Option JsonValue
  | bool, .bool b => some (.bool b)
  | whole low high, .whole n => if low ≤ n ∧ n ≤ high then some (.whole n) else none
  | text, .string (some s) => some (.string (some s))
  | list element, .array vs => (vs.mapM fun v => normal? element v).map .array
  | optional _, .null => some .null
  | optional value, v => normal? value v
  | dictionary value, .object ms =>
    (List.mapM (fun m : Option String × JsonValue => do return (← m.1, ← normal? value m.2))
      ms).map fun entries => .object (ordered entries)
  | record fields, .object ms =>
    if ms.all fun m => m.1.isSome then (namedFields fields ms).map .object else none
  | record fields, .array vs => (listedFields fields vs).map .object
  | _, _ => none

/-- The fields of a record from the members of an object, each named at most once. -/
def namedFields : List (String × Schema × Option JsonValue) → List (Option String × JsonValue) →
    Option (List (Option String × JsonValue))
  | [], _ => some []
  | (name, schema, default) :: rest, ms => do
    let v ← match membersNamed name ms with
      | [] => default
      | [v] => normal? schema v
      | _ => none
    return (some name, v) :: (← namedFields rest ms)

/-- The fields of a record from the elements of an array, in order. -/
def listedFields : List (String × Schema × Option JsonValue) → List JsonValue →
    Option (List (Option String × JsonValue))
  | [], [] => some []
  | [], _ :: _ => none
  | (name, _, default) :: rest, [] => do
    let v ← default
    return (some name, v) :: (← listedFields rest [])
  | (name, schema, _) :: rest, v :: vs => do
    let v ← normal? schema v
    return (some name, v) :: (← listedFields rest vs)

end

/-- Reads a text by a schema. -/
def read? (schema : Schema) (text : String) : Option JsonValue :=
  (JsonValue.read? text).bind schema.normal?

end Schema

end TypedSettings
