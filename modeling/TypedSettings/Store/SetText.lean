import TypedSettings.Text.Json
import TypedSettings.Text.Sorted

/-!
Sets of strings as text, for platforms whose stores hold no sets. The text is a JSON array of the
members in order, so it depends on the set alone.
-/

namespace TypedSettings.SetText

open TypedSettings.Text

/-- The text of a set, whatever the order of its members. -/
def encode (members : List String) : String :=
  (JsonValue.array ((Sorted.ofList members).map fun s => .string (some s))).write

/-- The string that a value is. -/
def string? : JsonValue → Option String
  | .string s => s
  | _ => none

/-- The set that a text stands for. -/
def decode? (text : String) : Option (List String) :=
  match JsonValue.read? text with
  | some (.array elements) => (elements.mapM string?).map Sorted.ofList
  | _ => none

end TypedSettings.SetText
