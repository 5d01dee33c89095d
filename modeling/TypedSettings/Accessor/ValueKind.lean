import TypedSettings.Interface.Declaration

/-!
How a value is stored: directly, as one of the kinds that a store holds, or as text that a
serializer makes of it.
-/

namespace TypedSettings

/-- The kinds of values that a store holds. -/
inductive StoreKind where
  | boolean
  | int
  | long
  | float
  | string
  | stringSet
deriving DecidableEq, Repr

inductive ValueKind where
  | primitive (kind : StoreKind)
  | serialized
deriving DecidableEq, Repr

/-- The platform level from which a store holds sets of strings. -/
def stringSetLevel : Nat := 11

/-- The platform level from which a change can be published without waiting for it. -/
def applyLevel : Nat := 9

namespace StoreKind

/-- The first platform level with values of a kind, where there were any without them. -/
def minLevel? : StoreKind → Option Nat
  | stringSet => some stringSetLevel
  | _ => none

def text : StoreKind → String
  | boolean => "boolean"
  | int => "int"
  | long => "long"
  | float => "float"
  | string => "string"
  | stringSet => "string set"

end StoreKind

namespace ValueKind

def text : ValueKind → String
  | primitive kind => kind.text
  | serialized => "serialized"

/-- The paths that name the type of strings. -/
def stringPaths : List String := ["String", "std::string::String", "alloc::string::String"]

/-- The paths that name the type of sets. -/
def setPaths : List String := ["HashSet", "std::collections::HashSet", "collections::HashSet"]

/-- The kind that a path without arguments names. -/
def ofPath? (path : String) : Option StoreKind :=
  if path = "bool" then some .boolean
  else if path = "i32" then some .int
  else if path = "i64" then some .long
  else if path = "f32" then some .float
  else if stringPaths.contains path then some .string
  else none

/-- How a value of a type is stored. -/
def ofType : TypeRef → ValueKind
  | .path segments [] =>
    match ofPath? (QualifiedName.ofSegments segments) with
    | some kind => primitive kind
    | none => serialized
  | .path segments [arg] =>
    if setPaths.contains (QualifiedName.ofSegments segments) && ofType arg == primitive .string
    then primitive .stringSet
    else serialized
  | _ => serialized

/-- How a value of a type is stored, if a serializer is there where one is needed. -/
def resolve? (serializer : Option String) (type : TypeRef) : Option ValueKind :=
  match ofType type with
  | primitive kind => some (primitive kind)
  | serialized => serializer.map fun _ => serialized

/-- What a read gives when nothing is stored and no default was named. -/
def zeroDefault : ValueKind → DefaultValue
  | primitive .boolean => .literal (.ofBool false)
  | primitive .int => .literal (.ofText "0")
  | primitive .long => .literal (.ofText "0")
  | primitive .float => .literal (.ofText "0.0")
  | primitive .string => .literal (.ofText "\"\"")
  | primitive .stringSet =>
    .expr (Source.Token.code ["HashSet", "::", "new"] ++ Source.Token.arguments [])
  | serialized =>
    .expr (Source.Token.code ["Default", "::", "default"] ++ Source.Token.arguments [])

end ValueKind

end TypedSettings
