import TypedSettings.Accessor.Key

/-!
Accessors: methods with a role, a key and a kind of values. A method becomes one when its shape
gives a role, its type can be stored, and its key and default are sound.
-/

namespace TypedSettings

/-- Everything that is needed to implement one method. -/
structure AccessorSpec where
  key : String
  role : Role
  kind : ValueKind
  /-- the type that is read or written -/
  type : TypeRef
  hasExplicitDefault : Bool
  default : Option DefaultValue
  interface : String
  method : String
  /-- the name of the value that a putter takes -/
  param : Option String
  returns : TypeRef
  /-- a putter that gives `&Self` -/
  isFluent : Bool
  location : Option SourceLocation
deriving Repr

namespace AccessorSpec

def attribution (s : AccessorSpec) : Attribution := .ofMethod s.interface s.method s.location

/-- The accessor that a method is. -/
def ofMethod (serializer : Option String) (interface : String) (m : MethodDecl) :
    Except Problem AccessorSpec := do
  let site := Attribution.ofMethod interface m.name m.location
  let role ← match m.role with
    | .ok role => pure role
    | .error fault => throw (.invalidAccessor interface m.name fault site)
  let type := m.valueType role
  let kind ← match ValueKind.resolve? serializer type with
    | some kind => pure kind
    | none => throw (.unresolvedSerialization type m.name site)
  let found ← Key.resolve interface m role kind
  return {
    key := found.key
    role, kind, type
    hasExplicitDefault := found.isExplicit
    default := found.default
    interface
    method := m.name
    param := match role with
      | .getter => none
      | .putter => m.params.head?.map Param.name
    returns := m.returns
    isFluent := role == .putter && m.returns == .selfReference
    location := m.location }

end AccessorSpec

end TypedSettings
