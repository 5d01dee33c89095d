import TypedSettings.Unit.Body

/-!
Generated accessors: a getter reads its key, a putter opens an editor, writes its key and publishes
the change.
-/

namespace TypedSettings

open Source Source.Token

namespace Emit

/-- Publishes the change: at once, or with a fallback where the platform may lack that. -/
def publish (t : Target) : Stmt :=
  if t.guards .apply then .gate .apply [.apply] [.commit] else .apply

/-- The default of a getter as an expression. An integer that stands for a float is converted. -/
def defaultTokens (default : DefaultValue) (kind : ValueKind) : List Token :=
  match default with
  | .literal l =>
    match l.kind, kind with
    | .int _, .primitive .float => [delimited .paren (l.tokens ++ code ["as", "f32"])]
    | _, _ => l.tokens
  | .expr tokens => tokens

/-- The default as the store takes it: strings are borrowed. -/
def borrowedDefault (default : DefaultValue) (kind : ValueKind) : List Token :=
  let tokens := defaultTokens default kind
  match default, kind with
  | .expr _, .primitive .string => code ["&"] ++ [delimited .paren tokens]
  | _, _ => tokens

/-- The name by which generated code calls the serializer: the last part of its path. -/
def serializerName (t : Target) : Except EmitFault String :=
  match t.serializer with
  | none => .error .noSerializer
  | some path => identifier (QualifiedName.simple path)

/-- The statement that reads a getter's value. -/
def readStmt (s : AccessorSpec) (t : Target) (type : List Token) : Except EmitFault Stmt :=
  let default := s.default.getD s.kind.zeroDefault
  match s.kind with
  | .primitive .stringSet =>
    let tokens := defaultTokens default s.kind
    if t.guards .stringSet then
      .ok (.gate .stringSet [.read .stringSet s.key tokens] [.readEncoded s.key tokens])
    else .ok (.read .stringSet s.key tokens)
  | .primitive kind => .ok (.read kind s.key (borrowedDefault default s.kind))
  | .serialized => do
    return .readSerialized (← serializerName t) s.key type (defaultTokens default s.kind)

/-- The statement that writes a putter's value. -/
def writeStmt (s : AccessorSpec) (t : Target) (param : String) : Except EmitFault Stmt :=
  match s.kind with
  | .primitive .stringSet =>
    if t.guards .stringSet then
      .ok (.gate .stringSet [.put .stringSet s.key param] [.putEncoded s.key param])
    else .ok (.put .stringSet s.key param)
  | .primitive kind => .ok (.put kind s.key param)
  | .serialized => do return .putSerialized (← serializerName t) s.key param

def getter (s : AccessorSpec) (t : Target) : Except EmitFault GeneratedMethod := do
  let name ← identifier s.method
  let type ← typeTokens s.type
  let read ← readStmt s t type
  return {
    name := s.method
    signature := code ["fn", name] ++ arguments [code ["&", "self"]] ++ code ["->"] ++ type
    body := [read] }

def putter (s : AccessorSpec) (t : Target) : Except EmitFault GeneratedMethod := do
  let name ← identifier s.method
  let type ← typeTokens s.type
  let param ← identifier (s.param.getD "value")
  let write ← writeStmt s t param
  return {
    name := s.method
    signature := code ["fn", name]
      ++ arguments [code ["&", "self"], code [param, ":"] ++ type]
      ++ (if s.isFluent then code ["->", "&", "Self"] else [])
    body := [.openEditor, write, publish t] ++ (if s.isFluent then [.self] else []) }

/-- The method that an accessor becomes. -/
def accessor (s : AccessorSpec) (t : Target) : Except EmitFault GeneratedMethod :=
  match s.role with
  | .getter => getter s t
  | .putter => putter s t

/-! ## Imports -/

/-- What publishing a change makes the unit import. -/
def publishImports (t : Target) : List String :=
  if t.guards .apply then ["prefs_api::build"] else []

/-- What the serializer makes the unit import: a path with several parts. -/
def serializerImports (t : Target) : List String :=
  match t.serializer with
  | some path => if (QualifiedName.segments path).length = 1 then [] else [path]
  | none => []

/-- What the kind of an accessor's values makes the unit import. -/
def kindImports (kind : ValueKind) (t : Target) : List String :=
  match kind with
  | .primitive .stringSet =>
    "std::collections::HashSet" ::
      (if t.guards .stringSet then ["prefs_api::build", "prefs_api::compat"] else [])
  | .serialized => serializerImports t
  | .primitive _ => []

/-- What an accessor makes the unit import. -/
def accessorImports (s : AccessorSpec) (t : Target) : List String :=
  kindImports s.kind t ++ match s.role with
    | .getter => []
    | .putter => publishImports t

end Emit

end TypedSettings
